import GoblinStore.Storage.Cas
import GoblinStore.Storage.PinnedHeads
import GoblinStore.Storage.Reads

/-!
# The tier manager refines a lossy map

A lossy map gives each key at most one value and may forget keys. `LossyStep` says what an operation
may do to it. When file-system calls succeed (`Regular`), no store fails on the disk, every indexed
object has the size and flags of its last commit, and `read` returns the bytes of that commit.
-/

namespace GoblinStore

open GoblinStore.Lib GoblinStore.Core Pool

/-! ## Calls that succeed -/

/-- No file-system call of the operation fails. -/
def Op.Succeeds : Op → Prop
  | .beginStore _ _ faults => faults = Faults.never
  | .write _ _ faults => faults = Faults.never
  | .commit _ _ _ _ faults => faults = Faults.never
  | .abort _ faults => faults = Faults.never
  | .remove _ faults => faults = Faults.never
  | .reapNext _ faults => faults = Faults.never
  | .openSnapshot _ faults => faults = Faults.never
  | _ => True

/-- A step whose calls succeed and whose placement does not wrap. -/
structure Regular (cfg : Config) (op : Op) : Prop where
  succeeds : op.Succeeds
  fits : ∀ d size faults, op = .beginStore d size faults → cfg.FitsObject d size

/-- No open store has failed. -/
def NoneFailed (σ : State) : Prop := ∀ id h, σ.handles.lookup id = some h → h.failed = false

variable {cfg : Config} {σ : State} {faults : Faults}

variable {op : Op}

theorem Op.Succeeds.never (h : op.Succeeds) : op.faults = Faults.never := by
  cases op <;> first | exact h | rfl

/-- A store whose calls succeed writes its chunk: only a fault ends the staging loop early. -/
theorem HandleDisk.write_succeeds {id : Nat} {h₀ : StoreHandle} {chunk : ByteView} {ok : Bool}
    {w : State.Staging} (hd : HandleDisk cfg σ.fs (σ.stageBytes h₀.stage) id h₀)
    (hend : h₀.off + chunk.size ≤ h₀.layout.size)
    (hw : State.Writes cfg σ h₀ chunk Faults.never ok w) : ok = true := by
  rcases hw with ⟨-, hok, -⟩ | ⟨hdisk, hloop⟩
  · exact hok
  · obtain ⟨hbytes, hchunk⟩ := DiskInv.padded_append hd.progress.1 hend
    obtain ⟨hready, hst | ⟨hfin, -⟩⟩ := hd.disk (hd.disk_iff.2 hdisk)
    · rcases @State.stage_loop_staged cfg Faults.never id
          (padded (h₀.body.append chunk).data h₀.layout.size) ⟨h₀, σ.stageBytes h₀.stage, σ.fs⟩
          hready
          hd.named h₀.off (hst.congr hbytes) chunk.data 0 chunk.size (chunk.size + 2) hchunk hend
          (by omega) with ⟨-, tier, x, hfault⟩ | ⟨htrue, -⟩
      · exact absurd rfl hfault
      · rwa [hloop] at htrue
    · rw [show chunk.size = 0 by omega, State.stageLoop, if_pos rfl, Prod.mk.injEq] at hloop
      exact hloop.1.symm

/-- A commit whose calls succeed passes the flush. -/
theorem HandleDisk.flush_succeeds {id : Nat} {h₀ : StoreHandle} {ok : Bool} {w : State.Staging}
    (hd : HandleDisk cfg σ.fs (σ.stageBytes h₀.stage) id h₀) (hoff : h₀.off = h₀.layout.size)
    (hflush : State.flushTail cfg Faults.never ⟨h₀, σ.stageBytes h₀.stage, σ.fs⟩ = (ok, w)) :
    ok = true := by
  -- with nothing staged the flush has nothing to do
  have hempty : h₀.stageFill = 0 → ok = true := by
    intro hfill
    rw [State.flushTail, if_neg (by rw [hfill]; exact Nat.lt_irrefl 0), Prod.mk.injEq] at hflush
    exact hflush.1.symm
  rcases Nat.lt_or_ge cfg.tiers.ramHead h₀.layout.size with hdisk | hram
  · obtain ⟨hready, hst | ⟨-, hcomplete⟩⟩ := hd.disk hdisk
    · rw [hoff] at hst
      rcases @State.flush_tail_complete cfg Faults.never id (padded h₀.body.data h₀.layout.size)
          ⟨h₀, σ.stageBytes h₀.stage, σ.fs⟩ hready hd.named hst (fun x => padded_zero _ _ x) with
        ⟨-, tier, x, hfault⟩ | ⟨htrue, -⟩
      · exact absurd rfl hfault
      · rwa [hflush] at htrue
    · exact hempty hcomplete.fill
  · exact hempty (hd.ram hram)

namespace NoneFailed

/-- Rewriting a handle that has not failed. -/
theorem insert (h : NoneFailed σ) {id : Nat} {h₀ : StoreHandle} (hok : h₀.failed = false) (i : Nat)
    (h' : StoreHandle) (hh' : (σ.handles.insert id h₀).lookup i = some h') : h'.failed = false := by
  rcases Table.lookup_insert_some hh' with ⟨-, rfl⟩ | ⟨-, hold⟩
  · exact hok
  · exact h i h' hold

theorem erase (h : NoneFailed σ) {id : Nat} (i : Nat) (h' : StoreHandle)
    (hh' : (σ.handles.erase id).lookup i = some h') : h'.failed = false :=
  h i h' (Table.lookup_erase_some hh').2

theorem change {op : Op} {σ' : State} (h : NoneFailed σ) (hfiles : FilesInv cfg σ)
    (hop : op.Succeeds) (hc : Change cfg σ op σ') : NoneFailed σ' := by
  unfold NoneFailed
  cases hc with
  | quiet hquiet =>
      rw [(State.quiet_same cfg σ hquiet).handles]
      exact h
  | settle => exact h
  | unhead =>
      rw [State.free_head_region_eq]
      exact h
  | forget =>
      rw [State.free_head_eq]
      exact h
  | retime => exact h
  | opened => exact h
  | refused => exact h
  | started => exact h.insert rfl
  | @put _ id h₀ _ hh hput =>
      have hok := h id h₀ hh
      have hd := hfiles.disk.handles id h₀ hh hok
      cases hput with
      | wrote hend hw =>
          rw [State.fill_head_eq]
          exact h.insert (hw.keeps.failed.trans hok)
      | unwritten hend hw =>
          cases hop
          cases hd.write_succeeds hend hw
      | flushed hoff hflush => exact h.insert ((State.flush_tail_keeps hflush).failed.trans hok)
      | unflushed hoff hflush =>
          cases hop
          cases hd.flush_succeeds hoff hflush
  | @unpublished id _ _ _ _ h₀ _ hh _ _ hpublish =>
      cases hop
      have hsucc := DiskInv.publish_succeeds (hfiles.disk.handles id h₀ hh (h id h₀ hh))
        (fun _ _ => (rfl : Faults.never.renameat _ _ = false))
      rw [hpublish] at hsucc
      cases hsucc
  | installed =>
      rw [State.retire_head_eq]
      exact h.erase
  | closed => exact h.erase

end NoneFailed

/-- A regular step meets the conditions of a sound run, as long as no store has failed. -/
theorem Regular.sound (hop : Regular cfg op) (h : NoneFailed σ) : Sound cfg σ op := by
  cases op with
  | beginStore d size faults => exact hop.fits d size faults rfl
  | write id chunk faults => exact h id
  | commit id flags expiry cas faults =>
      refine ⟨h id, ?_⟩
      rw [show faults = Faults.never from hop.succeeds]
      exact fun _ _ => rfl
  | _ => trivial

/-- A regular step keeps the files in order and no store fails in it. -/
theorem Regular.apply (hop : Regular cfg op) (h : NoneFailed σ) (hfiles : FilesInv cfg σ) :
    FilesInv cfg (σ.apply cfg op) ∧ NoneFailed (σ.apply cfg op) :=
  Change.invariant (P := fun σ' => FilesInv cfg σ' ∧ NoneFailed σ')
    (fun _ _ hinv hc => ⟨hinv.1.change (hop.sound hinv.2) hc, hinv.2.change hinv.1 hop.succeeds hc⟩)
    ⟨hfiles, h⟩

/-- A regular run is a sound run. -/
theorem Regular.allowed {ops : List Op} (hops : ∀ op ∈ ops, Regular cfg op) (h : NoneFailed σ)
    (hfiles : FilesInv cfg σ) : Allowed (State.apply cfg) (Sound cfg) σ ops := by
  induction ops generalizing σ with
  | nil => trivial
  | cons op rest ih =>
      have hop := hops op List.mem_cons_self
      obtain ⟨hfiles', h'⟩ := hop.apply h hfiles
      exact ⟨hop.sound h, ih (fun op' hop' => hops op' (List.mem_cons_of_mem op hop')) h' hfiles'⟩

theorem regular_sound (cfg : Config) {ops : List Op} (hops : ∀ op ∈ ops, Regular cfg op) :
    Allowed (State.apply cfg) (Sound cfg) (State.init cfg) ops :=
  Regular.allowed hops (by simp [NoneFailed, State.init]) (FilesInv.init cfg)

/-! ## Exact reads -/

variable {d : Digest} {m : ObjectMeta} {v : Version} {offset outLen : Nat}

/-- The SSD reads at an aligned offset stay in the SSD files. -/
theorem State.ssd_reads_open (h : Readable cfg σ d m v) (hoff : offset < m.size)
    (haligned : kDeviceBlock ∣ offset) (hfaults : ∀ tier drive, faults.openat tier drive = false) :
    ∃ ssd, ssdReads cfg σ d (cfg.layout m.size) offset (min outLen (m.size - offset))
      m.headLen outLen
      faults = some ssd ∧ ∀ seg ∈ ssd, seg.fd ≠ none := by
  have hsize := h.disk.fits.size_le
  unfold ssdReads
  dsimp only
  split_ifs with hrange
  · obtain ⟨fds, hopen⟩ := Option.ne_none_iff_exists'.1 (h.disk.can_open .ssd rfl hfaults)
    rw [show (cfg.layout m.size).tierBytes .ssd = (cfg.layout m.size).ssdBytes from rfl] at hopen
    rw [hopen]
    refine ⟨_, rfl, fun seg hseg => ?_⟩
    have hst := h.disk.stored .ssd cfg.ssd rfl
    rw [show (cfg.layout m.size).tierBytes .ssd = (cfg.layout m.size).ssdBytes from rfl,
      ← open_live hopen] at hst
    refine hst.segs_open ?_ hseg
    -- the head of a disk-backed object ends at a device block
    have hdisk : cfg.tiers.ramHead < m.size := by
      by_contra hram
      rw [Config.layout, compute_layout_ram_only (by omega)] at hrange
      dsimp only at hrange
      omega
    have hhead : kDeviceBlock ∣ m.headLen := by
      unfold ObjectMeta.headLen
      cases hr : m.head with
      | none => exact Nat.dvd_zero _
      | some r =>
          rw [Option.map_some, Option.getD_some, h.head_fits.len_eq r hr,
            Nat.min_eq_right (Nat.le_of_lt hdisk)]
          exact cfg.tiers.ram_head_aligned
    obtain ⟨hlo, -, e, he⟩ := cfg.tier_extent_spec hsize .ssd
    obtain ⟨-, hup, u, hu⟩ := align_up_spec (v := min (offset + min outLen (m.size - offset))
      (cfg.layout m.size).ssdBytes - max offset m.headLen) (by omega)
    obtain ⟨a, ha⟩ := haligned
    obtain ⟨b, hb⟩ := hhead
    simp only [ObjectLayout.tierBytes, kDeviceBlock] at *
    omega
  · exact ⟨[], rfl, fun seg hseg => absurd hseg List.not_mem_nil⟩

/-- The HDD reads at an aligned offset stay in the HDD files. -/
theorem State.hdd_reads_open (h : Readable cfg σ d m v) (hoff : offset < m.size)
    (haligned : kDeviceBlock ∣ offset) (hfaults : ∀ tier drive, faults.openat tier drive = false) :
    ∃ hdd, hddReads cfg σ d (cfg.layout m.size) offset (min outLen (m.size - offset))
      outLen faults =
      some hdd ∧ ∀ seg ∈ hdd, seg.fd ≠ none := by
  have hsize := h.disk.fits.size_le
  unfold hddReads
  split
  · exact ⟨[], rfl, fun seg hseg => absurd hseg List.not_mem_nil⟩
  · rename_i pool hpool
    split_ifs with hrange
    · obtain ⟨fds, hopen⟩ := Option.ne_none_iff_exists'.1 (h.disk.can_open .hdd hpool hfaults)
      rw [show (cfg.layout m.size).tierBytes .hdd = (cfg.layout m.size).hddBytes from rfl] at hopen
      rw [hopen]
      refine ⟨_, rfl, fun seg hseg => ?_⟩
      have hst := h.disk.stored .hdd pool hpool
      rw [show (cfg.layout m.size).tierBytes .hdd = (cfg.layout m.size).hddBytes from rfl,
        ← open_live hopen] at hst
      refine hst.segs_open ?_ hseg
      have hdisk : cfg.tiers.ramHead < m.size := by
        by_contra hram
        rw [Config.layout, compute_layout_ram_only (by omega)] at hrange
        exact absurd hrange.1 (Nat.lt_irrefl 0)
      obtain ⟨hsum, htail⟩ := cfg.layout_tiers hdisk
      obtain ⟨⟨b, hb⟩, -⟩ := htail hrange.1
      obtain ⟨hlo, -, e, he⟩ := cfg.tier_extent_spec hsize .hdd
      obtain ⟨-, hup, u, hu⟩ := align_up_spec (v := offset + min outLen (m.size - offset) -
        max offset (cfg.layout m.size).ssdBytes) (by omega)
      obtain ⟨a, ha⟩ := haligned
      simp only [ObjectLayout.tierBytes, kDeviceBlock] at *
      omega
    · exact ⟨[], rfl, fun seg hseg => absurd hseg List.not_mem_nil⟩

/-- `read` at an aligned offset of an indexed object returns its bytes. -/
theorem State.read_exact (h : Readable cfg σ d m v) (haligned : kDeviceBlock ∣ offset)
    (hmoves : Transfers cfg outLen) (hfaults : ∀ tier drive, faults.openat tier drive = false)
    (out : Nat → UInt8) :
    ∃ bytes, State.read cfg σ d offset outLen out faults = .ok bytes ∧
      bytes.size = min outLen (v.size - offset) ∧
      ∀ p < bytes.size, bytes.data p = v.body (offset + p) := by
  rw [h.size_eq]
  rcases Nat.lt_or_ge offset m.size with hoff | hend
  · obtain ⟨ssd, hssd, hssdOpen⟩ :=
      @ssd_reads_open cfg σ faults d m v offset outLen h hoff haligned hfaults
    obtain ⟨hdd, hhdd, hhddOpen⟩ :=
      @hdd_reads_open cfg σ faults d m v offset outLen h hoff haligned hfaults
    have hread : State.read cfg σ d offset outLen out faults = .ok ⟨min outLen (m.size - offset),
        (hdd.map (Seg.transfer σ.fs)).foldl (fun buf t => t.perform buf)
          ((ssd.map (Seg.transfer σ.fs)).foldl (fun buf t => t.perform buf)
            (σ.copyHead m offset (min outLen (m.size - offset)) out))⟩ := by
      simp only [State.read, readSnapshot, h.indexed, if_neg (Nat.not_le.2 hoff), hssd, hhdd,
        hmoves.ssd_reads hssd, hmoves.hdd_reads hhdd, striped_read_eq hssdOpen,
        striped_read_eq hhddOpen]
    refine ⟨_, hread, rfl, fun p hp => ?_⟩
    have hfast := @ssd_reads_awaiting cfg σ d m v faults offset outLen out h hoff _ hssd
    have hall := hdd_reads_awaiting h hoff hhdd fun p hp => hfast.gather (List.Perm.refl _) hp
    have hbyte := hall.gather (List.Perm.refl _) hp
    rw [padded, if_pos (by dsimp only at hp; omega)] at hbyte
    exact hbyte
  · refine ⟨⟨0, out⟩, ?_, by dsimp only; omega, fun p hp => absurd hp (Nat.not_lt_zero p)⟩
    simp only [State.read, readSnapshot, h.indexed, if_pos hend, List.map_nil, stripedRead]

/-! ## The abstract map -/

/-- The value of each key that is present. -/
abbrev LossyMap := Digest → Option Version

namespace LossyMap

/-- Store a value. -/
def put (M : LossyMap) (d : Digest) (v : Version) : LossyMap := Function.update M d (some v)

/-- Forget a key. -/
def drop (M : LossyMap) (d : Digest) : LossyMap := Function.update M d none

/-- Some keys may have been forgotten. -/
def Loses (M M' : LossyMap) : Prop := ∀ d, M' d = M d ∨ M' d = none

end LossyMap

/-- What an operation may do to the map: evictions lose keys, a successful commit stores what was
written to its handle, `remove` and the reaper forget one key, and nothing else changes a value. -/
def LossyStep (cfg : Config) (σ : State) (M M' : LossyMap) : Op → Prop
  | .beginStore _ _ _ => M.Loses M'
  | .commit id flags expiry cas faults =>
      (σ.commit cfg id flags expiry cas faults).1 ≠ .ok () ∧ M' = M ∨
      ∃ h v, (σ.commit cfg id flags expiry cas faults).1 = .ok () ∧ σ.handles.lookup id = some h ∧
        v.size = h.layout.size ∧ h.body.size = v.size ∧ v.flags = flags ∧ v.body = h.body.data ∧
        (M.put h.digest v).Loses M'
  | .remove d _ => M' = M.drop d
  | .reapNext d _ => M' = M ∨ d ∈ σ.reaping ∧ M' = M.drop d
  | _ => M' = M

/-- Events that commit nothing lose keys. -/
theorem live_version_loses {drops rest : List Event} (h : ∀ event ∈ drops, event.version = none) :
    LossyMap.Loses (liveVersion rest) (liveVersion (drops ++ rest)) := by
  intro d
  induction drops with
  | nil => exact Or.inl rfl
  | cons event drops ih =>
      rw [List.cons_append, liveVersion]
      split_ifs
      · exact Or.inr (h event List.mem_cons_self)
      · exact ih fun e he => h e (List.mem_cons_of_mem event he)

theorem NoCommit.loses {σ' : State} (h : NoCommit σ σ') :
    LossyMap.Loses (liveVersion σ.history) (liveVersion σ'.history) := by
  obtain ⟨drops, heq, hdrops⟩ := h.history
  rw [heq]
  exact live_version_loses hdrops

theorem live_version_update (event : Event) (rest : List Event) :
    liveVersion (event :: rest) = Function.update (liveVersion rest)
      event.digest event.version := by
  funext d
  rw [liveVersion, Function.update_apply]
  exact if_congr eq_comm rfl rfl

/-- Dropping an object forgets its key, which is absent if the object is not indexed. -/
theorem drop_object_lossy (hrec : Recorded σ.index σ.history) {event : Event}
    (hd : event.digest = d) (hv : event.version = none) :
    liveVersion (State.dropObject cfg σ d faults event).history =
      LossyMap.drop (liveVersion σ.history) d := by
  rcases State.drop_object_cases cfg σ d faults event with
    ⟨hnone, heq⟩ | ⟨m, -, ⟨-, heq⟩ | ⟨r, -, heq⟩⟩ <;>
    rw [heq]
  · rw [LossyMap.drop, ← hrec.absent hnone, Function.update_eq_self]
  · rw [live_version_update, hd, hv]
    rfl
  · rw [State.free_head_region_eq, live_version_update, hd, hv]
    rfl

theorem commit_lossy (hprogress : ∀ id h, σ.handles.lookup id = some h → h.body.size = h.off)
    (id flags expiry cas : Nat) :
    LossyStep cfg σ (liveVersion σ.history)
      (liveVersion (State.commit cfg σ id flags expiry cas faults).2.history)
      (.commit id flags expiry cas faults) := by
  simp only [LossyStep]
  rcases @State.commit_ledger cfg σ id flags expiry cas faults with
    ⟨hfail, heq⟩ | ⟨h, hok, hh, hoff, -, hfade⟩
  · exact Or.inl ⟨hfail, congrArg (fun l => liveVersion l.history) heq⟩
  · refine Or.inr ⟨h, ⟨h.layout.size, flags, (σ.etagSeq + 1) % wrap64, h.body.data⟩, hok, hh, rfl,
      (hprogress id h hh).trans hoff, rfl, rfl, ?_⟩
    have hput : liveVersion (σ.ledger.put h flags expiry).history =
        LossyMap.put (liveVersion σ.history) h.digest
        ⟨h.layout.size, flags, (σ.etagSeq + 1) % wrap64, h.body.data⟩ :=
      live_version_update (.put h.digest
        ⟨h.layout.size, flags, (σ.etagSeq + 1) % wrap64, h.body.data⟩) σ.history
    obtain ⟨drops, heq, hdrops⟩ := hfade.history
    rw [← hput, show (State.commit cfg σ id flags expiry cas faults).2.history = _ from heq]
    exact live_version_loses hdrops

/-- Every step of the tier manager is a step of the lossy map. -/
theorem lossy_step (h : Contents σ) (op : Op) :
    LossyStep cfg σ (liveVersion σ.history) (liveVersion (σ.apply cfg op).history) op := by
  cases op with
  | beginStore d size faults => exact (NoCommit.of_fading (State.begin_store_fading σ d size)).loses
  | commit id flags expiry cas faults =>
      exact commit_lossy (fun id h' hh => (h.heads.progress id h' hh).1) id flags expiry cas
  | remove d faults =>
      simp only [State.apply, State.remove, LossyStep]
      split
      · rename_i hnone
        rw [LossyMap.drop, ← h.recorded.absent hnone, Function.update_eq_self]
      · exact drop_object_lossy h.recorded rfl rfl
  | reapNext d faults =>
      simp only [State.apply, State.reapNext, LossyStep]
      split_ifs with hmem
      · have hdrop := @drop_object_lossy cfg { σ with reaping := σ.reaping.erase d }
          faults d h.recorded
          (.reaped d) rfl rfl
        exact Or.inr ⟨hmem, hdrop⟩
      · exact Or.inl rfl
  | write id chunk faults =>
      show liveVersion (State.write cfg σ id chunk faults).2.history = liveVersion σ.history
      rcases @State.write_put cfg σ id chunk faults with heq | ⟨h₀, -, hput⟩
      · rw [heq]
      · obtain ⟨w, -, -, -, heq⟩ := hput.same
        rw [heq]
        rfl
  | abort id faults =>
      show liveVersion (State.abort cfg σ id faults).history = liveVersion σ.history
      rcases State.abort_cases cfg σ id faults with ⟨-, heq⟩ | ⟨h₀, -, ⟨-, heq⟩ | ⟨r, -, heq⟩⟩ <;>
        rw [heq]
      rfl
  | touchTtl d expiry =>
      simp only [State.apply, State.touchTtl, LossyStep]
      split <;> rfl
  | _ =>
      refine congrArg liveVersion (State.SameStore.history ?_)
      exact State.quiet_same cfg σ trivial

/-- The state refines the map that its history gives: an indexed object has the size and flags of
its last commit and reads as that commit's value where no disk read is too long for one call, an
object that is not indexed is absent from the map, and the next operation is a step of the map. -/
structure RefinesMap (cfg : Config) (σ : State) : Prop where
  present : ∀ d m, σ.index.lookup d = some m →
    ∃ v, liveVersion σ.history d = some v ∧ m.size = v.size ∧ m.flags = v.flags ∧
      ∀ off, kDeviceBlock ∣ off → ∀ outLen out, State.Transfers cfg outLen →
        ∃ bytes, State.read cfg σ d off outLen out Faults.never = .ok bytes ∧
          bytes.size = min outLen (v.size - off) ∧ ∀ p < bytes.size, bytes.data p = v.body (off + p)
  absent : ∀ d, σ.index.lookup d = none → liveVersion σ.history d = none
  step : ∀ op, LossyStep cfg σ (liveVersion σ.history) (liveVersion (σ.apply cfg op).history) op

/-- With blocks of at most 4 GiB, every state of a run whose file-system calls succeed refines the
lossy map. -/
theorem tier_manager_refines (cfg : Config) (hblock : cfg.blockBytes ≤ wrap32) (ops : List Op)
    (hops : ∀ op ∈ ops, Regular cfg op) : RefinesMap cfg (State.after cfg ops) := by
  have hcontents := reachable_contents cfg hblock ops
  refine ⟨fun d m hm => ?_, fun d hd => hcontents.recorded.absent hd, lossy_step hcontents⟩
  obtain ⟨v, hv, hstamp, hreadable⟩ := readable_after hblock (regular_sound cfg hops) hm
  obtain ⟨hsize, hflags, -⟩ : v.size = m.size ∧ v.flags = m.flags ∧ v.etag = m.etag := by
    simpa only [Version.stamp, ObjectMeta.stamp, Prod.mk.injEq] using hstamp
  exact ⟨v, hv, hsize.symm, hflags.symm, fun off haligned outLen out hmoves =>
    State.read_exact hreadable haligned hmoves (fun _ _ => rfl) out⟩

/-- Store an object with a head of 4 KiB and a disk extent. -/
def storeTenThousand : List Op :=
  [.beginStore (Digest.replicate 1) 10000 Faults.never,
    .write 0 ⟨10000, fun i => UInt8.ofNat i⟩ Faults.never, .commit 0 5 0 0 Faults.never]

theorem one_drive_fits {k : UInt8} (hk : (Digest.replicate k).bucket + 3 ≤ wrap64) :
    oneDriveConfig.FitsObject (Digest.replicate k) 10000 := by
  refine ⟨by decide, fun tier pool hpool _ => ?_⟩
  cases tier with
  | ssd =>
      cases hpool
      exact ⟨by decide, hk⟩
  | hdd => cases hpool

theorem store_ten_thousand_regular : ∀ op ∈ storeTenThousand, Regular oneDriveConfig op := by
  intro op hop
  simp only [storeTenThousand, List.mem_cons, List.not_mem_nil, or_false] at hop
  rcases hop with rfl | rfl | rfl
  · refine ⟨rfl, fun d size faults heq => ?_⟩
    cases heq
    exact one_drive_fits (by decide)
  · exact ⟨rfl, nofun⟩
  · exact ⟨rfl, nofun⟩

theorem tier_manager_refines_disk :
    (State.after oneDriveConfig storeTenThousand).index.lookup (Digest.replicate 1) =
        some ⟨10000, 5, 0, 1, some ⟨0, 0, 4096⟩⟩ ∧
      RefinesMap oneDriveConfig (State.after oneDriveConfig storeTenThousand) :=
  ⟨by decide +kernel, tier_manager_refines oneDriveConfig (by decide) _ store_ten_thousand_regular⟩

/-- Store a fifth object of 1 GiB in an 8 GiB block. -/
def storeFifth : List Op :=
  [.beginStore (Digest.replicate 5) (2 ^ 30) Faults.never,
    .write 4 ⟨2 ^ 30, fun _ => 2⟩ Faults.never, .commit 4 0 0 0 Faults.never]

theorem store_fifth_regular :
    ∀ op ∈ fillLowerHalf ++ storeFifth, Regular wideBlockConfig op := by
  have hfits : ∀ d, wideBlockConfig.FitsObject d (2 ^ 30) := by
    refine fun d => ⟨by decide, fun tier pool _ hpos => ?_⟩
    cases tier <;> exact absurd hpos (by decide)
  intro op hop
  have hsucceeds : op.Succeeds := by
    simp only [fillLowerHalf, storeFifth, List.cons_append, List.nil_append, List.mem_cons,
      List.not_mem_nil, or_false] at hop
    rcases hop with rfl | rfl | rfl | rfl | rfl | rfl | rfl | rfl | rfl <;> rfl
  refine ⟨hsucceeds, fun d size faults heq => ?_⟩
  simp only [fillLowerHalf, storeFifth, List.cons_append, List.nil_append, List.mem_cons, heq,
    Op.beginStore.injEq, reduceCtorEq, List.not_mem_nil, or_false, false_or] at hop
  rcases hop with ⟨-, rfl, -⟩ | ⟨-, rfl, -⟩ | ⟨-, rfl, -⟩ | ⟨-, rfl, -⟩ | ⟨-, rfl, -⟩ <;>
    exact hfits d

/-- The committed value of the first object starts with a one. -/
theorem store_fifth_body : (liveVersion
    (State.after wideBlockConfig (fillLowerHalf ++ storeFifth)).history
      (Digest.replicate 1)).map (fun v => (v.size, v.body 0)) =
      some (2 ^ 30, 1) := by decide +kernel

/-- The head of the fifth object is handed out over the first, which then reads as the fifth. -/
theorem wide_block_read_wrong :
    (∀ op ∈ fillLowerHalf ++ storeFifth, Regular wideBlockConfig op) ∧
      ¬ RefinesMap wideBlockConfig (State.after wideBlockConfig (fillLowerHalf ++ storeFifth)) := by
  refine ⟨store_fifth_regular, fun h => ?_⟩
  obtain ⟨v, hv, -, -, hread⟩ := h.present (Digest.replicate 1)
    ⟨2 ^ 30, 0, 0, 1, some ⟨0, 0, 2 ^ 30⟩⟩
    (by decide +kernel)
  have hbytes : (State.read wideBlockConfig
      (State.after wideBlockConfig (fillLowerHalf ++ storeFifth))
      (Digest.replicate 1) 0 1 (fun _ => 0) Faults.never).toOption.map (·.data 0) = some 2 := by
    decide +kernel
  have hbody := store_fifth_body
  rw [hv, Option.map_some, Option.some.injEq, Prod.mk.injEq] at hbody
  obtain ⟨bytes, hok, hsize, hdata⟩ := hread 0 (Nat.dvd_zero _) 1 (fun _ => 0) fun _ pool _ =>
    (Nat.min_le_right pool.stripeUnit 1).trans (by decide)
  rw [hbody.1] at hsize
  rw [hok, Except.toOption, Option.map_some, hdata 0 (by rw [hsize]; decide), hbody.2] at hbytes
  cases hbytes

end GoblinStore
