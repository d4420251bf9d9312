import GoblinStore.Storage.History
import GoblinStore.Storage.StageBuffers
import GoblinStore.Storage.Staging

/-!
# The files of committed objects

`OnDisk` says that the files under an object's live names hold its padded bytes, and `HandleDisk`
the same about the scratch files and the staging buffer of an open store. `DiskInv` collects both
for a state. It holds in every state of a run that keeps the conditions `Sound` lists: placements do
not wrap, a store that failed on the disk is only aborted, and renames succeed. Opens, writes and
unlinks may fail.
-/

namespace GoblinStore

open GoblinStore.Lib GoblinStore.Core Pool

/-- The bytes of an object, followed by zeros. -/
def padded (body : Nat → UInt8) (size : Nat) :
    Nat → UInt8 := fun x => if x < size then body x else 0

/-- The files under an object's live names on some drives. -/
def liveFiles (fs : FileSystem) (tier : Tier) (d : Digest) (drives : List Nat) : ObjectFiles :=
  fun drive => if drive ∈ drives then fs.dir (livePath tier d drive) else none

/-- The live files of an object hold its padded bytes. -/
structure OnDisk (cfg : Config) (fs : FileSystem) (d : Digest) (size : Nat)
    (content : Nat → UInt8) : Prop where
  fits : cfg.FitsObject d size
  names : ∀ tier pool, cfg.pool tier = some pool →
    ∀ drive ∈ pool.stripeDrives d.bucket ((cfg.layout size).tierBytes tier),
      fs.dir (livePath tier d drive) ≠ none
  stored : ∀ tier pool, cfg.pool tier = some pool →
    Stored pool d.bucket ((cfg.layout size).tierExtent tier)
      (fun x => content ((cfg.layout size).tierStart tier + x))
      (fs.bodies (liveFiles fs tier d
      (pool.stripeDrives d.bucket ((cfg.layout size).tierBytes tier))))

/-- The scratch files and the staging buffer of an open store hold what was written to it. -/
structure HandleDisk (cfg : Config) (fs : FileSystem) (stage : Nat → UInt8) (id : Nat)
    (h : StoreHandle) : Prop where
  named : Named fs id h
  fits : cfg.FitsObject h.digest h.layout.size
  layout_eq : h.layout = cfg.layout h.layout.size
  progress : h.body.size = h.off ∧ h.off ≤ h.layout.size
  ram : h.layout.size ≤ cfg.tiers.ramHead → h.stageFill = 0
  disk : cfg.tiers.ramHead < h.layout.size → Ready cfg h ∧
    (Staged cfg (padded h.body.data h.layout.size) h.off ⟨h, stage, fs⟩ ∨
      h.off = h.layout.size ∧ Complete cfg (padded h.body.data h.layout.size) ⟨h, stage, fs⟩)

variable {cfg : Config} {fs fs' : FileSystem} {d e : Digest} {id : Nat} {h : StoreHandle}
  {content : Nat → UInt8} {size : Nat}

/-! ## Frames -/

/-- Files behind descriptors that an action does not touch. -/
theorem bodies_congr {fds : ObjectFiles}
    (hsame : ∀ drive ino, fds drive = some ino → fs'.file ino = fs.file ino) :
    fs'.bodies fds = fs.bodies fds := by
  funext drive
  unfold FileSystem.bodies
  cases hd : fds drive with
  | none => rfl
  | some ino => exact hsame drive ino hd

theorem Flushed.congr {flushed : Nat} (hf : Flushed cfg content h flushed fs)
    (hbodies : ∀ tier, fs'.bodies (h.files tier) = fs.bodies (h.files tier)) :
    Flushed cfg content h flushed fs' := by
  intro tier pool hpool
  rw [hbodies]
  exact hf tier pool hpool

/-- The action of one store on the files of another. -/
theorem HandleDisk.frame {stage : Nat → UInt8} {i : Nat} (hd : HandleDisk cfg fs stage i h)
    (hc : Confined d id fs fs') (hne : i ≠ id) : HandleDisk cfg fs' stage i h := by
  have hbodies : ∀ tier, fs'.bodies (h.files tier) = fs.bodies (h.files tier) := by
    refine fun tier => bodies_congr fun drive ino hino => ?_
    have hname := hd.named tier drive ino hino
    refine hc.body ino (fs.dir_lt hname) fun tier' drive' hother => hne ?_
    have hpath := fs.dir_injective hname hother
    simp only [scratchPath, Path.mk.injEq, FileName.mk.injEq, Option.some.injEq] at hpath
    exact hpath.2.2.2
  refine { hd with named := fun tier drive ino hino => ?_, disk := fun hdisk => ?_ }
  · rw [hc.dir_other _ (by simp [scratchPath]) (by simp [scratchPath, hne])]
    exact hd.named tier drive ino hino
  · obtain ⟨hready, hst | ⟨hoff, hcomplete⟩⟩ := hd.disk hdisk
    · exact ⟨hready, Or.inl { hst with flushed := hst.flushed.congr hbodies }⟩
    · exact ⟨hready, Or.inr ⟨hoff, hcomplete.fill, hcomplete.flushed.congr hbodies⟩⟩

/-- The action of a store, or a drop, that leaves the live names of an object alone. -/
theorem OnDisk.frame (ho : OnDisk cfg fs e size content) (hc : Confined d id fs fs')
    (hlive : ∀ tier drive, fs'.dir (livePath tier e drive) = fs.dir (livePath tier e drive)) :
    OnDisk cfg fs' e size content := by
  refine ⟨ho.fits, fun tier pool hpool drive hdrive => ?_, fun tier pool hpool => ?_⟩
  · rw [hlive]
    exact ho.names tier pool hpool drive hdrive
  · have hst := ho.stored tier pool hpool
    generalize pool.stripeDrives e.bucket ((cfg.layout size).tierBytes tier) = drives at hst ⊢
    have hfiles : liveFiles fs' tier e drives = liveFiles fs tier e drives := by
      funext drive
      simp only [liveFiles, hlive]
    rw [hfiles, bodies_congr fun drive ino hino => ?_]
    · exact hst
    · unfold liveFiles at hino
      split_ifs at hino
      -- a live file is under no scratch name
      refine hc.body ino (fs.dir_lt hino) fun tier' drive' hother => ?_
      have hpath := fs.dir_injective hino hother
      simp [livePath, scratchPath] at hpath

/-- The live names of other digests. -/
theorem Pool.Confined.live_other (hc : Confined d id fs fs') (hne : e ≠ d) (tier : Tier)
    (drive : Nat) :
    fs'.dir (livePath tier e drive) = fs.dir (livePath tier e drive) :=
  hc.dir_other _ (by simp [livePath, hne]) (by simp [livePath])

/-- Only the bytes staged so far matter. -/
theorem Staged.congr {total : Nat} {w : State.Staging} (hst : Staged cfg content total w)
    {content' : Nat → UInt8} (heq : ∀ x < total, content' x = content x) :
    Staged cfg content' total w := by
  have hprogress := hst.progress
  refine ⟨hprogress, hst.aligned, hst.fill_lt, fun i hi => ?_, fun tier pool hpool => ?_⟩
  · rw [hst.bytes i hi, heq _ (by omega)]
  · refine (hst.flushed tier pool hpool).congr fun x hx => heq _ ?_
    omega

/-- A store of an object that does not fit the RAM head has a disk extent. -/
theorem HandleDisk.disk_iff {stage : Nat → UInt8} (hd : HandleDisk cfg fs stage id h) :
    cfg.tiers.ramHead < h.layout.size ↔ ¬ (h.layout.ssdBytes = 0 ∧ h.layout.hddBytes = 0) := by
  constructor
  · rintro hdisk ⟨hssd, hhdd⟩
    have hsum := (cfg.layout_tiers hdisk).1
    rw [← hd.layout_eq] at hsum
    omega
  · intro hne
    by_contra hram
    refine hne ?_
    rw [hd.layout_eq, Config.layout, compute_layout_ram_only (by omega)]
    exact ⟨rfl, rfl⟩

/-! ## Committing -/

theorem padded_zero (body : Nat → UInt8) (size x : Nat) (hx : size ≤ x) : padded body size x = 0 :=
  if_neg (by omega)

/-- Publishing the scratch files of a complete store puts the object on disk. -/
theorem OnDisk.publish (hready : Ready cfg h) (hnamed : Named fs id h)
    (hflushed : Flushed cfg content h (alignUp h.layout.size kDeviceBlock) fs)
    (hfile : fs'.file = fs.file) (hmoved : ∀ tier pool, cfg.pool tier = some pool →
      ∀ drive ∈ pool.stripeDrives h.digest.bucket (h.layout.tierBytes tier),
        fs.dir (scratchPath tier h.digest id drive) ≠ none ∧
          fs'.dir (livePath tier h.digest drive) = fs.dir (scratchPath tier h.digest id drive)) :
    OnDisk cfg fs' h.digest h.layout.size content := by
  have hlayout := hready.layout_eq
  refine ⟨hready.fits, fun tier pool hpool drive hdrive => ?_, fun tier pool hpool => ?_⟩
  · rw [← hlayout] at hdrive
    obtain ⟨hne, heq⟩ := hmoved tier pool hpool drive hdrive
    exact heq ▸ hne
  · rw [← hlayout]
    -- the live files are the scratch files
    have hfiles : liveFiles fs' tier h.digest
        (pool.stripeDrives h.digest.bucket (h.layout.tierBytes tier)) = h.files tier := by
      funext drive
      unfold liveFiles
      split_ifs with hdrive
      · obtain ⟨ino, hino⟩ := Option.ne_none_iff_exists'.1
          ((hready.open_iff tier pool hpool drive).2 hdrive)
        rw [(hmoved tier pool hpool drive hdrive).2, hnamed tier drive ino hino, hino]
      · exact (not_not.1 (mt (hready.open_iff tier pool hpool drive).1 hdrive)).symm
    have hextent : min (alignUp h.layout.size kDeviceBlock - h.layout.tierStart tier)
        (h.layout.tierExtent tier) = h.layout.tierExtent tier := by
      have htotal := cfg.total_extent hready.disk hready.fits.size_le
      rw [← hlayout] at htotal
      refine Nat.min_eq_right ?_
      rcases htotal with ⟨hzero, hssd⟩ | ⟨-, hssd, hhdd⟩
      · cases tier with
        | ssd =>
            simp only [ObjectLayout.tierStart]
            omega
        | hdd =>
            obtain ⟨-, hhi, f, hf⟩ := hready.extent_spec .hdd
            simp only [ObjectLayout.tierBytes, hzero, kDeviceBlock] at hhi hf
            omega
      · cases tier with
        | ssd =>
            simp only [ObjectLayout.tierStart]
            omega
        | hdd =>
            simp only [ObjectLayout.tierStart]
            omega
    have hst := hflushed tier pool hpool
    rw [hextent] at hst
    rw [hfiles, bodies_congr fun drive ino _ => congrFun hfile ino]
    exact hst

/-- A RAM-only object has no files. -/
theorem OnDisk.ram_only (hfits : cfg.FitsObject d size) (hram : size ≤ cfg.tiers.ramHead) :
    OnDisk cfg fs d size content := by
  have hbytes : ∀ tier, (cfg.layout size).tierBytes tier = 0 := by
    intro tier
    rw [Config.layout, compute_layout_ram_only hram]
    cases tier <;> rfl
  have hdrives : ∀ (pool : DrivePool) tier,
      pool.stripeDrives d.bucket ((cfg.layout size).tierBytes tier) = [] := by
    intro pool tier
    rw [hbytes]
    rfl
  refine ⟨hfits, fun tier pool _ drive hdrive => ?_, fun tier pool _ => ?_⟩
  · rw [hdrives] at hdrive
    cases hdrive
  · obtain ⟨-, hhi, f, hf⟩ := cfg.tier_extent_spec hfits.size_le tier
    have hext : (cfg.layout size).tierExtent tier = 0 := by
      rw [hbytes, hf] at hhi
      simp only [kDeviceBlock] at hhi hf
      omega
    rw [hext, hdrives]
    exact stored_empty fun drive => by simp [FileSystem.bodies, liveFiles, File.empty]

/-! ## The operations -/

/-- The files of the open stores that have not failed, and of the indexed objects. -/
structure DiskInv (cfg : Config) (σ : State) : Prop where
  handles : ∀ id h, σ.handles.lookup id = some h → h.failed = false →
    HandleDisk cfg σ.fs (σ.stageBytes h.stage) id h
  live : ForLive σ.index σ.history fun d m v => OnDisk cfg σ.fs d m.size (padded v.body m.size)

namespace DiskInv

variable {σ : State} {faults : Faults}

variable {σ' : State}

theorem of_same (h : DiskInv cfg σ) (hsame : State.SameStore σ σ') : DiskInv cfg σ' := by
  refine ⟨?_, ?_⟩
  · rw [hsame.handles, hsame.fs, hsame.stageBytes]
    exact h.handles
  · rw [hsame.index, hsame.history, hsame.fs]
    exact h.live

/-- A store acts on its own files and leaves all live names alone. -/
theorem of_confined (h : DiskInv cfg σ) (hc : Confined d id σ.fs σ'.fs)
    (hlive : ∀ tier e drive, σ'.fs.dir (livePath tier e drive) = σ.fs.dir (livePath tier e drive))
    (hindex : σ'.index = σ.index) (hhistory : σ'.history = σ.history)
    (hhandles : ∀ i h', σ'.handles.lookup i = some h' → h'.failed = false →
      (i ≠ id ∧ σ.handles.lookup i = some h' ∧ σ'.stageBytes h'.stage = σ.stageBytes h'.stage) ∨
        HandleDisk cfg σ'.fs (σ'.stageBytes h'.stage) i h') : DiskInv cfg σ' where
  handles i h' hh' hok := by
    rcases hhandles i h' hh' hok with ⟨hne, hold, hstage⟩ | hnew
    · rw [hstage]
      exact (h.handles i h' hold hok).frame hc hne
    · exact hnew
  live := by
    rw [hindex, hhistory]
    exact h.live.mono fun d' m v ho => ho.frame hc fun tier drive => hlive tier d' drive

/-- Unlinking scratch files leaves the live names and the files of other stores alone. -/
theorem unlink_scratch (h : DiskInv cfg σ) {layout : ObjectLayout}
    (hindex : σ'.index = σ.index) (hhistory : σ'.history = σ.history)
    (hbytes : σ'.stageBytes = σ.stageBytes)
    (hfs : σ'.fs = State.unlinkFiles cfg σ.fs faults d layout (some id))
    (hhandles : ∀ i h', σ'.handles.lookup i = some h' → i ≠ id ∧ σ.handles.lookup i = some h') :
    DiskInv cfg σ' := by
  obtain ⟨-, -, hdir⟩ := @State.unlink_files_spec cfg σ.fs faults d layout (some id)
  have hc : Confined d id σ.fs σ'.fs := hfs ▸ State.unlink_files_confined (Or.inr rfl)
  refine h.of_confined hc (fun tier e drive => ?_) hindex hhistory fun i h' hh' _ => Or.inl ?_
  · rw [hfs, hdir _ (by simp [livePath])]
  · obtain ⟨hne, hold⟩ := hhandles i h' hh'
    exact ⟨hne, hold, by rw [hbytes]⟩

variable {h₀ : StoreHandle} {w : State.Staging}

/-- The other handles after a store rewrote its handle and its staging buffer. -/
theorem put_cases (hstage : StageInv σ)
    (hh : σ.handles.lookup id = some h₀) (hsame : w.handle.stage = h₀.stage)
    (hhandles : σ'.handles = σ.handles.insert id w.handle)
    (hbytes : σ'.stageBytes = Function.update σ.stageBytes w.handle.stage w.stage)
    (hnew : w.handle.failed = false → HandleDisk cfg σ'.fs w.stage id w.handle) (i : Nat)
    (h' : StoreHandle) (hh' : σ'.handles.lookup i = some h') (hok : h'.failed = false) :
    (i ≠ id ∧ σ.handles.lookup i = some h' ∧ σ'.stageBytes h'.stage = σ.stageBytes h'.stage) ∨
      HandleDisk cfg σ'.fs (σ'.stageBytes h'.stage) i h' := by
  rw [hhandles] at hh'
  rcases Table.lookup_insert_some hh' with ⟨rfl, rfl⟩ | ⟨hi, hold⟩
  · refine Or.inr ?_
    rw [hbytes, Function.update_self]
    exact hnew hok
  · refine Or.inl ⟨hi, hold, ?_⟩
    rw [hbytes, Function.update_of_ne]
    exact fun heq => hi (hstage.distinct i id h' h₀ hold hh (heq.trans hsame))

/-- The files of a new store are empty. -/
theorem new_handle {files : Tier → ObjectFiles} (hgrows : Grows fs fs' ⟨d, some id⟩)
    (hfree : ∀ tier drive, fs.dir (scratchPath tier d id drive) = none)
    (hentry : ∀ tier drive ino, files tier drive = some ino →
      fs'.dir (scratchPath tier d id drive) = some ino) (tier : Tier) (drive : Nat) :
    (fs'.bodies (files tier) drive).size = 0 := by
  unfold FileSystem.bodies
  cases hino : files tier drive with
  | none => rfl
  | some ino =>
      have hname := hentry tier drive ino hino
      rcases hgrows.dir_cases (scratchPath tier d id drive) with hsame | ⟨-, -, ino', hino', hle⟩
      · rw [hsame, hfree] at hname
        cases hname
      · rw [hname, Option.some.injEq] at hino'
        subst hino'
        simp only [hgrows.body_new ino hle (fs'.dir_lt hname), File.empty]

/-- A store that was just opened. -/
theorem opened_handle {ssd : ObjectFiles} {hdd : Option ObjectFiles} {layout : ObjectLayout}
    (hlayout : layout = cfg.layout size) (hfits : cfg.FitsObject d size)
    (hopen : State.openFiles cfg fs faults d layout true (some id) = (some (ssd, hdd), fs'))
    (hfree : ∀ tier drive, fs.dir (scratchPath tier d id drive) = none) (head : Option Region)
    (buffer : Nat) (stage : Nat → UInt8) :
    HandleDisk cfg fs' stage id
      ⟨d, layout, ssd, hdd, head, buffer, 0, 0, 0, ByteView.empty, false⟩ := by
  have hopened := State.open_files_opened hopen
  have hgrows : Grows fs fs' ⟨d, some id⟩ := by
    have := @State.open_files_grows cfg fs faults d layout true (some id)
    rwa [hopen] at this
  have hsize : layout.size = size := by rw [hlayout, Config.layout, compute_layout_size]
  refine ⟨hopened.entry, hsize ▸ hfits, hsize ▸ hlayout, ⟨rfl, Nat.zero_le _⟩,
    fun _ => rfl, fun hdisk => ?_⟩
  refine ⟨⟨hsize ▸ hlayout, hdisk, hsize ▸ hfits, hopened.ne_none_iff, State.open_files_hdd hopen⟩,
    Or.inl ⟨rfl, Dvd.intro _ (Nat.mul_zero _), ?_, ?_, fun tier pool hpool => ?_⟩⟩
  · exact Nat.lt_of_lt_of_le (show 0 < kDeviceBlock by decide) cfg.chunk_ge
  · intro i hi
    exact absurd hi (Nat.not_lt_zero i)
  · rw [Nat.zero_sub, Nat.zero_min]
    exact stored_empty fun drive => new_handle hgrows hfree hopened.entry tier drive

/-- The bytes of a chunk follow those written before. -/
theorem padded_append {body chunk : ByteView} {off : Nat} (hoff : body.size = off)
    (hend : off + chunk.size ≤ size) :
    (∀ x < off, padded (body.append chunk).data size x = padded body.data size x) ∧
      ∀ j < chunk.size, chunk.data (0 + j) = padded (body.append chunk).data size (off + j) := by
  refine ⟨fun x hx => ?_, fun j hj => ?_⟩
  · simp only [padded]
    split_ifs
    · exact ByteView.append_left (by omega)
    · rfl
  · rw [padded, if_pos (by omega), Nat.zero_add, ← hoff, ByteView.append_right hj]

variable {stage : Nat → UInt8}

/-- A store after a write that succeeded. -/
theorem written_handle (hd : HandleDisk cfg fs stage id h₀)
    {chunk : ByteView} (hend : h₀.off + chunk.size ≤ h₀.layout.size)
    (hdisk : cfg.tiers.ramHead < h₀.layout.size)
    (hloop : State.stageLoop cfg faults chunk.data (chunk.size + 2) 0 chunk.size ⟨h₀, stage, fs⟩ =
      (true, w)) : HandleDisk cfg w.fs w.stage id (State.advance w.handle chunk) := by
  have hsame := State.stage_loop_same cfg faults chunk.data (chunk.size + 2) 0 chunk.size
    ⟨h₀, stage, fs⟩
  have hc := @State.stage_loop_confined cfg faults id ⟨h₀, stage, fs⟩ hd.named chunk.data
    (chunk.size + 2) 0 chunk.size
  rw [hloop] at hsame hc
  have hdigest : w.handle.digest = h₀.digest := hsame.digest
  have hlayout : w.handle.layout = h₀.layout := hsame.layout
  have hoff : w.handle.off = h₀.off := hsame.off
  have hbody : w.handle.body = h₀.body := hsame.body
  obtain ⟨hbytes, hchunk⟩ := padded_append hd.progress.1 hend
  have hnamed : Named w.fs id w.handle := hd.named.of_same hsame hc.2
  refine ⟨hnamed, ?_, ?_, ?_, fun hram => ?_, fun _ => ?_⟩
  · show cfg.FitsObject w.handle.digest w.handle.layout.size
    rw [hdigest, hlayout]
    exact hd.fits
  · show w.handle.layout = cfg.layout w.handle.layout.size
    rw [hlayout]
    exact hd.layout_eq
  · show w.handle.body.size + chunk.size = w.handle.off + chunk.size ∧
      w.handle.off + chunk.size ≤ w.handle.layout.size
    rw [hbody, hoff, hlayout, hd.progress.1]
    exact ⟨rfl, hend⟩
  · have hle : w.handle.layout.size ≤ cfg.tiers.ramHead := hram
    rw [hlayout] at hle
    omega
  · obtain ⟨hready, hst | ⟨hfin, hcomplete⟩⟩ := hd.disk hdisk
    · have hready' : Ready cfg w.handle := hready.of_same hsame
      refine ⟨{ hready' with }, Or.inl ?_⟩
      rcases @State.stage_loop_staged cfg faults id
        (padded (h₀.body.append chunk).data h₀.layout.size)
          ⟨h₀, stage, fs⟩ hready hd.named h₀.off (hst.congr hbytes) chunk.data 0 chunk.size
          (chunk.size + 2) hchunk hend (by omega) with ⟨hfail, -⟩ | ⟨-, hst'⟩
      · rw [hloop] at hfail
        cases hfail
      · rw [hloop] at hst'
        show Staged cfg (padded (w.handle.body.append chunk).data w.handle.layout.size)
          (w.handle.off + chunk.size) _
        rw [hbody, hoff, hlayout]
        exact { hst' with }
    · -- nothing is left to write, so the chunk is empty
      have hzero : chunk.size = 0 := by omega
      rw [hzero, State.stageLoop, if_pos rfl, Prod.mk.injEq] at hloop
      obtain ⟨-, rfl⟩ := hloop
      have hdata : (h₀.body.append chunk).data = h₀.body.data := by
        simp only [ByteView.append, hzero, blit_zero]
      refine ⟨{ hready with }, Or.inr ⟨?_, hcomplete.fill, ?_⟩⟩
      · simp only [State.advance, hzero, Nat.add_zero]
        exact hfin
      · simp only [State.advance, hdata]
        exact hcomplete.flushed

/-- A store whose last bytes were flushed has all its bytes in its files. -/
theorem flushed_handle (hd : HandleDisk cfg fs stage id h₀) (hoff : h₀.off = h₀.layout.size)
    (hflush : State.flushTail cfg faults ⟨h₀, stage, fs⟩ = (true, w)) :
    HandleDisk cfg w.fs w.stage id w.handle ∧ (cfg.tiers.ramHead < h₀.layout.size →
      Complete cfg (padded h₀.body.data h₀.layout.size) w) := by
  have hsame := State.flush_tail_same cfg faults ⟨h₀, stage, fs⟩
  have hc := @State.flush_tail_confined cfg faults id ⟨h₀, stage, fs⟩ (Or.inr hd.named)
  rw [hflush] at hsame hc
  have hdigest : w.handle.digest = h₀.digest := hsame.digest
  have hlayout : w.handle.layout = h₀.layout := hsame.layout
  have hbody : w.handle.body = h₀.body := hsame.body
  have hoff' : w.handle.off = h₀.off := hsame.off
  have hcomplete : cfg.tiers.ramHead < h₀.layout.size →
      Complete cfg (padded h₀.body.data h₀.layout.size) w := by
    intro hdisk
    obtain ⟨hready, hst | ⟨-, hcomplete⟩⟩ := hd.disk hdisk
    · rw [hoff] at hst
      rcases @State.flush_tail_complete cfg faults id (padded h₀.body.data h₀.layout.size)
          ⟨h₀, stage, fs⟩ hready hd.named hst (fun x => padded_zero _ _ x) with
        ⟨hfail, -⟩ | ⟨-, hcomplete⟩
      · rw [hflush] at hfail
        cases hfail
      · rwa [hflush] at hcomplete
    · -- a flush already padded the tail, and a second one has nothing to do
      have hfill : h₀.stageFill = 0 := hcomplete.fill
      rw [State.flushTail, if_neg (by rw [hfill]; exact Nat.lt_irrefl 0), Prod.mk.injEq] at hflush
      rw [← hflush.2]
      exact hcomplete
  refine ⟨⟨hd.named.of_same hsame hc.2, ?_, ?_, ?_, fun _ => State.flush_tail_fill hflush,
    fun hdisk => ?_⟩, hcomplete⟩
  · rw [hdigest, hlayout]
    exact hd.fits
  · rw [hlayout]
    exact hd.layout_eq
  · rw [hbody, hoff', hlayout]
    exact hd.progress
  · rw [hlayout] at hdisk
    refine ⟨(hd.disk hdisk).1.of_same hsame, Or.inr ⟨?_, ?_⟩⟩
    · rw [hoff', hlayout]
      exact hoff
    · rw [hbody, hlayout]
      exact hcomplete hdisk

/-- The drives of an object's tier are distinct. -/
theorem drives_nodup (hfits : cfg.FitsObject d size) {tier : Tier} {pool : DrivePool}
    (hpool : cfg.pool tier = some pool) :
    (pool.stripeDrives d.bucket ((cfg.layout size).tierBytes tier)).Nodup := by
  rcases Nat.eq_zero_or_pos ((cfg.layout size).tierBytes tier) with hzero | hpos
  · rw [hzero]
    exact List.nodup_nil
  · exact DrivePool.stripe_drives_nodup (hfits.tiers tier pool hpool hpos)

/-- Publishing a complete store can only fail in a rename. -/
theorem publish_succeeds (hd : HandleDisk cfg fs stage id h)
    (hfaults : ∀ tier drive, faults.renameat tier drive = false) :
    (State.publishFiles cfg fs faults h.digest h.layout id).1 = true := by
  refine State.publish_files_succeeds hfaults fun tier pool hpool => ?_
  rw [hd.layout_eq]
  refine ⟨drives_nodup hd.fits hpool, fun drive hdrive => ?_⟩
  rcases Nat.lt_or_ge cfg.tiers.ramHead h.layout.size with hdisk | hram
  · obtain ⟨hready, -⟩ := hd.disk hdisk
    rw [← hd.layout_eq] at hdrive
    obtain ⟨ino, hino⟩ := Option.ne_none_iff_exists'.1
      ((hready.open_iff tier pool hpool drive).2 hdrive)
    rw [hd.named tier drive ino hino]
    exact Option.some_ne_none ino
  · have hzero : (cfg.layout h.layout.size).tierBytes tier = 0 := by
      rw [Config.layout, compute_layout_ram_only hram]
      cases tier <;> rfl
    rw [hzero] at hdrive
    cases hdrive

/-- A flushed store whose files were renamed is on disk. -/
theorem published_object (hd : HandleDisk cfg fs stage id h₀) (hoff : h₀.off = h₀.layout.size)
    (hflush : State.flushTail cfg faults ⟨h₀, stage, fs⟩ = (true, w))
    (hpublish : State.publishFiles cfg w.fs faults h₀.digest h₀.layout id = (true, fs')) :
    OnDisk cfg fs' h₀.digest h₀.layout.size (padded h₀.body.data h₀.layout.size) := by
  obtain ⟨hd', hcomplete⟩ := flushed_handle hd hoff hflush
  obtain ⟨hfile, hmoved⟩ := State.publish_files_ok hpublish
  have hsame := State.flush_tail_same cfg faults ⟨h₀, stage, fs⟩
  rw [hflush] at hsame
  have hdigest : w.handle.digest = h₀.digest := hsame.digest
  have hlayout : w.handle.layout = h₀.layout := hsame.layout
  rcases Nat.lt_or_ge cfg.tiers.ramHead h₀.layout.size with hdisk | hram
  · rw [← hdigest, ← hlayout] at hmoved
    have hready : Ready cfg w.handle := (hd'.disk (by rwa [hlayout])).1
    have hnew := OnDisk.publish hready hd'.named (hcomplete hdisk).flushed hfile hmoved
    rwa [hdigest, hlayout] at hnew
  · exact OnDisk.ram_only hd.fits hram

end DiskInv

/-! ## The changes -/

/-- What the store relies on: placements do not wrap, a store that failed on the disk is only
aborted, and a commit's renames succeed. -/
def Sound (cfg : Config) (σ : State) : Op → Prop
  | .beginStore d size _ => cfg.FitsObject d size
  | .write id _ _ => ∀ h, σ.handles.lookup id = some h → h.failed = false
  | .commit id _ _ _ faults => (∀ h, σ.handles.lookup id = some h → h.failed = false) ∧
      ∀ tier drive, faults.renameat tier drive = false
  | _ => True

/-- What every sound run keeps about files, scratch names and staging buffers. -/
structure FilesInv (cfg : Config) (σ : State) : Prop where
  scratch : ScratchInv σ
  stage : StageInv σ
  disk : DiskInv cfg σ

namespace FilesInv

variable {σ σ' : State} {op : Op} {faults : Faults}

theorem init (cfg : Config) : FilesInv cfg (State.init cfg) :=
  ⟨ScratchInv.init cfg, StageInv.init cfg, by simp [State.init], by simp [ForLive, State.init]⟩

/-- No file has the scratch names of the next store. -/
theorem unused (h : FilesInv cfg σ) (tier : Tier) (d : Digest) (drive : Nat) :
    σ.fs.dir (scratchPath tier d σ.storeSeq drive) = none := by
  cases hino : σ.fs.dir (scratchPath tier d σ.storeSeq drive) with
  | none => rfl
  | some ino => exact absurd (h.scratch.scratch.suffix_lt _ _ _ _ _ hino) (Nat.lt_irrefl _)

/-- An open leaves the live names and the files of open stores alone. -/
theorem opened (h : FilesInv cfg σ) {layout : ObjectLayout}
    {ans : Option (ObjectFiles × Option ObjectFiles)}
    (hopen : State.openFiles cfg σ.fs faults d layout true (some σ.storeSeq) = (ans, fs)) :
    DiskInv cfg { σ with storeSeq := σ.storeSeq + 1, fs := fs } := by
  have hgrows := @State.open_files_grows cfg σ.fs faults d layout true (some σ.storeSeq)
  rw [hopen] at hgrows
  exact h.disk.of_confined (State.open_files_confined hopen)
    (fun _ _ _ => hgrows.dir_other (by simp [livePath])) rfl rfl
    fun i h' hh' _ => Or.inl ⟨Nat.ne_of_lt (h.scratch.fresh.handle_lt i h' hh'), hh', rfl⟩

/-- A handle that is put back holds what was written to it, unless it failed. -/
theorem put_back (h : FilesInv cfg σ) {h₀ : StoreHandle} (hh : σ.handles.lookup id = some h₀)
    (hok : h₀.failed = false) (hput : Put cfg σ id h₀ op σ') : DiskInv cfg σ' := by
  have hd := h.disk.handles id h₀ hh hok
  cases hput with
  | @wrote chunk faults w hend hw =>
      have hkeeps := hw.keeps
      have hc := (Kept.writes_confined (Or.inr hd.named) hend hw).1
      rw [State.fill_head_eq]
      refine h.disk.of_confined hc (fun _ _ _ => congrFun hkeeps.dir _) rfl rfl
        (DiskInv.put_cases (w := { w with handle := State.advance w.handle chunk }) h.stage hh
          hkeeps.same.stage rfl rfl fun _ => ?_)
      rcases hw with ⟨hram, -, rfl⟩ | ⟨hdisk, hloop⟩
      · refine { hd with progress := ⟨?_, hend⟩, disk := fun hdisk => ?_ }
        · simp only [State.advance, ByteView.append_size, hd.progress.1]
        · exact absurd hram (hd.disk_iff.1 hdisk)
      · exact DiskInv.written_handle hd hend (hd.disk_iff.2 hdisk) hloop
  | @unwritten chunk faults w hend hw =>
      have hc := (Kept.writes_confined (Or.inr hd.named) hend hw).1
      rw [State.fill_head_eq]
      exact h.disk.of_confined hc (fun _ _ _ => congrFun hw.keeps.dir _) rfl rfl
        (DiskInv.put_cases (w := w.spoil) h.stage hh hw.keeps.same.stage rfl rfl
          fun hfailed => by cases hfailed)
  | @flushed _ _ _ faults w hoff hflush =>
      have hkeeps := State.flush_tail_keeps hflush
      have hc := @State.flush_tail_confined cfg faults id ⟨h₀, σ.stageBytes h₀.stage, σ.fs⟩
        (Or.inr hd.named)
      rw [hflush] at hc
      exact h.disk.of_confined hc.1 (fun _ _ _ => congrFun hc.2 _) rfl rfl
        (DiskInv.put_cases h.stage hh hkeeps.same.stage rfl rfl fun _ =>
        (DiskInv.flushed_handle hd hoff hflush).1)
  | @unflushed _ _ _ faults w hoff hflush =>
      have hkeeps := State.flush_tail_keeps hflush
      have hc := @State.flush_tail_confined cfg faults id ⟨h₀, σ.stageBytes h₀.stage, σ.fs⟩
        (Or.inr hd.named)
      rw [hflush] at hc
      exact h.disk.of_confined hc.1 (fun _ _ _ => congrFun hc.2 _) rfl rfl
        (DiskInv.put_cases (w := w.spoil) h.stage hh hkeeps.same.stage rfl rfl
          fun hfailed => by cases hfailed)

/-- The version of a flushed store whose files were renamed. -/
theorem installed (h : FilesInv cfg σ) {h₀ : StoreHandle} (hh : σ.handles.lookup id = some h₀)
    (hok : h₀.failed = false) (hoff : h₀.off = h₀.layout.size) (hfill : h₀.stageFill = 0)
    (hpublish : State.publishFiles cfg σ.fs faults h₀.digest h₀.layout id = (true, fs))
    (flags expiry : Nat) (old : Option ObjectMeta) (isNew : Bool) :
    DiskInv cfg (State.install (State.retireHead { σ with fs := fs } h₀.digest old)
      id h₀ flags expiry isNew) := by
  have hflush : State.flushTail cfg faults ⟨h₀, σ.stageBytes h₀.stage, σ.fs⟩ =
      (true, ⟨h₀, σ.stageBytes h₀.stage, σ.fs⟩) := by
    rw [State.flushTail, if_neg (by dsimp only; omega)]
  have hnew := DiskInv.published_object (h.disk.handles id h₀ hh hok) hoff hflush hpublish
  have hc := @State.publish_files_confined cfg σ.fs faults h₀.digest h₀.layout id
  rw [hpublish] at hc
  rw [State.retire_head_eq]
  refine ⟨fun i h' hh' hok' => ?_,
    h.disk.live.put hnew fun e m v hne ho => ho.frame hc (hc.live_other hne)⟩
  obtain ⟨hi, hold⟩ := Table.lookup_erase_some hh'
  exact (h.disk.handles i h' hold hok').frame hc hi

/-- Every change of a sound step keeps the files in order. -/
theorem change (h : FilesInv cfg σ) (hsound : Sound cfg σ op) (hc : Change cfg σ op σ') :
    FilesInv cfg σ' := by
  refine ⟨h.scratch.change hc, h.stage.change hc, ?_⟩
  cases hc with
  | quiet hop => exact h.disk.of_same (State.quiet_same cfg σ hop)
  | settle => exact ⟨h.disk.handles, h.disk.live⟩
  | unhead _ hm =>
      rw [State.free_head_region_eq]
      exact ⟨h.disk.handles, h.disk.live.rewrite hm fun _ hq => hq⟩
  | @forget _ d m _ _ _ hm hd =>
      have hunlink : ∀ i, Confined d i σ.fs
          (State.unlinkFiles cfg σ.fs op.faults d (cfg.layout m.size) none) :=
        fun i => State.unlink_files_confined (Or.inl rfl)
      rw [State.free_head_eq]
      refine ⟨fun i h' hh' hok => ?_, h.disk.live.drop hd fun e m v hne ho => ?_⟩
      · -- the names of store `i` are not those of store `i + 1`
        exact (h.disk.handles i h' hh' hok).frame (hunlink (i + 1)) (by omega)
      · exact ho.frame (hunlink 0) ((hunlink 0).live_other hne)
  | retime hm => exact ⟨h.disk.handles, h.disk.live.rewrite hm fun _ hq => hq⟩
  | opened hopen => exact h.opened hopen
  | refused hopen =>
      refine (h.opened hopen).unlink_scratch rfl rfl rfl rfl fun i h' hh' => ⟨?_, hh'⟩
      exact Nat.ne_of_lt (h.scratch.fresh.handle_lt i h' hh')
  | started hopen =>
      obtain ⟨hhandles, hlive⟩ := h.opened hopen
      refine ⟨fun i h' hh' hok => ?_, hlive⟩
      rcases Table.lookup_insert_some hh' with ⟨rfl, rfl⟩ | ⟨-, hold⟩
      · exact DiskInv.opened_handle rfl hsound hopen (fun tier drive => h.unused tier _ drive) _ _ _
      · exact hhandles i h' hold hok
  | put hh hput =>
      refine h.put_back hh ?_ hput
      cases hput with
      | wrote => exact hsound _ hh
      | unwritten => exact hsound _ hh
      | flushed => exact hsound.1 _ hh
      | unflushed => exact hsound.1 _ hh
  | unpublished hh _ _ hpublish =>
      -- the renames succeed
      have hsucc := DiskInv.publish_succeeds (h.disk.handles _ _ hh (hsound.1 _ hh)) hsound.2
      rw [hpublish] at hsucc
      cases hsucc
  | installed hh hoff hfill _ hpublish =>
      exact h.installed hh (hsound.1 _ hh) hoff hfill hpublish _ _ _ _
  | closed =>
      rw [State.give_back_eq]
      exact h.disk.unlink_scratch rfl rfl rfl rfl fun _ _ hh' => Table.lookup_erase_some hh'

theorem changes (h : FilesInv cfg σ) (hc : Changes cfg op σ σ') (hsound : ∀ σ', Sound cfg σ' op) :
    FilesInv cfg σ' := by
  induction hc with
  | refl => exact h
  | tail _ hlast ih => exact ih.change (hsound _) hlast

theorem apply (h : FilesInv cfg σ) (hsound : Sound cfg σ op) : FilesInv cfg (σ.apply cfg op) := by
  cases op with
  | write id chunk faults =>
      rcases @State.write_put cfg σ id chunk faults with heq | ⟨h₀, hh, hput⟩
      · rw [State.apply, heq]
        exact h
      · exact h.change hsound (.put hh hput)
  | commit id flags expiry cas faults =>
      show FilesInv cfg (State.commit cfg σ id flags expiry cas faults).2
      rcases @State.commit_path cfg σ id flags expiry cas faults with heq | hone |
          ⟨h₀, w, hh, hflush, hput, hends⟩
      · rw [heq]
        exact h
      · exact h.change hsound hone
      · -- the flush keeps the store's record of failures
        have hsound' : Sound cfg (σ.putStaging id w) (.commit id flags expiry cas faults) := by
          refine ⟨fun h' hh' => ?_, hsound.2⟩
          cases (Table.lookup_insert_self σ.handles id w.handle).symm.trans hh'
          exact (State.flush_tail_keeps hflush).failed.trans (hsound.1 h₀ hh)
        have hflushed := h.change hsound hput
        rcases hends with hlast | ⟨σ₂, hinst, heq⟩
        · exact hflushed.change hsound' hlast
        · rw [heq]
          exact (hflushed.change hsound' hinst).changes
            (@State.enforce_object_bound_changes cfg (.abort 0 faults) σ₂) fun _ => trivial
  | beginStore d size faults => exact h.changes (State.apply_changes cfg σ _) fun _ => hsound
  | _ => exact h.changes (State.apply_changes cfg σ _) fun _ => trivial

/-- The files of every state of a sound run. -/
theorem run (h : FilesInv cfg σ) {ops : List Op}
    (hsound : Allowed (State.apply cfg) (Sound cfg) σ ops) :
    FilesInv cfg (Lib.run (State.apply cfg) σ ops) :=
  invariant_run (fun _ _ hok hinv => hinv.apply hok) h hsound

end FilesInv

end GoblinStore
