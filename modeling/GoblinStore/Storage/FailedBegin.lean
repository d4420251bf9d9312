import GoblinStore.Storage.LiveFiles
import GoblinStore.Storage.ObjectBound

/-!
# What a failed `begin_store` costs

`begin_store` evicts heads until the new one fits. If it still does not fit when the head policy has
no resident left, a RAM-only object is refused, and the heads are gone: the disk-backed objects have
lost theirs and the RAM-only objects are deleted. The other failures come before the first eviction
and leave every object as it was.
-/

namespace GoblinStore

open GoblinStore.Lib GoblinStore.Core Pool

variable {cfg : Config} {σ σ' : State} {fs fs' : FileSystem} {faults : Faults} {d : Digest}

/-! ## Reads of unchanged objects -/

/-- Opening live files depends on the live entries only. -/
theorem Pool.open_loop_congr {tier : Tier} {name : FileName} {drives : List Nat} {fds : ObjectFiles}
    (hdir : ∀ drive, fs'.dir ⟨tier, drive, name⟩ = fs.dir ⟨tier, drive, name⟩) :
    (openLoop faults tier name false drives fds fs').1 =
      (openLoop faults tier name false drives fds fs).1 := by
  induction drives generalizing fds with
  | nil => rfl
  | cons drive rest ih =>
      simp only [openLoop, FileSystem.openat, hdir, Bool.false_eq_true, if_false]
      cases fds drive with
      | some ino => exact ih
      | none =>
          dsimp only
          split_ifs
          · rfl
          · cases fs.dir ⟨tier, drive, name⟩ with
            | none => rfl
            | some ino => exact ih

/-- A striped read depends on the files behind its descriptors only. -/
theorem striped_read_congr {segs : List Seg}
    (hfile : ∀ seg ∈ segs, ∀ ino, seg.fd = some ino → fs'.file ino = fs.file ino)
    (out : Nat → UInt8) :
    stripedRead fs' segs out = stripedRead fs segs out := by
  induction segs generalizing out with
  | nil => rfl
  | cons seg rest ih =>
      rw [stripedRead, stripedRead]
      cases hfd : seg.fd with
      | none => rfl
      | some ino =>
          have hsame : seg.transfer fs' = seg.transfer fs := by
            unfold Seg.transfer
            rw [hfd]
            dsimp only
            rw [hfile seg List.mem_cons_self ino hfd]
          dsimp only
          rw [hsame]
          exact ih (fun s hs => hfile s (List.mem_cons_of_mem seg hs)) _

/-- The objects, their heads and their live files are the same. -/
structure SameObjects (σ σ' : State) : Prop where
  index : σ'.index = σ.index
  ramBytes : σ'.ramBytes = σ.ramBytes
  dir : ∀ tier d drive, σ'.fs.dir (livePath tier d drive) = σ.fs.dir (livePath tier d drive)
  file : ∀ tier d drive ino, σ.fs.dir (livePath tier d drive) = some ino →
    σ'.fs.file ino = σ.fs.file ino

namespace SameObjects

/-- The descriptors of a live open are those of live entries. -/
theorem opened_file (h : SameObjects σ σ') {tier : Tier} {pool : DrivePool} {bytes : Nat}
    {fds : ObjectFiles} (hopen : (openObject σ.fs faults tier pool d bytes false none).1 = some fds)
    {tierOff len outBase : Nat} {seg : Seg}
    (hseg : seg ∈ addDriveSegs pool d.bucket fds tierOff len outBase) {ino : Nat}
    (hfd : seg.fd = some ino) : σ'.fs.file ino = σ.fs.file ino := by
  have hpair : openObject σ.fs faults tier pool d bytes false none = (some fds, σ.fs) :=
    Prod.ext hopen open_loop_read
  obtain ⟨x, n, -, -, -, rfl⟩ := mem_add_drive_segs hseg
  exact h.file tier d _ ino ((open_object_opened hpair).entry hfd)

theorem ssd_reads (h : SameObjects σ σ') (layout : ObjectLayout) (offset want ramEnd outLen : Nat) :
    State.ssdReads cfg σ' d layout offset want ramEnd outLen faults =
        State.ssdReads cfg σ d layout offset want ramEnd outLen faults ∧
      ∀ segs, State.ssdReads cfg σ d layout offset want ramEnd outLen faults = some segs →
        ∀ seg ∈ segs, ∀ ino, seg.fd = some ino → σ'.fs.file ino = σ.fs.file ino := by
  have hopen : (openObject σ'.fs faults .ssd cfg.ssd d layout.ssdBytes false none).1 =
      (openObject σ.fs faults .ssd cfg.ssd d layout.ssdBytes false none).1 :=
    open_loop_congr (h.dir .ssd d)
  unfold State.ssdReads
  dsimp only
  rw [hopen]
  refine ⟨rfl, fun segs hsegs seg hseg ino hfd => ?_⟩
  split_ifs at hsegs
  · cases hfds : (openObject σ.fs faults .ssd cfg.ssd d layout.ssdBytes false none).1 with
    | none =>
        rw [hfds] at hsegs
        cases hsegs
    | some fds =>
        rw [hfds, Option.some.injEq] at hsegs
        subst hsegs
        exact h.opened_file hfds hseg hfd
  · cases hsegs
    cases hseg

theorem hdd_reads (h : SameObjects σ σ') (layout : ObjectLayout) (offset want outLen : Nat) :
    State.hddReads cfg σ' d layout offset want outLen faults =
        State.hddReads cfg σ d layout offset want outLen faults ∧
      ∀ segs, State.hddReads cfg σ d layout offset want outLen faults = some segs →
        ∀ seg ∈ segs, ∀ ino, seg.fd = some ino → σ'.fs.file ino = σ.fs.file ino := by
  unfold State.hddReads
  cases cfg.hdd with
  | none =>
      refine ⟨rfl, fun segs hsegs seg hseg ino hfd => ?_⟩
      cases hsegs
      cases hseg
  | some pool =>
      have hopen : (openObject σ'.fs faults .hdd pool d layout.hddBytes false none).1 =
          (openObject σ.fs faults .hdd pool d layout.hddBytes false none).1 :=
        open_loop_congr (h.dir .hdd d)
      dsimp only
      rw [hopen]
      refine ⟨rfl, fun segs hsegs seg hseg ino hfd => ?_⟩
      split_ifs at hsegs
      · cases hfds : (openObject σ.fs faults .hdd pool d layout.hddBytes false none).1 with
        | none =>
            rw [hfds] at hsegs
            cases hsegs
        | some fds =>
            rw [hfds, Option.some.injEq] at hsegs
            subst hsegs
            exact h.opened_file hfds hseg hfd
      · cases hsegs
        cases hseg

/-- Every read gives what it gave. -/
theorem read (h : SameObjects σ σ') (offset outLen : Nat) (out : Nat → UInt8) :
    State.read cfg σ' d offset outLen out faults = State.read cfg σ d offset outLen out faults := by
  have hcopy : ∀ m off want, σ'.copyHead m off want out = σ.copyHead m off want out := by
    intro m off want
    unfold State.copyHead
    rw [h.ramBytes]
  unfold State.read State.readSnapshot
  rw [h.index]
  cases σ.index.lookup d with
  | none => rfl
  | some m =>
      dsimp only
      split_ifs
      · rfl
      · obtain ⟨hssd, hssd'⟩ := @ssd_reads cfg σ σ' faults d h (cfg.layout m.size) offset
          (min outLen (m.size - offset)) m.headLen outLen
        obtain ⟨hhdd, hhdd'⟩ := @hdd_reads cfg σ σ' faults d h (cfg.layout m.size) offset
          (min outLen (m.size - offset)) outLen
        rw [hssd, hhdd, hcopy]
        cases hs : State.ssdReads cfg σ d (cfg.layout m.size) offset
          (min outLen (m.size - offset)) m.headLen
            outLen faults with
        | none => rfl
        | some ssd =>
            cases ht : State.hddReads cfg σ d (cfg.layout m.size) offset
              (min outLen (m.size - offset)) outLen
                faults with
            | none => rfl
            | some hdd =>
                dsimp only
                rw [striped_read_congr ((List.forall_mem_map (f := Seg.submitted)).2
                  (hssd' ssd hs))]
                cases stripedRead σ.fs (ssd.map Seg.submitted)
                  (σ.copyHead m offset (min outLen (m.size - offset)) out) with
                | none => rfl
                | some bytes =>
                    dsimp only
                    rw [striped_read_congr ((List.forall_mem_map (f := Seg.submitted)).2
                      (hhdd' hdd ht))]

end SameObjects

/-! ## The head policy -/

/-- The queues of the head policy cover its residents. -/
def HeadsQueued (σ : State) : Prop := σ.policy.Queued

namespace HeadsQueued

theorem evicted (h : HeadsQueued σ) {victim : Option Digest} {policy : S3Fifo}
    (hevict : σ.policy.evict = (victim, policy)) : policy.Queued := by
  have hqueued := (S3Fifo.Queued.evict h).1
  rwa [hevict] at hqueued

theorem change {op : Op} (h : HeadsQueued σ) (hc : Change cfg σ op σ') : HeadsQueued σ' := by
  cases hc with
  | quiet hop =>
      unfold HeadsQueued
      rcases (State.quiet_readers cfg σ hop).policy with heq | ⟨d, heq⟩ <;> rw [heq]
      · exact h
      · exact S3Fifo.Queued.touch h d
  | settle _ hpolicy =>
      rcases hpolicy with rfl | ⟨victim, hevict, -⟩
      · exact h
      · exact h.evicted hevict
  | unhead hevict => exact h.evicted hevict
  | @forget _ d _ _ _ _ _ _ _ hpolicy =>
      rcases hpolicy with rfl | ⟨-, -, hevict⟩
      · unfold HeadsQueued
        split_ifs
        · exact S3Fifo.Queued.remove h d
        · exact h
      · exact h.evicted hevict
  | retime => exact h
  | opened => exact h
  | refused => exact h
  | started => exact h
  | put _ hput =>
      obtain ⟨w, -, -, -, heq⟩ := hput.same
      rw [heq]
      exact h
  | unpublished => exact h
  | @installed id _ _ _ _ h₀ fs _ =>
      have hretired : (State.retireHead { σ with fs := fs } h₀.digest
          (σ.index.lookup h₀.digest)).policy.Queued := by
        unfold State.retireHead
        split
        · dsimp only
          rw [State.free_head_region_eq]
          exact S3Fifo.Queued.remove h h₀.digest
        · exact h
      simp only [HeadsQueued, State.install]
      split_ifs
      · exact hretired.insert _
      · exact hretired
  | closed =>
      rw [State.give_back_eq]
      exact h

theorem apply (h : HeadsQueued σ) (op : Op) : HeadsQueued (σ.apply cfg op) :=
  Change.invariant (fun _ _ h' hc => h'.change hc) h

end HeadsQueued

/-- A reservation that fails has evicted every resident of the head policy. -/
theorem State.reserve_loop_none {n fuel : Nat} {σ₁ : State}
    (h : reserveLoop cfg n fuel σ = (none, σ₁)) (hq : HeadsQueued σ)
    (hfuel : σ.policy.residents.card < fuel) : σ₁.policy.residents = ∅ := by
  induction fuel generalizing σ with
  | zero => omega
  | succ fuel ih =>
      rw [reserveLoop] at h
      split at h
      · cases h
      · split at h
        · rename_i policy hevict
          cases h
          have hempty := (S3Fifo.Queued.evict hq).2 (congrArg Prod.fst hevict)
          rw [← S3Fifo.evict_none hevict] at hempty
          exact hempty
        · rename_i victim policy hevict
          have hcard := S3Fifo.card_residents_evict hevict
          have hpolicy := (evict_head_frame cfg { σ with policy := policy } victim).2.2
          refine ih h ?_ ?_
          · rw [HeadsQueued, hpolicy]
            exact hq.evicted hevict
          · rw [hpolicy]
            dsimp only
            omega

/-- With no resident the reservation evicts nothing. -/
theorem State.reserve_loop_idle {n fuel : Nat} {σ₁ : State}
    (h : reserveLoop cfg n fuel σ = (none, σ₁)) (hempty : σ.policy.residents = ∅) :
    SameObjects σ σ₁ := by
  cases fuel with
  | zero =>
      cases h
      exact ⟨rfl, rfl, fun _ _ _ => rfl, fun _ _ _ _ _ => rfl⟩
  | succ fuel =>
      rw [reserveLoop] at h
      split at h
      · cases h
      · split at h
        · cases h
          exact ⟨rfl, rfl, fun _ _ _ => rfl, fun _ _ _ _ _ => rfl⟩
        · rename_i victim policy hevict
          have hmem := (S3Fifo.evict_some hevict).1
          rw [hempty] at hmem
          cases hmem

/-! ## `begin_store` -/

/-- Every object of `σ` is still in the index of `σ'` with the same metadata, and reads as
before. -/
def KeepsObjects (cfg : Config) (σ σ' : State) : Prop :=
  ∀ k m, σ.index.lookup k = some m → σ'.index.lookup k = some m ∧
    ∀ offset outLen out faults, σ'.read cfg k offset outLen out faults =
    σ.read cfg k offset outLen out faults

/-- The store is RAM-only, gets a staging buffer and finds resident heads to evict. -/
def ReachesEviction (cfg : Config) (σ : State) (size : Nat) : Prop :=
  0 < size ∧ size ≤ cfg.tiers.ramHead ∧ σ.writePool.free ≠ [] ∧
    ∃ k m, σ.index.lookup k = some m ∧ m.head ≠ none

theorem SameObjects.keeps (h : SameObjects σ σ') : KeepsObjects cfg σ σ' :=
  fun _ _ hm => ⟨by rw [h.index, hm], fun offset outLen out _ => h.read offset outLen out⟩

theorem SameObjects.trans {σ'' : State} (h : SameObjects σ σ') (h' : SameObjects σ' σ'') :
    SameObjects σ σ'' where
  index := h'.index.trans h.index
  ramBytes := h'.ramBytes.trans h.ramBytes
  dir tier d drive := (h'.dir tier d drive).trans (h.dir tier d drive)
  file tier d drive ino hino := by
    rw [h'.file tier d drive ino ((h.dir tier d drive).trans hino), h.file tier d drive ino hino]

/-- Scratch files do not touch the objects. -/
theorem SameObjects.of_grows {seq : Nat} (hgrows : Grows σ.fs fs ⟨d, some seq⟩)
    (hindex : σ'.index = σ.index) (hram : σ'.ramBytes = σ.ramBytes) (hfs : σ'.fs = fs) :
    SameObjects σ σ' where
  index := hindex
  ramBytes := hram
  dir tier k drive := by
    rw [hfs]
    exact hgrows.dir_other (by simp [livePath])
  file tier k drive ino hino := by
    rw [hfs]
    exact hgrows.body_old ino (σ.fs.dir_lt hino)

/-- The resident heads are those of the head policy. -/
theorem Residency.no_heads (h : Residency cfg σ) :
    σ.policy.residents = ∅ ↔ ∀ k m, σ.index.lookup k = some m → m.head = none := by
  rw [Finset.eq_empty_iff_forall_notMem]
  constructor
  · intro hempty k m hm
    have hnot := hempty k
    rw [h.heads, not_not, headsOf, hm] at hnot
    exact hnot
  · intro hnone k hk
    refine (h.heads k).1 hk ?_
    cases hm : σ.index.lookup k with
    | none => simp [headsOf, hm]
    | some m => simp [headsOf, hm, hnone k m hm]

/-- A failed `begin_store` that does not reach the evictions keeps all objects. -/
theorem begin_store_error_same (hres : Residency cfg σ) {size : Nat} {e : Errc}
    (herr : (σ.beginStore cfg d size faults).1 = .error e) (hnot : ¬ ReachesEviction cfg σ size) :
    SameObjects σ (σ.beginStore cfg d size faults).2 := by
  have hgrows := @State.open_files_grows cfg σ.fs faults d (cfg.layout size) true (some σ.storeSeq)
  rcases State.begin_store_error herr with ⟨fs, hopen, heq⟩ | ⟨files, fs, hopen, ⟨-, heq⟩ |
      ⟨stage, writePool, σ₁, hacq, hpos, hssd, hreserve, heq⟩⟩ <;> rw [hopen] at hgrows <;> rw [heq]
  · exact SameObjects.of_grows hgrows rfl rfl rfl
  · have hopened : SameObjects σ { σ with storeSeq := σ.storeSeq + 1, fs := fs } :=
      SameObjects.of_grows hgrows rfl rfl rfl
    obtain ⟨hfile, -, hdir⟩ :=
      @State.unlink_files_spec cfg fs faults d (cfg.layout size) (some σ.storeSeq)
    refine hopened.trans ⟨rfl, rfl, fun tier k drive => hdir _ (by simp [livePath]), ?_⟩
    intro tier k drive ino _
    dsimp only
    rw [hfile]
  · have hopened : SameObjects σ
        { σ with storeSeq := σ.storeSeq + 1, fs := fs, writePool := writePool } :=
      SameObjects.of_grows hgrows rfl rfl rfl
    have hfree : σ.writePool.free ≠ [] := by
      intro hnil
      simp [BlockPool.acquire, hnil] at hacq
    have hempty : σ.policy.residents = ∅ := by
      refine hres.no_heads.2 fun k m hm => ?_
      by_contra hhead
      exact hnot ⟨by omega, State.ram_only_of_ssd hpos hssd, hfree, k, m, hm, hhead⟩
    unfold State.reserveHead at hreserve
    rw [if_pos hpos] at hreserve
    have hsame := hopened.trans (State.reserve_loop_idle hreserve hempty)
    exact { hsame with }

/-- A failed `begin_store` that reaches the evictions leaves no head in RAM. -/
theorem begin_store_error_no_heads (hq : HeadsQueued σ) {size : Nat} {e : Errc}
    (herr : (σ.beginStore cfg d size faults).1 = .error e) (hreach : ReachesEviction cfg σ size) :
    (σ.beginStore cfg d size faults).2.policy.residents = ∅ := by
  obtain ⟨-, hsize, hfree, -⟩ := hreach
  rcases State.begin_store_error herr with ⟨fs, hopen, -⟩ | ⟨files, fs, -, ⟨hacq, -⟩ |
      ⟨stage, writePool, σ₁, -, hpos, -, hreserve, heq⟩⟩
  · -- there is no file to open
    have hbytes : cfg.layout size = ⟨size, min size cfg.tiers.ramHead, 0, 0⟩ := by
      rw [Config.layout, compute_layout_ram_only hsize]
    rw [hbytes] at hopen
    unfold State.openFiles at hopen
    cases hhdd : cfg.hdd with
    | none =>
        rw [hhdd] at hopen
        cases hopen
    | some pool =>
        rw [hhdd] at hopen
        cases hopen
  · rw [BlockPool.acquire, Option.map_eq_none_iff, List.getLast?_eq_none_iff] at hacq
    exact absurd hacq hfree
  · rw [heq]
    unfold State.reserveHead at hreserve
    rw [if_pos hpos] at hreserve
    have hfuel : σ.policy.residents.card < σ.policy.items.keys.length + 1 := by
      rw [S3Fifo.residents, Table.card_key_set]
      exact Nat.lt_succ_self _
    have hempty := State.reserve_loop_none hreserve hq hfuel
    exact hempty

/-- From every reachable state, a `begin_store` that fails keeps every object exactly when it did
not reach the evictions. -/
theorem failed_begin_store_keeps_objects (cfg : Config) (ops : List Op) (d : Digest) (size : Nat)
    (faults : Faults) (e : Errc)
    (herr : ((State.after cfg ops).beginStore cfg d size faults).1 = .error e) :
    KeepsObjects cfg (State.after cfg ops) ((State.after cfg ops).beginStore cfg d size faults).2 ↔
      ¬ ReachesEviction cfg (State.after cfg ops) size := by
  obtain ⟨hres, -⟩ := reachable_bounded cfg ops
  have hq : HeadsQueued (State.after cfg ops) :=
    invariant_run (fun _ op _ h => h.apply op) (S3Fifo.queued_create _)
      (allowed_true (State.apply cfg) (State.init cfg) ops)
  generalize State.after cfg ops = σ at herr hres hq ⊢
  constructor
  · rintro hkeeps hreach
    have hres' : Residency cfg (σ.beginStore cfg d size faults).2 :=
      Residency.apply hres (.beginStore d size faults)
    have hnone := hres'.no_heads.1 (begin_store_error_no_heads hq herr hreach)
    obtain ⟨-, -, -, k, m, hm, hhead⟩ := hreach
    exact hhead (hnone k m (hkeeps k m hm).1)
  · intro hnot
    exact (begin_store_error_same hres herr hnot).keeps

/-- Store an object of 100 bytes, then take both staging buffers. -/
def storeThenOpenTwo : List Op :=
  [.beginStore (Digest.replicate 1) 100 Faults.never, .write 0 ⟨100, fun _ => 7⟩ Faults.never,
    .commit 0 0 0 0 Faults.never, .beginStore (Digest.replicate 2) 5000 Faults.never,
    .beginStore (Digest.replicate 3) 5000 Faults.never]

theorem failed_begin_store_keeps_objects_exhausted :
    ((State.after oneDriveConfig storeThenOpenTwo).beginStore oneDriveConfig (Digest.replicate 4)
        100 Faults.never).1 = .error .wouldBlock ∧
      KeepsObjects oneDriveConfig (State.after oneDriveConfig storeThenOpenTwo)
        ((State.after oneDriveConfig storeThenOpenTwo).beginStore oneDriveConfig
          (Digest.replicate 4) 100 Faults.never).2 := by
  have herr : ((State.after oneDriveConfig storeThenOpenTwo).beginStore oneDriveConfig
      (Digest.replicate 4)
      100 Faults.never).1 = .error .wouldBlock := by rfl
  refine ⟨herr, (failed_begin_store_keeps_objects oneDriveConfig storeThenOpenTwo
    (Digest.replicate 4) 100
    Faults.never .wouldBlock herr).2 ?_⟩
  rintro ⟨-, -, hfree, -⟩
  exact hfree (by decide +kernel)

/-- Store an object of 100 bytes, pin its head and let an open store take the rest of the RAM. -/
def storePinOpen : List Op :=
  [.beginStore (Digest.replicate 1) 100 Faults.never, .write 0 ⟨100, fun _ => 7⟩ Faults.never,
    .commit 0 0 0 0 Faults.never, .pinHead (Digest.replicate 1),
    .beginStore (Digest.replicate 2) 100 Faults.never]

/-- The refused store evicts the pinned head, which frees no RAM and deletes the object. -/
theorem refused_store_deletes_object :
    ((State.after oneDriveConfig storePinOpen).beginStore oneDriveConfig (Digest.replicate 3) 100
        Faults.never).1 = .error .wouldBlock ∧
      ¬ KeepsObjects oneDriveConfig (State.after oneDriveConfig storePinOpen)
        ((State.after oneDriveConfig storePinOpen).beginStore oneDriveConfig (Digest.replicate 3)
          100 Faults.never).2 := by
  refine ⟨by rfl, fun hkeeps => ?_⟩
  have hbefore : ((State.after oneDriveConfig storePinOpen).index.lookup
      (Digest.replicate 1)).isSome =
      true := by decide +kernel
  obtain ⟨m, hm⟩ := Option.isSome_iff_exists.1 hbefore
  have hafter : (((State.after oneDriveConfig storePinOpen).beginStore oneDriveConfig
      (Digest.replicate 3)
      100 Faults.never).2.index.lookup (Digest.replicate 1)) = none := by decide +kernel
  cases hafter.symm.trans (hkeeps _ m hm).1

end GoblinStore
