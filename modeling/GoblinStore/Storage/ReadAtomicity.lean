import GoblinStore.Storage.LossyMap

/-!
# One `read` call among other threads

A `read` call gives the lock back before its disk reads. `readStep` interleaves the steps of other
threads with the completions of those reads, in any order. The files that the call opened under the
lock are sealed, so whatever happens to their names they keep their bodies (`Frozen`), and the reads
bring the bytes of the version that was live at the locked part.
-/

namespace GoblinStore

open GoblinStore.Lib GoblinStore.Core Pool

/-- A `read` call after its locked part: the reads in flight and those of the next tier. -/
structure ReadCall where
  want : Nat
  buf : Nat → UInt8
  pending : List Seg
  later : List Seg
  failed : Bool

namespace ReadCall

/-- When one `striped_read` has all its completions, the next one is submitted. -/
def settle (call : ReadCall) : ReadCall :=
  match call.pending with
  | [] => { call with pending := call.later, later := [] }
  | _ :: _ => call

/-- Read number `i` of those in flight completes, having moved at most `moved` bytes; a read
without a file fails. -/
def complete (fs : FileSystem) (call : ReadCall) (i moved : Nat) : ReadCall :=
  match call.pending[i]? with
  | none => call
  | some seg =>
      match seg.fd with
      | none => { call with failed := true }
      | some _ =>
          let t := seg.transfer fs
          settle { call with
            buf := ({ t with len := min moved t.len } : Transfer UInt8).perform call.buf
            pending := call.pending.eraseIdx i }

/-- The call has returned its bytes. -/
def Succeeded (call : ReadCall) : Prop :=
  call.failed = false ∧ call.pending = [] ∧ call.later = []

instance (call : ReadCall) : Decidable call.Succeeded := inferInstanceAs (Decidable (_ ∧ _ ∧ _))

end ReadCall

/-- The call when it gives the lock back. -/
def ReadTask.start (task : ReadTask) : ReadCall :=
  ReadCall.settle ⟨task.want, task.out, task.ssd, task.hdd, false⟩

/-- What happens while a `read` call is under way: a step of another thread, a completion, or a
submission or a read that fails. -/
inductive ReadEvent where
  | step (op : Op)
  | complete (i moved : Nat)
  | fail

/-- One event. -/
def readStep (cfg : Config) : State × ReadCall → ReadEvent → State × ReadCall
  | (σ, call), .step op => (σ.apply cfg op, call)
  | (σ, call), .complete i moved => (σ, call.complete σ.fs i moved)
  | (σ, call), .fail => (σ, { call with failed := true })

/-- The step of another thread in an event. -/
def ReadEvent.op : ReadEvent → Option Op
  | .step op => some op
  | _ => none

theorem read_step_state (cfg : Config) (s : State × ReadCall) (event : ReadEvent) :
    (readStep cfg s event).1 = (event.op.map (State.apply cfg s.1)).getD s.1 := by
  cases event <;> rfl

theorem ReadCall.settle_want (call : ReadCall) : call.settle.want = call.want := by
  unfold ReadCall.settle
  split <;> rfl

theorem ReadTask.start_want (task : ReadTask) : task.start.want = task.want :=
  ReadCall.settle_want _

/-- The number of bytes that the call will return does not change. -/
theorem read_step_want (cfg : Config) (s : State × ReadCall) (event : ReadEvent) :
    (readStep cfg s event).2.want = s.2.want := by
  obtain ⟨σ, call⟩ := s
  cases event with
  | step op => rfl
  | fail => rfl
  | complete i moved =>
      simp only [readStep, ReadCall.complete]
      split
      · rfl
      · split
        · rfl
        · exact ReadCall.settle_want _

theorem read_run_want (cfg : Config) (s : State × ReadCall) (events : List ReadEvent) :
    (run (readStep cfg) s events).2.want = s.2.want :=
  invariant_run (I := fun s' : State × ReadCall => s'.2.want = s.2.want)
    (fun s' event _ h => (read_step_want cfg s' event).trans h) rfl
    (allowed_true (readStep cfg) s events)

/-- A read that completes has moved its bytes up to the end of the file. -/
def FullRead : State × ReadCall → ReadEvent → Prop
  | (_, call), .complete i moved => ∀ seg ∈ call.pending[i]?, seg.len ≤ moved
  | _, _ => True

instance (s : State × ReadCall) (event : ReadEvent) : Decidable (FullRead s event) :=
  match s, event with
  | (_, call), .complete i moved =>
      inferInstanceAs (Decidable (∀ seg ∈ call.pending[i]?, seg.len ≤ moved))
  | (_, _), .step _ => instDecidableTrue
  | (_, _), .fail => instDecidableTrue

/-! ## Sealed files -/

/-- The reads go to sealed files. -/
def Frozen (fs : FileSystem) (segs : List Seg) : Prop :=
  ∀ seg ∈ segs, ∀ ino, seg.fd = some ino → fs.Sealed ino

theorem Seg.transfer_keeps {fs fs' : FileSystem} (hkeeps : fs.Keeps fs') {seg : Seg}
    (hsealed : ∀ ino, seg.fd = some ino → fs.Sealed ino) : seg.transfer fs' = seg.transfer fs := by
  unfold Seg.transfer
  cases hfd : seg.fd with
  | none => rfl
  | some ino => simp only [hkeeps.body_eq ino (hsealed ino hfd)]

/-- Taking one read off the list. -/
theorem map_erase_perm (fs : FileSystem) {segs : List Seg} {i : Nat} {seg : Seg}
    (hseg : segs[i]? = some seg) : (segs.map (Seg.transfer fs)).Perm
      (seg.transfer fs :: (segs.eraseIdx i).map (Seg.transfer fs)) := by
  obtain ⟨hi, rfl⟩ := List.getElem?_eq_some_iff.1 hseg
  exact ((List.getElem_cons_eraseIdx_perm hi).map (Seg.transfer fs)).symm

/-- The segments of a tier read through its descriptors. -/
theorem drive_segs_from {Q : Nat → Prop} {pool : DrivePool} {fds : ObjectFiles}
    (hfds : ∀ drive ino, fds drive = some ino → Q ino) {bucket tierOff len outBase : Nat} :
    ∀ seg ∈ addDriveSegs pool bucket fds tierOff len outBase, ∀ ino, seg.fd = some ino → Q ino := by
  intro seg hseg ino hino
  obtain ⟨x, n, -, -, -, rfl⟩ := mem_add_drive_segs hseg
  exact hfds _ ino hino

theorem live_files_entry {fs : FileSystem} {tier : Tier} {d : Digest} {drives : List Nat}
    {drive ino : Nat} (h : liveFiles fs tier d drives drive = some ino) :
    fs.dir (livePath tier d drive) = some ino := by
  unfold liveFiles at h
  split_ifs at h
  exact h

variable {cfg : Config} {σ : State} {d : Digest} {faults : Faults} {layout : ObjectLayout}
  {offset want ramEnd outLen : Nat}

/-- The disk reads of a call go to files under live names. -/
theorem State.ssd_reads_live {Q : Nat → Prop}
    (hlive : ∀ drive ino, σ.fs.dir (livePath .ssd d drive) = some ino → Q ino) {ssd : List Seg}
    (h : ssdReads cfg σ d layout offset want ramEnd outLen faults = some ssd) :
    ∀ seg ∈ ssd, ∀ ino, seg.fd = some ino → Q ino := by
  unfold ssdReads at h
  dsimp only at h
  split_ifs at h
  · split at h
    · cases h
    · rename_i fds hopen
      cases h
      rw [open_live hopen]
      exact drive_segs_from fun drive ino hino => hlive drive ino (live_files_entry hino)
  · cases h
    exact fun seg hseg => absurd hseg List.not_mem_nil

theorem State.hdd_reads_live {Q : Nat → Prop}
    (hlive : ∀ drive ino, σ.fs.dir (livePath .hdd d drive) = some ino → Q ino) {hdd : List Seg}
    (h : hddReads cfg σ d layout offset want outLen faults = some hdd) :
    ∀ seg ∈ hdd, ∀ ino, seg.fd = some ino → Q ino := by
  unfold hddReads at h
  split at h
  · cases h
    exact fun seg hseg => absurd hseg List.not_mem_nil
  · split_ifs at h
    · split at h
      · cases h
      · rename_i fds hopen
        cases h
        rw [open_live hopen]
        exact drive_segs_from fun drive ino hino => hlive drive ino (live_files_entry hino)
    · cases h
      exact fun seg hseg => absurd hseg List.not_mem_nil

theorem State.ssd_reads_frozen {ssd : List Seg}
    (h : ssdReads cfg σ d layout offset want ramEnd outLen faults = some ssd) : Frozen σ.fs ssd :=
  ssd_reads_live (fun _ _ => FileSystem.sealed_of_live) h

theorem State.hdd_reads_frozen {hdd : List Seg}
    (h : hddReads cfg σ d layout offset want outLen faults = some hdd) : Frozen σ.fs hdd :=
  hdd_reads_live (fun _ _ => FileSystem.sealed_of_live) h

/-! ## The invariant of a call -/

/-- The reads in flight bring the bytes of the fast part, and then those of the next tier the rest;
or the next tier is being read. -/
structure Gathering (fs : FileSystem) (content : Nat → UInt8) (fast : Nat → Prop)
    (call : ReadCall) :
    Prop where
  frozen : Frozen fs (call.pending ++ call.later)
  phase : (Awaiting content fast call.buf (call.pending.map (Seg.transfer fs)) ∧
      ∀ buf : Nat → UInt8, (∀ p, fast p → buf p = content p) →
        Awaiting content (fun p => p < call.want) buf (call.later.map (Seg.transfer fs))) ∨
    call.later = [] ∧
      Awaiting content (fun p => p < call.want) call.buf (call.pending.map (Seg.transfer fs))

namespace Gathering

variable {fs fs' : FileSystem} {content : Nat → UInt8} {fast : Nat → Prop} {call : ReadCall}

theorem settle (h : Gathering fs content fast call) : Gathering fs content fast call.settle := by
  unfold ReadCall.settle
  split
  · rename_i hnil
    refine ⟨?_, Or.inr ⟨rfl, ?_⟩⟩
    · have hfrozen := h.frozen
      rw [hnil, List.nil_append] at hfrozen
      show Frozen fs (call.later ++ [])
      rwa [List.append_nil]
    · rcases h.phase with ⟨hfast, hlater⟩ | ⟨hlater, hall⟩
      · rw [hnil] at hfast
        exact hlater call.buf fun p hp => hfast.done hp
      · rw [hnil] at hall
        show Awaiting content (fun p => p < call.want) call.buf (call.later.map (Seg.transfer fs))
        rwa [hlater]
  · exact h

/-- A full completion, in a state where the sealed files are as they were. -/
theorem complete (h : Gathering fs content fast call) (hkeeps : fs.Keeps fs') {i moved : Nat}
    (hfull : ∀ seg ∈ call.pending[i]?, seg.len ≤ moved) :
    Gathering fs content fast (call.complete fs' i moved) := by
  unfold ReadCall.complete
  split
  · exact h
  · rename_i seg hseg
    split
    · exact ⟨h.frozen, h.phase⟩
    · refine settle ?_
      have hmem : seg ∈ call.pending := List.mem_of_getElem? hseg
      have htransfer : seg.transfer fs' = seg.transfer fs :=
        Seg.transfer_keeps hkeeps (h.frozen seg (List.mem_append_left _ hmem))
      have hlen : min moved (seg.transfer fs).len = (seg.transfer fs).len :=
        Nat.min_eq_right ((Seg.transfer_len_le fs seg).trans (hfull seg hseg))
      rw [htransfer, hlen]
      have hperm := map_erase_perm fs hseg
      refine ⟨fun s hs => h.frozen s ?_, ?_⟩
      · rcases List.mem_append.1 hs with hpending | hlater
        · exact List.mem_append_left _ (List.mem_of_mem_eraseIdx hpending)
        · exact List.mem_append_right _ hlater
      · rcases h.phase with ⟨hfast, hlater⟩ | ⟨hlater, hall⟩
        · exact Or.inl ⟨hfast.perform hperm, hlater⟩
        · exact Or.inr ⟨hlater, hall.perform hperm⟩

/-- A call that has returned has all its bytes. -/
theorem bytes (h : Gathering fs content fast call) (hdone : call.Succeeded) {p : Nat}
    (hp : p < call.want) : call.buf p = content p := by
  obtain ⟨-, hpending, hlater⟩ := hdone
  rcases h.phase with ⟨hfast, hrest⟩ | ⟨-, hall⟩
  · rw [hpending] at hfast
    have hall := hrest call.buf fun p hp => hfast.done hp
    rw [hlater] at hall
    exact hall.done hp
  · rw [hpending] at hall
    exact hall.done hp

end Gathering

/-- The call when it gives the lock back. -/
theorem Readable.gathering {m : ObjectMeta} {v : Version} (h : Readable cfg σ d m v)
    (hoff : offset < m.size) {out : Nat → UInt8} {task : ReadTask}
    (hok : State.readSnapshot cfg σ d offset outLen out faults = .ok task) :
    task.want = min outLen (m.size - offset) ∧
      Gathering σ.fs (fun p => padded v.body m.size (offset + p))
        (State.FastPart (cfg.layout m.size) offset task.want) task.start := by
  obtain ⟨hwant, hout, hssd, hhdd⟩ := State.read_snapshot_ok h hoff hok
  refine ⟨hwant, Gathering.settle ⟨fun seg hseg => ?_, Or.inl ⟨?_, fun buf hbuf => ?_⟩⟩⟩
  · rcases List.mem_append.1 hseg with hmem | hmem
    · exact State.ssd_reads_frozen hssd seg hmem
    · exact State.hdd_reads_frozen hhdd seg hmem
  · dsimp only
    rw [hout]
    rw [hwant] at hssd ⊢
    exact State.ssd_reads_awaiting h hoff hssd
  · dsimp only
    rw [hwant] at hhdd hbuf ⊢
    exact State.hdd_reads_awaiting h hoff hhdd hbuf

/-- A call that was locked when the files were `fs`, some events later. -/
structure Underway (fs : FileSystem) (content : Nat → UInt8) (fast : Nat → Prop)
    (s : State × ReadCall) :
    Prop where
  scratch : ScratchInv s.1
  keeps : fs.Keeps s.1.fs
  gathering : Gathering fs content fast s.2

theorem Underway.step {fs : FileSystem} {content : Nat → UInt8} {fast : Nat → Prop}
    {s : State × ReadCall} (h : Underway fs content fast s) {event : ReadEvent}
    (hfull : FullRead s event) :
    Underway fs content fast (readStep cfg s event) := by
  obtain ⟨σ, call⟩ := s
  obtain ⟨hscratch, hkeeps, hgather⟩ := h
  cases event with
  | step op =>
      exact ⟨hscratch.apply op,
        hkeeps.trans (Kept.apply hscratch.scratch hscratch.fresh op).keeps, hgather⟩
  | complete i moved => exact ⟨hscratch, hkeeps, hgather.complete hkeeps hfull⟩
  | fail => exact ⟨hscratch, hkeeps, hgather.frozen, hgather.phase⟩

/-- The state and the call after some events. -/
theorem gathering_run (hscratch : ScratchInv σ) {content : Nat → UInt8}
    {fast : Nat → Prop} {call : ReadCall} (h : Gathering σ.fs content fast call)
    {events : List ReadEvent} (hfull : Allowed (readStep cfg) FullRead (σ, call) events) :
    Gathering σ.fs content fast (run (readStep cfg) (σ, call) events).2 := by
  have hstart : Underway σ.fs content fast (σ, call) := ⟨hscratch, FileSystem.Keeps.refl _, h⟩
  have hend := invariant_run (I := Underway σ.fs content fast)
    (fun s event hok hinv => @Underway.step cfg _ _ _ s hinv event hok) hstart hfull
  exact hend.gathering

/-- In every sound run of a store with blocks of at most 4 GiB: whatever other threads do while a
`read` call is under way and in whatever order its disk reads complete, if none of them is cut short
and the call succeeds, its bytes are those of the version that was live at its locked part. -/
theorem read_call_atomic (cfg : Config) (hblock : cfg.blockBytes ≤ wrap32) (before : List Op)
    (hsound : Allowed (State.apply cfg) (Sound cfg) (State.init cfg) before) (d : Digest)
    (offset outLen : Nat) (out : Nat → UInt8) (faults : Faults) (task : ReadTask)
    (hok : State.readSnapshot cfg (State.after cfg before) d offset outLen out faults = .ok task)
    (events : List ReadEvent)
    (hfull : Allowed (readStep cfg) FullRead (State.after cfg before, task.start) events)
    (hdone : (run (readStep cfg) (State.after cfg before, task.start) events).2.Succeeded) :
    ∃ v, liveVersion (State.after cfg before).history d = some v ∧
      (run (readStep cfg) (State.after cfg before, task.start) events).2.want =
        min outLen (v.size - offset) ∧
      ∀ p < min outLen (v.size - offset),
        (run (readStep cfg) (State.after cfg before, task.start) events).2.buf p =
          v.body (offset + p) := by
  cases hm : (State.after cfg before).index.lookup d with
  | none =>
      simp only [State.readSnapshot, hm] at hok
      cases hok
  | some m =>
      obtain ⟨v, hv, -, hreadable⟩ := readable_after hblock hsound hm
      refine ⟨v, hv, ?_⟩
      rw [hreadable.size_eq]
      rcases Nat.lt_or_ge offset m.size with hoff | hend
      · obtain ⟨hwant, hgather⟩ := hreadable.gathering hoff hok
        have hafter := gathering_run (reachable_scratch_inv cfg before) hgather hfull
        have hwant' := read_run_want cfg (State.after cfg before, task.start) events
        rw [ReadTask.start_want, hwant] at hwant'
        refine ⟨hwant', fun p hp => ?_⟩
        rw [hafter.bytes hdone (hwant'.symm ▸ hp), padded, if_pos (by omega)]
      · -- nothing to read beyond the end
        have htask : task.want = 0 := by
          simp only [State.readSnapshot, hm, if_pos hend, Except.ok.injEq] at hok
          rw [← hok]
        have hwant' := read_run_want cfg (State.after cfg before, task.start) events
        rw [ReadTask.start_want, htask] at hwant'
        refine ⟨by omega, fun p hp => ?_⟩
        omega

/-- The locked part of a read of the whole object of `storeTenThousand`. -/
def readWhole : ReadTask :=
  (State.readSnapshot oneDriveConfig (State.after oneDriveConfig storeTenThousand)
    (Digest.replicate 1)
    0 12288 (fun _ => 0) Faults.never).toOption.getD ⟨0, fun _ => 0, [], []⟩

/-- The second disk read completes, the object is removed, the first disk read completes. -/
def removeMeanwhile : List ReadEvent :=
  [.complete 1 4096, .step (.remove (Digest.replicate 1) Faults.never), .complete 0 4096]

theorem read_snapshot_get {r : Except Errc ReadTask} (h : r.toOption.isSome = true) (e : ReadTask) :
    r = .ok (r.toOption.getD e) := by
  cases r with
  | error _ => cases h
  | ok task => rfl

theorem read_call_atomic_removed :
    (run (readStep oneDriveConfig) (State.after oneDriveConfig storeTenThousand, readWhole.start)
        removeMeanwhile).2.Succeeded ∧
      ∃ v, liveVersion (State.after oneDriveConfig storeTenThousand).history
          (Digest.replicate 1) = some v ∧
        (run (readStep oneDriveConfig)
          (State.after oneDriveConfig storeTenThousand, readWhole.start)
          removeMeanwhile).2.want = min 12288 (v.size - 0) ∧
        ∀ p < min 12288 (v.size - 0),
          (run (readStep oneDriveConfig)
            (State.after oneDriveConfig storeTenThousand, readWhole.start)
            removeMeanwhile).2.buf p = v.body (0 + p) := by
  have hdone : (run (readStep oneDriveConfig) (State.after oneDriveConfig storeTenThousand,
      readWhole.start) removeMeanwhile).2.Succeeded := by decide +kernel
  refine ⟨hdone, read_call_atomic oneDriveConfig (by decide) storeTenThousand
    (regular_sound oneDriveConfig store_ten_thousand_regular) (Digest.replicate 1) 0 12288
    (fun _ => 0)
    Faults.never readWhole (read_snapshot_get (by decide +kernel) _) removeMeanwhile
    ⟨?_, trivial, ?_, trivial⟩ hdone⟩
  · decide +kernel
  · decide +kernel

/-- The locked part of a read of one byte of the first object of `fillLowerHalf`. -/
def readFirst : ReadTask :=
  (State.readSnapshot wideBlockConfig (State.after wideBlockConfig (fillLowerHalf ++ storeFifth))
    (Digest.replicate 1) 0 1 (fun _ => 0) Faults.never).toOption.getD ⟨0, fun _ => 0, [], []⟩

/-- A read that nothing interrupts copies the fifth object's byte from the first object's head. -/
theorem wide_block_call_wrong :
    Allowed (State.apply wideBlockConfig) (Sound wideBlockConfig) (State.init wideBlockConfig)
        (fillLowerHalf ++ storeFifth) ∧
      State.readSnapshot wideBlockConfig (State.after wideBlockConfig (fillLowerHalf ++ storeFifth))
        (Digest.replicate 1) 0 1 (fun _ => 0) Faults.never = .ok readFirst ∧
      readFirst.start.Succeeded ∧ readFirst.start.want = 1 ∧
      ∃ v, liveVersion (State.after wideBlockConfig (fillLowerHalf ++ storeFifth)).history
          (Digest.replicate 1) = some v ∧ 1 ≤ v.size ∧ readFirst.start.buf 0 ≠ v.body 0 := by
  refine ⟨regular_sound wideBlockConfig store_fifth_regular,
    read_snapshot_get (by decide +kernel) _, by decide +kernel, by decide +kernel, ?_⟩
  have hbyte : readFirst.start.buf 0 = 2 := by decide +kernel
  obtain ⟨v, hv, hbody⟩ := Option.map_eq_some_iff.1 store_fifth_body
  rw [Prod.mk.injEq] at hbody
  refine ⟨v, hv, by rw [hbody.1]; decide, ?_⟩
  rw [hbyte, hbody.2]
  decide

end GoblinStore
