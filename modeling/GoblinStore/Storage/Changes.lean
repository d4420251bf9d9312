import GoblinStore.Storage.Steps
import Mathlib.Logic.Relation

/-!
# The changes that steps are made of

`Change` lists what an operation can do at a time to the index, the files, the open stores and the
eviction policies: forget an object, open a store, put a handle back, install a version. Every step
is a sequence of changes (`State.apply_changes`), so an invariant that each change keeps is kept by
every step (`Change.invariant`).
-/

namespace GoblinStore

open GoblinStore.Lib GoblinStore.Core

/-- The digest an event is about. -/
def Event.digest : Event → Digest
  | .put d _ => d
  | .removed d => d
  | .reaped d => d
  | .evicted d => d

/-- The version an event leaves behind. -/
def Event.version : Event → Option Version
  | .put _ v => some v
  | .removed _ => none
  | .reaped _ => none
  | .evicted _ => none

/-- The faults of a step. -/
def Op.faults : Op → Faults
  | .beginStore _ _ faults | .write _ _ faults | .commit _ _ _ _ faults | .abort _ faults
  | .remove _ faults | .reapNext _ faults | .openSnapshot _ faults => faults
  | _ => Faults.never

/-- A head of the length the layout asks for; a nonempty RAM-only object cannot do without. -/
structure HeadFits (cfg : Config) (size : Nat) (head : Option Region) : Prop where
  len_eq : ∀ r, head = some r → r.len = min size cfg.tiers.ramHead
  resident : 0 < size → size ≤ cfg.tiers.ramHead → head ≠ none

/-- The head length fits 32 bits. -/
theorem head_len_mod (cfg : Config) (size : Nat) :
    min size cfg.tiers.ramHead % wrap32 = min size cfg.tiers.ramHead :=
  Nat.mod_eq_of_lt (lt_of_le_of_lt (Nat.min_le_right _ _) cfg.ram_head_lt)

/-- Giving back the buffer just taken restores the pool. -/
theorem release_acquire {writePool rest : BlockPool} {stage : Nat}
    (hacq : writePool.acquire = some (stage, rest)) : rest.release stage = writePool := by
  obtain ⟨last, hlast, heq⟩ := Option.map_eq_some_iff.1 hacq
  obtain ⟨rfl, rfl⟩ := Prod.mk.inj heq
  simp only [BlockPool.release, List.dropLast_append_getLast? _ hlast]

namespace State

/-- Free the head of an object, if it has one. -/
def freeHead (σ : State) : Option Region → State
  | some r => σ.freeHeadRegion r
  | none => σ

/-- Return the head of a store, if it has one. -/
def giveBack (σ : State) : Option Region → State
  | some r => σ.deallocate r
  | none => σ

/-- The head that a new store reserves: none, which a RAM-only object cannot do with, or one just
allocated. -/
def Reserves (cfg : Config) (σ : State) (size : Nat) (head : Option Region) (ram : BufferPool)
    (log : List RamEvent) : Prop :=
  head = none ∧ ram = σ.ram ∧ log = σ.ramLog ∧
      ¬ (0 < min size cfg.tiers.ramHead ∧ (cfg.layout size).ssdBytes = 0) ∨
    ∃ r, head = some r ∧ σ.ram.allocate (min size cfg.tiers.ramHead % wrap32) = some (r, ram) ∧
      log = .alloc r :: σ.ramLog

/-- What a write has worked on when it ends. An object without a disk extent is not staged. -/
def Writes (cfg : Config) (σ : State) (h : StoreHandle) (chunk : ByteView) (faults : Faults)
    (ok : Bool) (w : Staging) : Prop :=
  (h.layout.ssdBytes = 0 ∧ h.layout.hddBytes = 0) ∧ ok = true ∧
    w = ⟨h, σ.stageBytes h.stage, σ.fs⟩ ∨
    ¬ (h.layout.ssdBytes = 0 ∧ h.layout.hddBytes = 0) ∧
      stageLoop cfg faults chunk.data (chunk.size + 2) 0 chunk.size
      ⟨h, σ.stageBytes h.stage, σ.fs⟩ = (ok, w)

end State

open State

/-- Handle `h` of number `id` is put back after a write, or after the flush of a commit. -/
inductive Put (cfg : Config) (σ : State) (id : Nat) (h : StoreHandle) : Op → State → Prop where
  | wrote {chunk : ByteView} {faults : Faults} {w : Staging}
      (hend : h.off + chunk.size ≤ h.layout.size)
      (hw : Writes cfg σ h chunk faults true w) :
      Put cfg σ id h (.write id chunk faults)
        ((σ.fillHead h chunk).putStaging id { w with handle := advance w.handle chunk })
  | unwritten {chunk : ByteView} {faults : Faults} {w : Staging}
      (hend : h.off + chunk.size ≤ h.layout.size)
      (hw : Writes cfg σ h chunk faults false w) :
      Put cfg σ id h (.write id chunk faults) ((σ.fillHead h chunk).putStaging id w.spoil)
  | flushed {flags expiry cas : Nat} {faults : Faults} {w : Staging} (hoff : h.off = h.layout.size)
      (hflush : flushTail cfg faults ⟨h, σ.stageBytes h.stage, σ.fs⟩ = (true, w)) :
      Put cfg σ id h (.commit id flags expiry cas faults) (σ.putStaging id w)
  | unflushed {flags expiry cas : Nat} {faults : Faults} {w : Staging}
      (hoff : h.off = h.layout.size)
      (hflush : flushTail cfg faults ⟨h, σ.stageBytes h.stage, σ.fs⟩ = (false, w)) :
      Put cfg σ id h (.commit id flags expiry cas faults) (σ.putStaging id w.spoil)

/-- One change of a step. -/
inductive Change (cfg : Config) (σ : State) : Op → State → Prop where
  /-- a reader's step, the clock or the scan -/
  | quiet {op : Op} (hop : op.Quiet) : Change cfg σ op (σ.apply cfg op)
  /-- a policy gives no victim, or one that has nothing to give -/
  | settle {op : Op} {policy objectPolicy : S3Fifo} (reaping : List Digest)
      (hpolicy : policy = σ.policy ∨ ∃ victim, σ.policy.evict = (victim, policy) ∧
        ∀ d ∈ victim, ∀ m, σ.index.lookup d = some m → m.head = none)
      (hobject : objectPolicy = σ.objectPolicy ∨
      ∃ victim, σ.objectPolicy.evict = (victim, objectPolicy) ∧
        ∀ d ∈ victim, σ.index.lookup d = none) :
      Change cfg σ op { σ with policy := policy, objectPolicy := objectPolicy, reaping := reaping }
  /-- the head of a disk-backed object is evicted -/
  | unhead {d victim : Digest} {size : Nat} {faults : Faults} {policy : S3Fifo}
      {m : ObjectMeta} {r : Region}
      (hevict : σ.policy.evict = (some victim, policy)) (hm : σ.index.lookup victim = some m)
      (hr : m.head = some r) (hsize : cfg.tiers.ramHead < m.size) :
      Change cfg σ (.beginStore d size faults) { σ.freeHeadRegion r with
        policy := policy
        index := σ.index.insert victim { m with head := none } }
  /-- an object goes, with its head and its files -/
  | forget {op : Op} {d : Digest} {m : ObjectMeta} {event : Event} {policy objectPolicy : S3Fifo}
      (hm : σ.index.lookup d = some m) (hd : event.digest = d) (hv : event.version = none)
      (hpolicy : policy = (if m.head.isSome then σ.policy.remove d else σ.policy) ∨
        m.head.isSome ∧ m.size ≤ cfg.tiers.ramHead ∧ σ.policy.evict = (some d, policy))
      (hobject : objectPolicy = σ.objectPolicy.remove d ∨ ∃ evicted,
        σ.objectPolicy.evict = (some d, evicted) ∧ objectPolicy = evicted.remove d) :
      Change cfg σ op { σ.freeHead m.head with
        policy := policy
        objectPolicy := objectPolicy
        fs := unlinkFiles cfg σ.fs op.faults d (cfg.layout m.size) none
        index := σ.index.erase d
        history := event :: σ.history }
  /-- the expiry of an object is overwritten -/
  | retime {d : Digest} {m : ObjectMeta} {expiry : Nat} (hm : σ.index.lookup d = some m) :
      Change cfg σ (.touchTtl d expiry) { σ with
        index := σ.index.insert d { m with expiry := expiry }
        anyTtl := σ.anyTtl || decide (expiry ≠ 0) }
  /-- a store fails after it has opened its files, or while it opens them -/
  | opened {d : Digest} {size : Nat} {faults : Faults}
      {ans : Option (ObjectFiles × Option ObjectFiles)}
      {fs : FileSystem}
      (hopen : openFiles cfg σ.fs faults d (cfg.layout size) true (some σ.storeSeq) = (ans, fs))
      (hans : ans = none ∨ size ≤ cfg.tiers.ramHead) :
      Change cfg σ (.beginStore d size faults) { σ with storeSeq := σ.storeSeq + 1, fs := fs }
  /-- a store finds no staging buffer and unlinks its files -/
  | refused {d : Digest} {size : Nat} {faults : Faults} {files : ObjectFiles × Option ObjectFiles}
      {fs : FileSystem}
      (hopen : openFiles cfg σ.fs faults d (cfg.layout size) true (some σ.storeSeq) =
      (some files, fs)) :
      Change cfg σ (.beginStore d size faults) { σ with
        storeSeq := σ.storeSeq + 1
        fs := unlinkFiles cfg fs faults d (cfg.layout size) (some σ.storeSeq) }
  /-- a store is open -/
  | started {d : Digest} {size : Nat} {faults : Faults} {ssd : ObjectFiles}
      {hdd : Option ObjectFiles}
      {fs : FileSystem} {stage : Nat} {writePool : BlockPool} {head : Option Region}
      {ram : BufferPool} {log : List RamEvent}
      (hopen : openFiles cfg σ.fs faults d (cfg.layout size) true (some σ.storeSeq) =
      (some (ssd, hdd), fs))
      (hacq : σ.writePool.acquire = some (stage, writePool))
      (hhead : Reserves cfg σ size head ram log) :
      Change cfg σ (.beginStore d size faults) { σ with
        storeSeq := σ.storeSeq + 1
        fs := fs
        writePool := writePool
        ram := ram
        ramLog := log
        handles := σ.handles.insert σ.storeSeq
          ⟨d, cfg.layout size, ssd, hdd, head, stage, 0, 0, 0, ByteView.empty, false⟩ }
  | put {op : Op} {id : Nat} {h : StoreHandle} {σ' : State} (hh : σ.handles.lookup id = some h)
      (hput : Put cfg σ id h op σ') : Change cfg σ op σ'
  /-- a rename of a commit fails -/
  | unpublished {id flags expiry cas : Nat} {faults : Faults} {h : StoreHandle} {fs : FileSystem}
      (hh : σ.handles.lookup id = some h) (hoff : h.off = h.layout.size) (hfill : h.stageFill = 0)
      (hpublish : publishFiles cfg σ.fs faults h.digest h.layout id = (false, fs)) :
      Change cfg σ (.commit id flags expiry cas faults) { σ with
        fs := fs
        handles := σ.handles.insert id { h with failed := true } }
  /-- a commit indexes its version and closes its store -/
  | installed {id flags expiry cas : Nat} {faults : Faults} {h : StoreHandle} {fs : FileSystem}
      (hh : σ.handles.lookup id = some h) (hoff : h.off = h.layout.size) (hfill : h.stageFill = 0)
      (hcas : casMismatch (σ.index.lookup h.digest) σ.now cas = false)
      (hpublish : publishFiles cfg σ.fs faults h.digest h.layout id = (true, fs)) :
      Change cfg σ (.commit id flags expiry cas faults)
        (install (retireHead { σ with fs := fs } h.digest (σ.index.lookup h.digest))
        id h flags expiry
          (σ.index.lookup h.digest).isNone)
  /-- an uncommitted store is closed -/
  | closed {id : Nat} {faults : Faults} {h : StoreHandle} (hh : σ.handles.lookup id = some h) :
      Change cfg σ (.abort id faults) { σ.giveBack h.head with
        writePool := σ.writePool.release h.stage
        fs := unlinkFiles cfg σ.fs faults h.digest h.layout (some id)
        handles := σ.handles.erase id }

/-- A sequence of changes of one step. -/
def Changes (cfg : Config) (op : Op) : State → State → Prop :=
  Relation.ReflTransGen fun σ σ' => Change cfg σ op σ'

variable {cfg : Config} {σ σ' : State} {op : Op} {faults : Faults} {d : Digest} {id : Nat}
  {h : StoreHandle}

/-! ## Frames -/

namespace State

theorem free_head_eq (σ : State) (head : Option Region) :
    σ.freeHead head = { σ with
      ram := (σ.freeHead head).ram, ramLog := (σ.freeHead head).ramLog,
      pins := (σ.freeHead head).pins } := by
  cases head with
  | none => rfl
  | some r => exact free_head_region_eq σ r

theorem give_back_eq (σ : State) (head : Option Region) :
    σ.giveBack head = { σ with
      ram := (σ.giveBack head).ram, ramLog := (σ.giveBack head).ramLog } := by
  cases head <;> rfl

theorem Reserves.fits {size : Nat} {head : Option Region} {ram : BufferPool} {log : List RamEvent}
    (h : Reserves cfg σ size head ram log) : HeadFits cfg size head := by
  rcases h with ⟨rfl, -, -, hnot⟩ | ⟨r, rfl, halloc, -⟩
  · refine ⟨nofun, fun hpos hle => absurd ⟨by omega, ?_⟩ hnot⟩
    rw [Config.layout, compute_layout_ram_only hle]
  · refine ⟨fun q hq => ?_, fun _ _ => Option.some_ne_none r⟩
    cases hq
    rw [BufferPool.allocate_len halloc, head_len_mod]

/-- Flushes only write to open files. -/
theorem flush_block_dir (w : Staging) (n : Nat) :
    (flushBlock cfg faults w n).2.fs.dir = w.fs.dir ∧
      (flushBlock cfg faults w n).2.fs.next = w.fs.next := by
  have hssd : (flushSsd cfg faults w n).2.dir = w.fs.dir ∧
      (flushSsd cfg faults w n).2.next = w.fs.next := by
    unfold flushSsd
    dsimp only
    split_ifs
    · exact ⟨(pwrite_loop_frame _ _).1, (pwrite_loop_frame _ _).2.1⟩
    · exact ⟨rfl, rfl⟩
  have hhdd : ∀ fs', (flushHdd cfg faults { w with fs := fs' } n).2.dir = fs'.dir ∧
      (flushHdd cfg faults { w with fs := fs' } n).2.next = fs'.next := by
    intro fs'
    unfold flushHdd
    dsimp only
    split
    · split_ifs
      · exact ⟨(pwrite_loop_frame _ _).1, (pwrite_loop_frame _ _).2.1⟩
      · exact ⟨rfl, rfl⟩
    · exact ⟨rfl, rfl⟩
  unfold flushBlock
  split
  · rename_i fs₁ heq
    rwa [heq] at hssd
  · rename_i fs₁ heq
    rw [heq] at hssd
    have hboth := And.intro ((hhdd fs₁).1.trans hssd.1) ((hhdd fs₁).2.trans hssd.2)
    split <;> rename_i heq' <;> rw [heq'] at hboth <;> exact hboth

theorem flush_tail_dir (w : Staging) :
    (flushTail cfg faults w).2.fs.dir = w.fs.dir ∧
      (flushTail cfg faults w).2.fs.next = w.fs.next := by
  unfold flushTail
  split_ifs
  · exact flush_block_dir (w.zeroTail _) _
  · exact ⟨rfl, rfl⟩

theorem stage_loop_dir (chunk : Nat → UInt8) (fuel pos remaining : Nat) (w : Staging) :
    (stageLoop cfg faults chunk fuel pos remaining w).2.fs.dir = w.fs.dir ∧
      (stageLoop cfg faults chunk fuel pos remaining w).2.fs.next = w.fs.next :=
  stage_loop_rule (P := fun w' => w'.fs.dir = w.fs.dir ∧ w'.fs.next = w.fs.next) (fun _ _ _ h => h)
    (fun w' h => ⟨(flush_block_dir w' _).1.trans h.1, (flush_block_dir w' _).2.trans h.2⟩)
    fuel pos remaining ⟨rfl, rfl⟩

variable {w w' : Staging}

/-- After a successful flush nothing is staged. -/
theorem flush_tail_fill (h : flushTail cfg faults w = (true, w')) :
    w'.handle.stageFill = 0 := by
  unfold flushTail at h
  split_ifs at h with hfill
  · unfold flushBlock at h
    dsimp only at h
    split at h
    · cases h
    · split at h
      · cases h
      · cases h
        rfl
  · cases h
    omega

/-- What staging keeps: all of the handle but the fill and flush counters, and all names. -/
structure KeepsNames (w w' : Staging) : Prop where
  same : SameHandle w.handle w'.handle
  failed : w'.handle.failed = w.handle.failed
  dir : w'.fs.dir = w.fs.dir
  next : w'.fs.next = w.fs.next

variable {ok : Bool}

theorem flush_tail_keeps (hflush : flushTail cfg faults w = (ok, w')) :
    KeepsNames w w' := by
  have hsame := flush_tail_same cfg faults w
  have hfailed := @flush_tail_failed cfg faults w
  have hdir := @flush_tail_dir cfg faults w
  rw [hflush] at hsame hfailed hdir
  exact ⟨hsame, hfailed, hdir.1, hdir.2⟩

theorem stage_loop_keeps {chunk : Nat → UInt8} {fuel pos remaining : Nat}
    (hloop : stageLoop cfg faults chunk fuel pos remaining w = (ok, w')) : KeepsNames w w' := by
  have hsame := stage_loop_same cfg faults chunk fuel pos remaining w
  have hfailed := @stage_loop_failed cfg faults chunk fuel pos remaining w
  have hdir := @stage_loop_dir cfg faults chunk fuel pos remaining w
  rw [hloop] at hsame hfailed hdir
  exact ⟨hsame, hfailed, hdir.1, hdir.2⟩

theorem Writes.keeps {chunk : ByteView} (hw : Writes cfg σ h chunk faults ok w) :
    KeepsNames ⟨h, σ.stageBytes h.stage, σ.fs⟩ w := by
  rcases hw with ⟨-, -, rfl⟩ | ⟨-, hloop⟩
  · exact ⟨SameHandle.refl h, rfl, rfl, rfl⟩
  · exact stage_loop_keeps hloop

/-- What a handle keeps while it is open. -/
structure KeptHandle (h h' : StoreHandle) : Prop where
  digest : h'.digest = h.digest
  layout : h'.layout = h.layout
  ssd : h'.ssd = h.ssd
  hdd : h'.hdd = h.hdd
  head : h'.head = h.head
  stage : h'.stage = h.stage

theorem SameHandle.kept {h' : StoreHandle} (hs : SameHandle h h') : KeptHandle h h' :=
  { hs with }

end State

/-- Putting a handle back touches the handle, its staging buffer and the bytes of its files and its
head. -/
theorem Put.same (hput : Put cfg σ id h op σ') :
    ∃ w : Staging, KeptHandle h w.handle ∧ w.fs.dir = σ.fs.dir ∧ w.fs.next = σ.fs.next ∧
      σ' = { σ.putStaging id w with ramBytes := σ'.ramBytes } := by
  cases hput with
  | @wrote chunk faults w hend hw =>
      obtain ⟨hsame, -, hdir, hnext⟩ := hw.keeps
      refine ⟨{ w with handle := advance w.handle chunk }, ?_, hdir, hnext, ?_⟩
      · exact { hsame with }
      · rw [fill_head_eq]
        rfl
  | @unwritten chunk faults w hend hw =>
      obtain ⟨hsame, -, hdir, hnext⟩ := hw.keeps
      refine ⟨w.spoil, hsame.spoil.kept, hdir, hnext, ?_⟩
      rw [fill_head_eq]
      rfl
  | @flushed flags expiry cas faults w hoff hflush =>
      obtain ⟨hsame, -, hdir, hnext⟩ := flush_tail_keeps hflush
      exact ⟨w, hsame.kept, hdir, hnext, rfl⟩
  | @unflushed flags expiry cas faults w hoff hflush =>
      obtain ⟨hsame, -, hdir, hnext⟩ := flush_tail_keeps hflush
      exact ⟨w.spoil, hsame.spoil.kept, hdir, hnext, rfl⟩

/-- An open store after a change was open before it with the same layout and head, or is the one
that the change opens. -/
theorem Change.handle_old (hc : Change cfg σ op σ') {i : Nat} {h' : StoreHandle}
    (hh' : σ'.handles.lookup i = some h') :
    (∃ h, σ.handles.lookup i = some h ∧ KeptHandle h h') ∨
      i = σ.storeSeq ∧ σ'.storeSeq = σ.storeSeq + 1 ∧
        ∃ d size faults, op = .beginStore d size faults ∧ h'.digest = d ∧
        h'.layout = cfg.layout size ∧
          HeadFits cfg size h'.head := by
  have hself : ∀ h, KeptHandle h h := fun _ => ⟨rfl, rfl, rfl, rfl, rfl, rfl⟩
  have hput : ∀ id h h₁, σ.handles.lookup id = some h → KeptHandle h h₁ →
      (σ.handles.insert id h₁).lookup i = some h' → ∃ h, σ.handles.lookup i = some h ∧
      KeptHandle h h' := by
    intro id h h₁ hh hkept hi
    rcases Table.lookup_insert_some hi with ⟨rfl, rfl⟩ | ⟨-, hold⟩
    · exact ⟨h, hh, hkept⟩
    · exact ⟨h', hold, hself h'⟩
  cases hc with
  | quiet hop =>
      rw [(quiet_same cfg σ hop).handles] at hh'
      exact Or.inl ⟨h', hh', hself h'⟩
  | settle => exact Or.inl ⟨h', hh', hself h'⟩
  | unhead =>
      rw [free_head_region_eq] at hh'
      exact Or.inl ⟨h', hh', hself h'⟩
  | forget =>
      rw [free_head_eq] at hh'
      exact Or.inl ⟨h', hh', hself h'⟩
  | retime => exact Or.inl ⟨h', hh', hself h'⟩
  | opened => exact Or.inl ⟨h', hh', hself h'⟩
  | refused => exact Or.inl ⟨h', hh', hself h'⟩
  | @started d size faults _ _ _ _ _ _ _ _ _ _ hhead =>
      rcases Table.lookup_insert_some hh' with ⟨rfl, rfl⟩ | ⟨-, hold⟩
      · exact Or.inr ⟨rfl, rfl, d, size, faults, rfl, rfl, rfl, hhead.fits⟩
      · exact Or.inl ⟨h', hold, hself h'⟩
  | @put _ id h _ hh hput' =>
      obtain ⟨w, hkept, -, -, heq⟩ := hput'.same
      rw [heq] at hh'
      exact Or.inl (hput id h w.handle hh hkept hh')
  | @unpublished id _ _ _ _ h _ hh =>
      exact Or.inl (hput id h { h with failed := true } hh ⟨rfl, rfl, rfl, rfl, rfl, rfl⟩ hh')
  | installed =>
      rw [retire_head_eq] at hh'
      exact Or.inl ⟨h', (Table.lookup_erase_some hh').2, hself h'⟩
  | closed => exact Or.inl ⟨h', (Table.lookup_erase_some hh').2, hself h'⟩

/-- But for the readers' steps, a change leaves pins and the clock alone, and store numbers go
up. -/
theorem Change.plain (hc : Change cfg σ op σ') : op.Quiet ∧ σ' = σ.apply cfg op ∨
    σ'.held = σ.held ∧ σ'.pinSeq = σ.pinSeq ∧ σ'.now = σ.now ∧ σ.storeSeq ≤ σ'.storeSeq := by
  cases hc with
  | quiet hop => exact Or.inl ⟨hop, rfl⟩
  | settle => exact Or.inr ⟨rfl, rfl, rfl, le_rfl⟩
  | unhead =>
      rw [free_head_region_eq]
      exact Or.inr ⟨rfl, rfl, rfl, le_rfl⟩
  | forget =>
      rw [free_head_eq]
      exact Or.inr ⟨rfl, rfl, rfl, le_rfl⟩
  | retime => exact Or.inr ⟨rfl, rfl, rfl, le_rfl⟩
  | opened => exact Or.inr ⟨rfl, rfl, rfl, Nat.le_succ _⟩
  | refused => exact Or.inr ⟨rfl, rfl, rfl, Nat.le_succ _⟩
  | started => exact Or.inr ⟨rfl, rfl, rfl, Nat.le_succ _⟩
  | put _ hput =>
      obtain ⟨w, -, -, -, heq⟩ := hput.same
      rw [heq]
      exact Or.inr ⟨rfl, rfl, rfl, le_rfl⟩
  | unpublished => exact Or.inr ⟨rfl, rfl, rfl, le_rfl⟩
  | installed =>
      rw [retire_head_eq]
      exact Or.inr ⟨rfl, rfl, rfl, le_rfl⟩
  | closed =>
      rw [give_back_eq]
      exact Or.inr ⟨rfl, rfl, rfl, le_rfl⟩

theorem Change.store_seq_le (hc : Change cfg σ op σ') : σ.storeSeq ≤ σ'.storeSeq := by
  rcases hc.plain with ⟨hop, rfl⟩ | ⟨-, -, -, hle⟩
  · exact (quiet_same cfg σ hop).storeSeq.ge
  · exact hle

/-! ## The changes of each operation -/

namespace State

/-- The state with other files, staging buffers and open stores. -/
def withStores (σ : State) (storeSeq : Nat) (fs : FileSystem) (writePool : BlockPool)
    (stageBytes : Nat → Nat → UInt8) (handles : Table Nat StoreHandle) : State :=
  { σ with
    storeSeq := storeSeq, fs := fs, writePool := writePool, stageBytes := stageBytes,
      handles := handles }

section WithStores

/-! Heads are evicted without a look at the files and the open stores. -/

variable {seq : Nat} {fs : FileSystem} {pool : BlockPool} {bytes : Nat → Nat → UInt8}
  {hs : Table Nat StoreHandle}

theorem free_head_region_with_stores (r : Region) :
    (σ.withStores seq fs pool bytes hs).freeHeadRegion r =
      (σ.freeHeadRegion r).withStores seq fs pool bytes hs := by
  unfold freeHeadRegion
  simp only [withStores]
  cases σ.pins.lookup (regionId r.block r.offset) with
  | none => rfl
  | some p =>
      dsimp only
      split_ifs <;> rfl

theorem evict_head_with_stores (victim : Digest) :
    evictHead cfg (σ.withStores seq fs pool bytes hs) victim =
      (evictHead cfg σ victim).withStores seq fs pool bytes hs := by
  unfold evictHead
  rw [show (σ.withStores seq fs pool bytes hs).index = σ.index from rfl]
  cases σ.index.lookup victim with
  | none => rfl
  | some m =>
      dsimp only
      cases m.head with
      | none => rfl
      | some r =>
          dsimp only
          rw [free_head_region_with_stores]
          split_ifs <;> rfl

theorem reserve_loop_with_stores (n fuel : Nat) :
    reserveLoop cfg n fuel (σ.withStores seq fs pool bytes hs) =
      ((reserveLoop cfg n fuel σ).1,
      (reserveLoop cfg n fuel σ).2.withStores seq fs pool bytes hs) := by
  induction fuel generalizing σ with
  | zero => rfl
  | succ fuel ih =>
      rw [reserveLoop, reserveLoop, show (σ.withStores seq fs pool bytes hs).ram = σ.ram from rfl,
        show (σ.withStores seq fs pool bytes hs).policy = σ.policy from rfl]
      cases σ.ram.allocate n with
      | some found => rfl
      | none =>
          dsimp only
          cases σ.policy.evict with
          | mk victim policy =>
              cases victim with
              | none => rfl
              | some victim =>
                  show reserveLoop cfg n fuel
                    (evictHead cfg (withStores { σ with policy := policy }
                    seq fs pool bytes hs) victim) = _
                  rw [evict_head_with_stores]
                  exact ih

theorem reserve_head_with_stores (headLen : Nat) :
    reserveHead cfg (σ.withStores seq fs pool bytes hs) headLen =
      ((reserveHead cfg σ headLen).1,
      (reserveHead cfg σ headLen).2.withStores seq fs pool bytes hs) := by
  unfold reserveHead
  split_ifs
  · exact reserve_loop_with_stores _ _
  · rfl

end WithStores

/-- A head is freed without a look at the policies. -/
theorem free_head_region_policies (σ : State) (policy objectPolicy : S3Fifo) (r : Region) :
    freeHeadRegion { σ with policy := policy, objectPolicy := objectPolicy } r =
      { σ.freeHeadRegion r with policy := policy, objectPolicy := objectPolicy } := by
  unfold freeHeadRegion
  dsimp only
  cases σ.pins.lookup (regionId r.block r.offset) with
  | none => rfl
  | some p =>
      dsimp only
      split_ifs <;> rfl

variable {size : Nat}

/-- A RAM-only object has no files to unlink. -/
theorem unlink_files_ram_only {fs : FileSystem} {suffix : Option Nat}
    (hsize : size ≤ cfg.tiers.ramHead) :
    unlinkFiles cfg fs faults d (cfg.layout size) suffix = fs := by
  rw [Config.layout, compute_layout_ram_only hsize]
  unfold unlinkFiles
  cases cfg.hdd <;> rfl

/-- An object with a head and no SSD part is RAM-only. -/
theorem ram_only_of_ssd (hpos : 0 < min size cfg.tiers.ramHead)
    (hssd : (cfg.layout size).ssdBytes = 0) : size ≤ cfg.tiers.ramHead := by
  by_contra hlt
  have hdisk := (@compute_layout_disk size cfg.tiers cfg.threeLayer (Nat.lt_of_not_le hlt)).2.1
  rw [Config.layout] at hssd
  omega

theorem evict_head_change {victim : Digest} {policy : S3Fifo}
    (hevict : σ.policy.evict = (some victim, policy)) :
    Change cfg σ (.beginStore d size faults)
      (evictHead cfg { σ with policy := policy } victim) := by
  rcases evict_head_cases cfg { σ with policy := policy } victim with
    ⟨hnone, heq⟩ | ⟨m, r, hm, hr, ⟨hsize, heq⟩ | ⟨hsize, heq⟩⟩ <;> rw [heq]
  · refine .settle σ.reaping (Or.inr ⟨_, hevict, fun d hd => ?_⟩) (Or.inl rfl)
    cases hd
    exact hnone
  · have hforget := @Change.forget cfg σ (.beginStore d size faults) victim m
      (.evicted victim) policy _ hm
      rfl rfl (Or.inr ⟨by rw [hr]; rfl, hsize, hevict⟩) (Or.inl rfl)
    rw [unlink_files_ram_only hsize, hr, freeHead, free_head_region_eq] at hforget
    rw [free_head_region_policies σ policy σ.objectPolicy, free_head_region_eq]
    exact hforget
  · have hunhead := @Change.unhead cfg σ d victim size faults policy m r hevict hm hr hsize
    rw [free_head_region_eq] at hunhead
    rw [free_head_region_policies σ policy σ.objectPolicy, free_head_region_eq]
    exact hunhead

theorem reserve_head_changes (headLen : Nat) :
    (reserveHead cfg σ headLen).1 = none ∧
        Changes cfg (.beginStore d size faults) σ (reserveHead cfg σ headLen).2 ∨
      ∃ σ₁ r ram, Changes cfg (.beginStore d size faults) σ σ₁ ∧
        σ₁.ram.allocate (headLen % wrap32) = some (r, ram) ∧
        reserveHead cfg σ headLen =
          (some r, { σ₁ with ram := ram, ramLog := .alloc r :: σ₁.ramLog }) := by
  rcases @reserve_head_rule cfg σ (Changes cfg (.beginStore d size faults) σ)
      (fun σ' policy h hevict => h.tail (.settle σ'.reaping
        (Or.inr ⟨_, hevict, nofun⟩) (Or.inl rfl)))
      (fun σ' victim policy h hevict => h.tail (evict_head_change hevict)) headLen .refl with
    hnone | ⟨σ₁, r, ram, hchanges, -, halloc, heq⟩
  · exact Or.inl hnone
  · exact Or.inr ⟨σ₁, r, ram, hchanges, halloc, heq⟩

theorem begin_store_changes (σ : State) (d : Digest) (size : Nat) (faults : Faults) :
    Changes cfg (.beginStore d size faults) σ (beginStore cfg σ d size faults).2 := by
  unfold beginStore
  dsimp only
  cases hopen : openFiles cfg σ.fs faults d (cfg.layout size) true (some σ.storeSeq) with
  | mk files fs =>
      cases files with
      | none => exact .single (.opened hopen (Or.inl rfl))
      | some pair =>
          obtain ⟨ssd, hdd⟩ := pair
          dsimp only
          cases hacq : σ.writePool.acquire with
          | none => exact .single (.refused hopen)
          | some found =>
              obtain ⟨stage, writePool⟩ := found
              -- the evictions may as well come before the open
              have hreserve := @reserve_head_with_stores cfg σ (σ.storeSeq + 1) fs writePool
                σ.stageBytes σ.handles (min size cfg.tiers.ramHead)
              obtain ⟨hframe, hfs⟩ := reserve_head_frame cfg σ (min size cfg.tiers.ramHead)
              dsimp only
              rw [show ({ σ with
                  storeSeq := σ.storeSeq + 1, fs := fs, writePool := writePool } : State) =
                σ.withStores (σ.storeSeq + 1) fs writePool σ.stageBytes σ.handles from rfl,
                hreserve]
              rcases @reserve_head_changes cfg σ faults d size (min size cfg.tiers.ramHead) with
                ⟨hnone, hchanges⟩ | ⟨σ₁, r, ram, hchanges, halloc, heq⟩
              · rw [hnone]
                generalize (reserveHead cfg σ (min size cfg.tiers.ramHead)).2 =
                  σ₁ at hframe hfs hchanges
                obtain ⟨hhandles, hseq, -, -, -, -, hbytes, hpool, -, -⟩ := hframe
                rw [← hfs, ← hseq] at hopen
                rw [← hpool] at hacq
                rw [← hhandles, ← hseq, ← hbytes]
                split_ifs with hram
                · have hopened := Change.opened hopen (Or.inr (ram_only_of_ssd hram.1 hram.2.1))
                  refine hchanges.tail ?_
                  simp only [withStores, release_acquire hacq]
                  exact hopened
                · refine hchanges.tail ?_
                  exact .started hopen hacq (Or.inl ⟨rfl, rfl, rfl, fun h => hram ⟨h.1, h.2, rfl⟩⟩)
              · rw [heq] at hframe hfs ⊢
                obtain ⟨hhandles, hseq, -, -, -, -, hbytes, hpool, -, -⟩ := hframe
                dsimp only at hhandles hseq hbytes hpool hfs ⊢
                rw [← hfs, ← hseq] at hopen
                rw [← hpool] at hacq
                rw [← hhandles, ← hseq, ← hbytes, if_neg (by simp)]
                exact hchanges.tail (.started hopen hacq (Or.inr ⟨r, rfl, halloc, rfl⟩))

/-- A write puts its handle back, unless it is refused. -/
theorem write_put (σ : State) (id : Nat) (chunk : ByteView) (faults : Faults) :
    (write cfg σ id chunk faults).2 = σ ∨ ∃ h, σ.handles.lookup id = some h ∧
      Put cfg σ id h (.write id chunk faults) (write cfg σ id chunk faults).2 := by
  rcases write_cases cfg σ id chunk faults with ⟨e, heq, -⟩ | ⟨h, hh, hend, ⟨hssd, hhdd, heq⟩ |
      ⟨hdisk, ok, w, hloop, ⟨rfl, heq⟩ | ⟨rfl, heq⟩⟩⟩ <;> rw [heq]
  · exact Or.inl rfl
  · have hput := @Put.wrote cfg σ id h chunk faults _ hend (Or.inl ⟨⟨hssd, hhdd⟩, rfl, rfl⟩)
    refine Or.inr ⟨h, hh, ?_⟩
    rw [fill_head_eq] at hput ⊢
    simp only [putStaging, advance, Function.update_eq_self] at hput
    exact hput
  · exact Or.inr ⟨h, hh, .unwritten hend (Or.inr ⟨hdisk, hloop⟩)⟩
  · exact Or.inr ⟨h, hh, .wrote hend (Or.inr ⟨hdisk, hloop⟩)⟩

theorem abort_changes (σ : State) (id : Nat) (faults : Faults) :
    Changes cfg (.abort id faults) σ (abort cfg σ id faults) := by
  rcases abort_cases cfg σ id faults with ⟨-, heq⟩ | ⟨h, hh, ⟨hr, heq⟩ | ⟨r, hr, heq⟩⟩ <;> rw [heq]
  · exact .refl
  all_goals
    have hclosed := @Change.closed cfg σ id faults h hh
    rw [hr] at hclosed
    exact .single hclosed

theorem drop_object_change {event : Event} {objectPolicy : S3Fifo} (hd : event.digest = d)
    (hv : event.version = none) (hobject : objectPolicy = σ.objectPolicy ∨
      σ.objectPolicy.evict = (some d, objectPolicy)) :
    Change cfg σ op (dropObject cfg { σ with objectPolicy := objectPolicy } d op.faults event) := by
  rcases drop_object_cases cfg { σ with objectPolicy := objectPolicy } d op.faults event with
    ⟨hnone, heq⟩ | ⟨m, hm, hends⟩
  · rw [heq]
    refine .settle σ.reaping (Or.inl rfl)
      (hobject.imp_right fun hevict => ⟨_, hevict, fun e he => ?_⟩)
    cases he
    exact hnone
  · have hforget := @Change.forget cfg σ op d m event _
      (objectPolicy.remove d) hm hd hv (Or.inl rfl)
      (hobject.imp (fun heq => by rw [heq]) fun hevict => ⟨_, hevict, rfl⟩)
    rcases hends with ⟨hr, heq⟩ | ⟨r, hr, heq⟩ <;> rw [heq] <;> rw [hr] at hforget
    · exact hforget
    · rw [freeHead, free_head_region_eq] at hforget
      rw [free_head_region_policies σ σ.policy objectPolicy, free_head_region_eq]
      exact hforget

theorem enforce_object_bound_changes (σ : State) :
    Changes cfg op σ (enforceObjectBound cfg σ op.faults) := by
  refine bound_loop_rule (fun σ' policy h hevict => h.tail ?_)
    (fun σ' victim policy h hevict => h.tail ?_) _
    .refl
  · exact .settle σ'.reaping (Or.inl rfl) (Or.inr ⟨_, hevict, nofun⟩)
  · exact drop_object_change rfl rfl (Or.inr hevict)

/-- A commit flushes, and may then fail or index its version and enforce the bound. -/
theorem commit_path (σ : State) (id flags expiry cas : Nat) (faults : Faults) :
    (commit cfg σ id flags expiry cas faults).2 = σ ∨
    Change cfg σ (.commit id flags expiry cas faults) (commit cfg σ id flags expiry cas faults).2 ∨
    ∃ h w, σ.handles.lookup id = some h ∧
      flushTail cfg faults ⟨h, σ.stageBytes h.stage, σ.fs⟩ = (true, w) ∧
      Change cfg σ (.commit id flags expiry cas faults) (σ.putStaging id w) ∧
      (Change cfg (σ.putStaging id w) (.commit id flags expiry cas faults)
          (commit cfg σ id flags expiry cas faults).2 ∨
        ∃ σ₂, Change cfg (σ.putStaging id w) (.commit id flags expiry cas faults) σ₂ ∧
          (commit cfg σ id flags expiry cas faults).2 = enforceObjectBound cfg σ₂ faults) := by
  rcases commit_cases cfg σ id flags expiry cas faults with ⟨e, heq, -⟩ |
      ⟨h, ok, w, hh, hoff, hflush, ⟨rfl, heq⟩ | ⟨rfl, hends⟩⟩
  · rw [heq]
    exact Or.inl rfl
  · rw [heq]
    exact Or.inr (Or.inl (.put hh (.unflushed hoff hflush)))
  obtain ⟨hsame, -⟩ := flush_tail_keeps hflush
  have hput : Change cfg σ (.commit id flags expiry cas faults) (σ.putStaging id w) :=
    .put hh (.flushed hoff hflush)
  have hself : (σ.putStaging id w).handles.lookup id = some w.handle := Table.lookup_insert_self ..
  have hoff' : w.handle.off = w.handle.layout.size := by rw [hsame.off, hsame.layout, hoff]
  rcases hends with ⟨-, heq⟩ | ⟨hcas, published, fs, hpublish, ⟨rfl, heq⟩ | ⟨rfl, heq⟩⟩ <;> rw [heq]
  · exact Or.inr (Or.inl hput)
  all_goals
    rw [← hsame.digest, ← hsame.layout] at hpublish
    refine Or.inr (Or.inr ⟨h, w, hh, hflush, hput, ?_⟩)
  · have hlast := @Change.unpublished cfg _ id flags expiry cas faults _ _ hself hoff'
      (flush_tail_fill hflush)
      hpublish
    rw [show (σ.putStaging id w).handles = σ.handles.insert id w.handle from rfl,
      Table.insert_insert] at hlast
    exact Or.inl hlast
  · rw [← hsame.digest] at hcas ⊢
    exact Or.inr ⟨_, .installed hself hoff' (flush_tail_fill hflush) hcas hpublish, rfl⟩

theorem commit_changes (σ : State) (id flags expiry cas : Nat) (faults : Faults) :
    Changes cfg (.commit id flags expiry cas faults) σ
      (commit cfg σ id flags expiry cas faults).2 := by
  rcases @commit_path cfg σ id flags expiry cas faults with
    heq | hone | ⟨h, w, -, -, hput, hlast | ⟨σ₂, hinst, heq⟩⟩
  · rw [heq]
    exact .refl
  · exact .single hone
  · exact (Relation.ReflTransGen.single hput).tail hlast
  · rw [heq]
    exact ((Relation.ReflTransGen.single hput).tail hinst).trans (enforce_object_bound_changes _)

/-- Every step is a sequence of changes. -/
theorem apply_changes (cfg : Config) (σ : State) (op : Op) : Changes cfg op σ (σ.apply cfg op) := by
  cases op with
  | beginStore d size faults => exact begin_store_changes σ d size faults
  | write id chunk faults =>
      rcases @write_put cfg σ id chunk faults with heq | ⟨h, hh, hput⟩
      · rw [apply, heq]
        exact .refl
      · exact .single (.put hh hput)
  | commit id flags expiry cas faults => exact commit_changes σ id flags expiry cas faults
  | abort id faults => exact abort_changes σ id faults
  | remove d faults =>
      simp only [apply, remove]
      split
      · exact .refl
      · exact .single (drop_object_change rfl rfl (Or.inl rfl))
  | reapNext d faults =>
      simp only [apply, reapNext]
      split_ifs
      · have hstep : Change cfg σ (.reapNext d faults) { σ with reaping := σ.reaping.erase d } :=
          .settle (σ.reaping.erase d) (Or.inl rfl) (Or.inl rfl)
        exact (Relation.ReflTransGen.single hstep).tail
          (@drop_object_change cfg _ (.reapNext d faults) d (.reaped d) _ rfl rfl (Or.inl rfl))
      · exact .refl
  | touchTtl d expiry =>
      simp only [apply, touchTtl, Index.updateExpiry]
      cases hm : σ.index.lookup d with
      | none => exact .refl
      | some m => exact .single (.retime hm)
  | _ => exact .single (.quiet trivial)

end State

/-- What every change of a step keeps, the step keeps. -/
theorem Change.invariant {P : State → Prop}
    (hP : ∀ σ σ', P σ → Change cfg σ op σ' → P σ') (h : P σ) :
    P (σ.apply cfg op) := by
  have hall : ∀ σ', Changes cfg op σ σ' → P σ' := by
    intro σ' hchanges
    induction hchanges with
    | refl => exact h
    | tail _ hchange ih => exact hP _ _ ih hchange
  exact hall _ (State.apply_changes cfg σ op)

end GoblinStore
