import GoblinStore.Storage.TierManager

/-!
# What one step can do

The inversion lemmas `evict_head_cases`, `drop_object_cases`, `begin_store_cases`, `write_cases`,
`abort_cases` and `commit_cases` list the states an operation can end in, and `reserve_loop_rule`
and `bound_loop_rule` are the invariant rules of the two eviction loops. `Frame` lists the fields
that evictions and drops never change, `SameHandle` what staging keeps of a handle. Later proofs
use these and do not unfold the operations again.
-/

namespace GoblinStore

open GoblinStore.Lib GoblinStore.Core

/-- The handles, the staging area, the counters and the bytes of the head pool are the same. -/
structure Frame (σ σ' : State) : Prop where
  handles : σ'.handles = σ.handles
  storeSeq : σ'.storeSeq = σ.storeSeq
  etagSeq : σ'.etagSeq = σ.etagSeq
  held : σ'.held = σ.held
  pinSeq : σ'.pinSeq = σ.pinSeq
  ramBytes : σ'.ramBytes = σ.ramBytes
  stageBytes : σ'.stageBytes = σ.stageBytes
  writePool : σ'.writePool = σ.writePool
  now : σ'.now = σ.now
  anyTtl : σ'.anyTtl = σ.anyTtl

theorem Frame.refl (σ : State) : Frame σ σ := ⟨rfl, rfl, rfl, rfl, rfl, rfl, rfl, rfl, rfl, rfl⟩

theorem Frame.trans {σ σ' σ'' : State} (h : Frame σ σ') (h' : Frame σ' σ'') : Frame σ σ'' where
  handles := h'.handles.trans h.handles
  storeSeq := h'.storeSeq.trans h.storeSeq
  etagSeq := h'.etagSeq.trans h.etagSeq
  held := h'.held.trans h.held
  pinSeq := h'.pinSeq.trans h.pinSeq
  ramBytes := h'.ramBytes.trans h.ramBytes
  stageBytes := h'.stageBytes.trans h.stageBytes
  writePool := h'.writePool.trans h.writePool
  now := h'.now.trans h.now
  anyTtl := h'.anyTtl.trans h.anyTtl

/-- The steps of readers, the clock and the reaper's scan. -/
def Op.Quiet : Op → Prop
  | .reapScan | .touch _ | .pinHead _ | .unpinHead _ | .openSnapshot _ _ | .clock _ => True
  | _ => False

namespace State

variable {cfg : Config} {σ : State} {d : Digest} {faults : Faults}

/-- Freeing a head touches the pool, its log and the pins. -/
theorem free_head_region_eq (σ : State) (r : Region) :
    σ.freeHeadRegion r = { σ with
      ram := (σ.freeHeadRegion r).ram
      ramLog := (σ.freeHeadRegion r).ramLog
      pins := (σ.freeHeadRegion r).pins } := by
  unfold freeHeadRegion
  split
  · split_ifs <;> rfl
  · rfl

/-- Retiring a head touches the head policy besides. -/
theorem retire_head_eq (σ : State) (d : Digest) (old : Option ObjectMeta) :
    σ.retireHead d old = { σ with
      ram := (σ.retireHead d old).ram
      ramLog := (σ.retireHead d old).ramLog
      pins := (σ.retireHead d old).pins
      policy := (σ.retireHead d old).policy } := by
  unfold retireHead
  split
  · dsimp only
    rw [free_head_region_eq]
  · rfl

/-- Evicting a head gives up the head of a disk-backed object and all of a RAM-only one. -/
theorem evict_head_cases (cfg : Config) (σ : State) (victim : Digest) :
    (∀ m, σ.index.lookup victim = some m → m.head = none) ∧ evictHead cfg σ victim = σ ∨
    ∃ m r, σ.index.lookup victim = some m ∧ m.head = some r ∧
      (m.size ≤ cfg.tiers.ramHead ∧ evictHead cfg σ victim =
          { σ.freeHeadRegion r with
            objectPolicy := σ.objectPolicy.remove victim
            index := σ.index.erase victim
            history := .evicted victim :: σ.history } ∨
        cfg.tiers.ramHead < m.size ∧ evictHead cfg σ victim =
          { σ.freeHeadRegion r with index := σ.index.insert victim { m with head := none } }) := by
  unfold evictHead
  cases hm : σ.index.lookup victim with
  | none => exact Or.inl ⟨by simp, rfl⟩
  | some m =>
      cases hr : m.head with
      | none => exact Or.inl ⟨by simp [hr], by simp only [hr]⟩
      | some r =>
          refine Or.inr ⟨m, r, rfl, hr, ?_⟩
          simp only [hr]
          rw [free_head_region_eq]
          split_ifs with hsize
          · exact Or.inl ⟨hsize, rfl⟩
          · refine Or.inr ⟨Nat.lt_of_not_le hsize, ?_⟩
            simp only [Index.setHead, hm]

/-- Dropping an object forgets it and, if resident, frees its head. -/
theorem drop_object_cases (cfg : Config) (σ : State) (d : Digest) (faults : Faults)
    (event : Event) :
    σ.index.lookup d = none ∧ dropObject cfg σ d faults event = σ ∨
    ∃ m, σ.index.lookup d = some m ∧
      (m.head = none ∧ dropObject cfg σ d faults event =
          { σ with
            objectPolicy := σ.objectPolicy.remove d
            fs := unlinkFiles cfg σ.fs faults d (cfg.layout m.size) none
            index := σ.index.erase d
            history := event :: σ.history } ∨
        ∃ r, m.head = some r ∧ dropObject cfg σ d faults event =
          { σ.freeHeadRegion r with
            policy := σ.policy.remove d
            objectPolicy := σ.objectPolicy.remove d
            fs := unlinkFiles cfg σ.fs faults d (cfg.layout m.size) none
            index := σ.index.erase d
            history := event :: σ.history }) := by
  unfold dropObject
  cases hm : σ.index.lookup d with
  | none => exact Or.inl ⟨rfl, rfl⟩
  | some m =>
      refine Or.inr ⟨m, rfl, ?_⟩
      cases hr : m.head with
      | none => exact Or.inl ⟨rfl, by simp only [hr]⟩
      | some r =>
          refine Or.inr ⟨r, rfl, ?_⟩
          simp only [hr]
          rw [free_head_region_eq]

theorem evict_head_frame (cfg : Config) (σ : State) (victim : Digest) :
    Frame σ (evictHead cfg σ victim) ∧ (evictHead cfg σ victim).fs = σ.fs ∧
      (evictHead cfg σ victim).policy = σ.policy := by
  rcases evict_head_cases cfg σ victim with ⟨-, heq⟩ | ⟨m, r, -, -, ⟨-, heq⟩ | ⟨-, heq⟩⟩ <;>
    rw [heq]
  · exact ⟨Frame.refl σ, rfl, rfl⟩
  · rw [free_head_region_eq]
    exact ⟨⟨rfl, rfl, rfl, rfl, rfl, rfl, rfl, rfl, rfl, rfl⟩, rfl, rfl⟩
  · rw [free_head_region_eq]
    exact ⟨⟨rfl, rfl, rfl, rfl, rfl, rfl, rfl, rfl, rfl, rfl⟩, rfl, rfl⟩

theorem drop_object_frame (cfg : Config) (σ : State) (d : Digest) (faults : Faults)
    (event : Event) :
    Frame σ (dropObject cfg σ d faults event) := by
  rcases drop_object_cases cfg σ d faults event with ⟨-, heq⟩ | ⟨m, -, ⟨-, heq⟩ | ⟨r, -, heq⟩⟩ <;>
    rw [heq]
  · exact Frame.refl σ
  · exact ⟨rfl, rfl, rfl, rfl, rfl, rfl, rfl, rfl, rfl, rfl⟩
  · rw [free_head_region_eq]
    exact ⟨rfl, rfl, rfl, rfl, rfl, rfl, rfl, rfl, rfl, rfl⟩

/-- What a drop does to the object policy and the index. -/
theorem drop_object_spec (σ : State) (d : Digest) (event : Event) :
    σ.index.lookup d = none ∧ dropObject cfg σ d faults event = σ ∨
    (dropObject cfg σ d faults event).objectPolicy = σ.objectPolicy.remove d ∧
      (dropObject cfg σ d faults event).index = σ.index.erase d := by
  rcases drop_object_cases cfg σ d faults event with
    ⟨hnone, heq⟩ | ⟨m, -, ⟨-, heq⟩ | ⟨r, -, heq⟩⟩ <;> rw [heq]
  · exact Or.inl ⟨hnone, rfl⟩
  · exact Or.inr ⟨rfl, rfl⟩
  · exact Or.inr ⟨rfl, rfl⟩

/-! ## The eviction loops -/

variable {P : State → Prop}
  (hnone : ∀ σ policy, P σ → σ.policy.evict = (none, policy) → P { σ with policy := policy })
  (hsome : ∀ σ victim policy, P σ → σ.policy.evict = (some victim, policy) →
    P (evictHead cfg { σ with policy := policy } victim))

include hnone hsome in
/-- The invariant rule of the reservation loop: what its evictions keep holds when it ends, just
before the allocation if it ends with one. -/
theorem reserve_loop_rule {n : Nat} (fuel : Nat) (hσ : P σ) :
    (reserveLoop cfg n fuel σ).1 = none ∧ P (reserveLoop cfg n fuel σ).2 ∨
    ∃ σ₁ r ram, P σ₁ ∧ σ₁.ram.allocate n = some (r, ram) ∧
      reserveLoop cfg n fuel σ = (some r,
      { σ₁ with ram := ram, ramLog := .alloc r :: σ₁.ramLog }) := by
  induction fuel generalizing σ with
  | zero => exact Or.inl ⟨rfl, hσ⟩
  | succ fuel ih =>
      rw [reserveLoop]
      split
      · rename_i r ram halloc
        exact Or.inr ⟨σ, r, ram, hσ, halloc, rfl⟩
      · split
        · rename_i policy hevict
          exact Or.inl ⟨rfl, hnone σ policy hσ hevict⟩
        · rename_i victim policy hevict
          exact ih (hsome σ victim policy hσ hevict)

include hnone hsome in
/-- The reservation of a head keeps what its evictions keep. -/
theorem reserve_head_rule (headLen : Nat) (hσ : P σ) :
    (reserveHead cfg σ headLen).1 = none ∧ P (reserveHead cfg σ headLen).2 ∨
    ∃ σ₁ r ram, P σ₁ ∧ 0 < headLen ∧ σ₁.ram.allocate (headLen % wrap32) = some (r, ram) ∧
      reserveHead cfg σ headLen =
        (some r, { σ₁ with ram := ram, ramLog := .alloc r :: σ₁.ramLog }) := by
  unfold reserveHead
  split_ifs with hpos
  · rcases reserve_loop_rule hnone hsome _ hσ with h | ⟨σ₁, r, ram, h1, h2, h3⟩
    · exact Or.inl h
    · exact Or.inr ⟨σ₁, r, ram, h1, hpos, h2, h3⟩
  · exact Or.inl ⟨rfl, hσ⟩

/-- Reserving a head touches no file and no handle. -/
theorem reserve_head_frame (cfg : Config) (σ : State) (headLen : Nat) :
    Frame σ (reserveHead cfg σ headLen).2 ∧ (reserveHead cfg σ headLen).2.fs = σ.fs := by
  rcases @reserve_head_rule cfg σ (fun σ' => Frame σ σ' ∧ σ'.fs = σ.fs)
      (fun σ' policy h _ => ⟨h.1.trans ⟨rfl, rfl, rfl, rfl, rfl, rfl, rfl, rfl, rfl, rfl⟩, h.2⟩)
      (fun σ' victim policy h _ => by
        obtain ⟨hframe, hfs, -⟩ := evict_head_frame cfg { σ' with policy := policy } victim
        have hsame : Frame σ' { σ' with policy := policy } :=
          ⟨rfl, rfl, rfl, rfl, rfl, rfl, rfl, rfl, rfl, rfl⟩
        exact ⟨(h.1.trans hsame).trans hframe, hfs.trans h.2⟩)
      headLen ⟨Frame.refl σ, rfl⟩ with ⟨-, h⟩ | ⟨σ₁, r, ram, h, -, -, heq⟩
  · exact h
  · rw [heq]
    exact ⟨h.1.trans ⟨rfl, rfl, rfl, rfl, rfl, rfl, rfl, rfl, rfl, rfl⟩, h.2⟩

/-- The invariant rule of the loop that enforces the object bound. -/
theorem bound_loop_rule (hnone : ∀ σ policy, P σ → σ.objectPolicy.evict = (none, policy) →
      P { σ with objectPolicy := policy })
    (hsome : ∀ σ victim policy, P σ → σ.objectPolicy.evict = (some victim, policy) →
      P (dropObject cfg { σ with objectPolicy := policy } victim faults (.evicted victim)))
    (fuel : Nat) (hσ : P σ) : P (boundLoop cfg faults fuel σ) := by
  induction fuel generalizing σ with
  | zero => exact hσ
  | succ fuel ih =>
      rw [boundLoop]
      split_ifs
      · split
        · rename_i policy hevict
          exact hnone σ policy hσ hevict
        · rename_i victim policy hevict
          exact ih (hsome σ victim policy hσ hevict)
      · exact hσ

theorem enforce_object_bound_frame (cfg : Config) (σ : State) (faults : Faults) :
    Frame σ (enforceObjectBound cfg σ faults) := by
  refine bound_loop_rule (P := Frame σ) ?_ ?_ _ (Frame.refl σ)
  · intro σ' policy h _
    exact h.trans ⟨rfl, rfl, rfl, rfl, rfl, rfl, rfl, rfl, rfl, rfl⟩
  · intro σ' victim policy h _
    have h' : Frame σ' { σ' with objectPolicy := policy } :=
      ⟨rfl, rfl, rfl, rfl, rfl, rfl, rfl, rfl, rfl, rfl⟩
    exact (h.trans h').trans (drop_object_frame ..)

/-- The bound on the reservation loop is never reached: any bound above the number of resident
heads gives the same result. -/
theorem reserve_loop_fuel {n fuel fuel' : Nat} (h : σ.policy.residents.card < fuel)
    (h' : σ.policy.residents.card < fuel') :
    reserveLoop cfg n fuel σ = reserveLoop cfg n fuel' σ := by
  induction fuel generalizing fuel' σ with
  | zero => omega
  | succ more ih =>
      obtain ⟨more', rfl⟩ : ∃ more', fuel' = more' + 1 := ⟨fuel' - 1, by omega⟩
      rw [reserveLoop, reserveLoop]
      split
      · rfl
      · split
        · rfl
        · rename_i victim policy hevict
          have hcard := S3Fifo.card_residents_evict hevict
          obtain ⟨-, -, hpolicy⟩ := evict_head_frame cfg { σ with policy := policy } victim
          have hlt : (evictHead cfg { σ with policy := policy } victim).policy.residents.card <
              σ.policy.residents.card := by
            rw [hpolicy]
            exact hcard
          exact ih (by omega) (by omega)

/-- The bound on the loop of the object bound is never reached either. -/
theorem bound_loop_fuel {fuel fuel' : Nat} (h : σ.objectPolicy.residents.card < fuel)
    (h' : σ.objectPolicy.residents.card < fuel') :
    boundLoop cfg faults fuel σ = boundLoop cfg faults fuel' σ := by
  induction fuel generalizing fuel' σ with
  | zero => omega
  | succ more ih =>
      obtain ⟨more', rfl⟩ : ∃ more', fuel' = more' + 1 := ⟨fuel' - 1, by omega⟩
      rw [boundLoop, boundLoop]
      split_ifs
      · split
        · rfl
        · rename_i victim policy hevict
          have hcard := S3Fifo.card_residents_evict hevict
          have hle : (dropObject cfg { σ with objectPolicy := policy } victim faults
              (.evicted victim)).objectPolicy.residents.card ≤ policy.residents.card := by
            rcases drop_object_cases cfg { σ with objectPolicy := policy } victim faults
                (.evicted victim) with ⟨-, heq⟩ | ⟨m, -, ⟨-, heq⟩ | ⟨r, -, heq⟩⟩ <;> rw [heq]
            · exact (S3Fifo.residents_remove policy victim ▸ Finset.card_erase_le)
            · exact (S3Fifo.residents_remove policy victim ▸ Finset.card_erase_le)
          exact ih (by omega) (by omega)
      · rfl

/-! ## Stores -/

include hnone hsome in
/-- The four ends of `begin_store`: an open failed, no staging buffer was free, no RAM was left for
a RAM-only object, or the store is open. `P` is any property that head evictions keep. -/
theorem begin_store_cases (σ : State) (d : Digest) (size : Nat) (faults : Faults)
    (hσ : ∀ ssd hdd fs stage writePool,
      openFiles cfg σ.fs faults d (cfg.layout size) true (some σ.storeSeq) = (some (ssd, hdd), fs) →
      σ.writePool.acquire = some (stage, writePool) →
      P { σ with storeSeq := σ.storeSeq + 1, fs := fs, writePool := writePool }) :
    (∃ fs, openFiles cfg σ.fs faults d (cfg.layout size) true (some σ.storeSeq) = (none, fs) ∧
      beginStore cfg σ d size faults =
        (.error .ioError, { σ with storeSeq := σ.storeSeq + 1, fs := fs })) ∨
    ∃ ssd hdd fs, openFiles cfg σ.fs faults d (cfg.layout size) true (some σ.storeSeq) =
        (some (ssd, hdd), fs) ∧
      (beginStore cfg σ d size faults = (.error .wouldBlock, { σ with
          storeSeq := σ.storeSeq + 1
          fs := unlinkFiles cfg fs faults d (cfg.layout size) (some σ.storeSeq) }) ∨
      ∃ stage writePool, σ.writePool.acquire = some (stage, writePool) ∧
        ((∃ σ₁, P σ₁ ∧ beginStore cfg σ d size faults =
            (.error .wouldBlock, { σ₁ with writePool := σ₁.writePool.release stage })) ∨
        (∃ σ₁, P σ₁ ∧ ¬ (0 < min size cfg.tiers.ramHead ∧ (cfg.layout size).ssdBytes = 0) ∧
          beginStore cfg σ d size faults = (.ok σ.storeSeq, { σ₁ with
            handles := σ₁.handles.insert σ.storeSeq
              ⟨d, cfg.layout size, ssd, hdd, none, stage, 0, 0, 0, ByteView.empty, false⟩ })) ∨
        ∃ σ₁ r ram, P σ₁ ∧ 0 < min size cfg.tiers.ramHead ∧
          σ₁.ram.allocate (min size cfg.tiers.ramHead % wrap32) = some (r, ram) ∧
          beginStore cfg σ d size faults = (.ok σ.storeSeq, { σ₁ with
            ram := ram
            ramLog := .alloc r :: σ₁.ramLog
            handles := σ₁.handles.insert σ.storeSeq
              ⟨d, cfg.layout size, ssd, hdd, some r, stage, 0, 0, 0, ByteView.empty,
              false⟩ }))) := by
  unfold beginStore
  dsimp only
  cases hopen : openFiles cfg σ.fs faults d (cfg.layout size) true (some σ.storeSeq) with
  | mk files fs =>
      cases files with
      | none => exact Or.inl ⟨fs, rfl, rfl⟩
      | some pair =>
          obtain ⟨ssd, hdd⟩ := pair
          refine Or.inr ⟨ssd, hdd, fs, rfl, ?_⟩
          cases hstage : σ.writePool.acquire with
          | none => exact Or.inl rfl
          | some found =>
              obtain ⟨stage, writePool⟩ := found
              refine Or.inr ⟨stage, writePool, rfl, ?_⟩
              have hstart := hσ ssd hdd fs stage writePool hopen hstage
              simp only
              rcases reserve_head_rule hnone hsome (min size cfg.tiers.ramHead) hstart with
                ⟨hfail, hP⟩ | ⟨σ₁, r, ram, hP, hpos, halloc, heq⟩
              · rw [hfail]
                split_ifs with hram
                · exact Or.inl ⟨_, hP, rfl⟩
                · refine Or.inr (Or.inl ⟨_, hP, fun hboth => hram ⟨hboth.1, hboth.2, rfl⟩, rfl⟩)
              · rw [heq]
                rw [if_neg (by simp)]
                exact Or.inr (Or.inr ⟨σ₁, r, ram, hP, hpos, halloc, rfl⟩)

theorem begin_store_open_failed {size : Nat} {fs : FileSystem}
    (h : openFiles cfg σ.fs faults d (cfg.layout size) true (some σ.storeSeq) = (none, fs)) :
    beginStore cfg σ d size faults =
      (.error .ioError, { σ with storeSeq := σ.storeSeq + 1, fs := fs }) := by
  unfold beginStore
  dsimp only
  rw [h]

/-- The three failures of `begin_store`: an open failed, no staging buffer was free, or the RAM-only
object got no head. -/
theorem begin_store_error {size : Nat} {e : Errc}
    (h : (beginStore cfg σ d size faults).1 = .error e) :
    (∃ fs, openFiles cfg σ.fs faults d (cfg.layout size) true (some σ.storeSeq) = (none, fs) ∧
      (beginStore cfg σ d size faults).2 = { σ with storeSeq := σ.storeSeq + 1, fs := fs }) ∨
    ∃ files fs, openFiles cfg σ.fs faults d (cfg.layout size) true (some σ.storeSeq) =
      (some files, fs) ∧
      (σ.writePool.acquire = none ∧ (beginStore cfg σ d size faults).2 = { σ with
          storeSeq := σ.storeSeq + 1
          fs := unlinkFiles cfg fs faults d (cfg.layout size) (some σ.storeSeq) } ∨
      ∃ stage writePool σ₁, σ.writePool.acquire = some (stage, writePool) ∧
        0 < min size cfg.tiers.ramHead ∧ (cfg.layout size).ssdBytes = 0 ∧
        reserveHead cfg { σ with storeSeq := σ.storeSeq + 1, fs := fs, writePool := writePool }
          (min size cfg.tiers.ramHead) = (none, σ₁) ∧
        (beginStore cfg σ d size faults).2 =
        { σ₁ with writePool := σ₁.writePool.release stage }) := by
  unfold beginStore at h ⊢
  dsimp only at h ⊢
  cases hopen : openFiles cfg σ.fs faults d (cfg.layout size) true (some σ.storeSeq) with
  | mk files fs =>
      rw [hopen] at h
      cases files with
      | none => exact Or.inl ⟨fs, rfl, rfl⟩
      | some files =>
          refine Or.inr ⟨files, fs, rfl, ?_⟩
          dsimp only at h ⊢
          cases hacq : σ.writePool.acquire with
          | none => exact Or.inl ⟨rfl, rfl⟩
          | some found =>
              obtain ⟨stage, writePool⟩ := found
              rw [hacq] at h
              dsimp only at h ⊢
              cases hres : reserveHead cfg
                  { σ with storeSeq := σ.storeSeq + 1, fs := fs, writePool := writePool }
                  (min size cfg.tiers.ramHead) with
              | mk region σ₁ =>
                  rw [hres] at h
                  dsimp only at h ⊢
                  split_ifs at h ⊢ with hram
                  obtain ⟨hpos, hssd, rfl⟩ := hram
                  exact Or.inr ⟨stage, writePool, σ₁, rfl, hpos, hssd, hres, rfl⟩

/-- What staging keeps of a handle: everything but the fill and flush counters. -/
structure SameHandle (h h' : StoreHandle) : Prop where
  digest : h'.digest = h.digest
  layout : h'.layout = h.layout
  ssd : h'.ssd = h.ssd
  hdd : h'.hdd = h.hdd
  head : h'.head = h.head
  stage : h'.stage = h.stage
  off : h'.off = h.off
  body : h'.body = h.body

theorem SameHandle.refl (h : StoreHandle) : SameHandle h h :=
  ⟨rfl, rfl, rfl, rfl, rfl, rfl, rfl, rfl⟩

theorem SameHandle.trans {h h' h'' : StoreHandle} (a : SameHandle h h') (b : SameHandle h' h'') :
    SameHandle h h'' where
  digest := b.digest.trans a.digest
  layout := b.layout.trans a.layout
  ssd := b.ssd.trans a.ssd
  hdd := b.hdd.trans a.hdd
  head := b.head.trans a.head
  stage := b.stage.trans a.stage
  off := b.off.trans a.off
  body := b.body.trans a.body

theorem flush_block_same (w : Staging) (n : Nat) :
    SameHandle w.handle (flushBlock cfg faults w n).2.handle := by
  unfold flushBlock
  split
  · exact SameHandle.refl _
  · split
    · exact SameHandle.refl _
    · exact ⟨rfl, rfl, rfl, rfl, rfl, rfl, rfl, rfl⟩

/-- The invariant rule of the staging loop, for properties that hold at every point of it. -/
theorem stage_loop_rule {P : Staging → Prop} {chunk : Nat → UInt8}
    (hcopy : ∀ w pos take, P w → P (w.copyIn chunk pos take))
    (hflush : ∀ w, P w → P (flushBlock cfg faults w cfg.ioChunk).2)
    (fuel pos remaining : Nat) {w : Staging} (hw : P w) :
    P (stageLoop cfg faults chunk fuel pos remaining w).2 := by
  induction fuel generalizing pos remaining w with
  | zero => exact hw
  | succ fuel ih =>
      rw [stageLoop]
      split_ifs
      · exact hw
      · have hnext := hcopy w pos (min remaining (cfg.ioChunk - w.handle.stageFill)) hw
        dsimp only
        split_ifs
        · have hdone := hflush _ hnext
          split
          · rename_i w' heq
            rwa [heq] at hdone
          · rename_i w' heq
            rw [heq] at hdone
            exact ih _ _ hdone
        · exact ih _ _ hnext

theorem stage_loop_same (cfg : Config) (faults : Faults) (chunk : Nat → UInt8)
    (fuel pos remaining : Nat) (w : Staging) :
    SameHandle w.handle (stageLoop cfg faults chunk fuel pos remaining w).2.handle := by
  refine stage_loop_rule (P := fun w' => SameHandle w.handle w'.handle) ?_ ?_ _ _ _
    (SameHandle.refl _)
  · intro w' pos take h
    exact h.trans ⟨rfl, rfl, rfl, rfl, rfl, rfl, rfl, rfl⟩
  · intro w' h
    exact h.trans (flush_block_same w' _)

theorem flush_tail_same (cfg : Config) (faults : Faults) (w : Staging) :
    SameHandle w.handle (flushTail cfg faults w).2.handle := by
  unfold flushTail
  split_ifs
  · exact flush_block_same (w.zeroTail _) _
  · exact SameHandle.refl _

theorem flush_block_failed (w : Staging) (n : Nat) :
    (flushBlock cfg faults w n).2.handle.failed = w.handle.failed := by
  unfold flushBlock
  split
  · rfl
  · split <;> rfl

theorem stage_loop_failed (chunk : Nat → UInt8) (fuel pos remaining : Nat) (w : Staging) :
    (stageLoop cfg faults chunk fuel pos remaining w).2.handle.failed = w.handle.failed :=
  stage_loop_rule (P := fun w' => w'.handle.failed = w.handle.failed)
    (fun _ _ _ h => h) (fun w' h => (flush_block_failed w' _).trans h) _ _ _ rfl

theorem flush_tail_failed (w : Staging) :
    (flushTail cfg faults w).2.handle.failed = w.handle.failed := by
  unfold flushTail
  split_ifs
  · exact flush_block_failed _ _
  · rfl

theorem SameHandle.spoil {h : StoreHandle} {w : Staging} (hs : SameHandle h w.handle) :
    SameHandle h w.spoil.handle :=
  hs.trans ⟨rfl, rfl, rfl, rfl, rfl, rfl, rfl, rfl⟩

/-- Appending a chunk to the bytes a handle has taken. -/
def advance (h : StoreHandle) (chunk : ByteView) : StoreHandle :=
  { h with off := h.off + chunk.size, body := h.body.append chunk }

/-- Filling the head writes to the head pool only. -/
theorem fill_head_eq (σ : State) (h : StoreHandle) (chunk : ByteView) :
    σ.fillHead h chunk = { σ with ramBytes := (σ.fillHead h chunk).ramBytes } := by
  unfold fillHead
  split
  · rfl
  · dsimp only
    split_ifs <;> rfl

/-- The four ends of `write`: refused, RAM-only, a flush failed, or staged. -/
theorem write_cases (cfg : Config) (σ : State) (id : Nat) (chunk : ByteView) (faults : Faults) :
    (∃ e, write cfg σ id chunk faults = (.error e, σ) ∧
      ∀ h, σ.handles.lookup id = some h → h.layout.size < h.off + chunk.size) ∨
    ∃ h, σ.handles.lookup id = some h ∧ h.off + chunk.size ≤ h.layout.size ∧
      (h.layout.ssdBytes = 0 ∧ h.layout.hddBytes = 0 ∧ write cfg σ id chunk faults =
          (.ok (), { σ.fillHead h chunk with
            handles := σ.handles.insert id (advance h chunk) }) ∨
        ¬ (h.layout.ssdBytes = 0 ∧ h.layout.hddBytes = 0) ∧
        ∃ ok w, stageLoop cfg faults chunk.data (chunk.size + 2) 0 chunk.size
            ⟨h, σ.stageBytes h.stage, σ.fs⟩ = (ok, w) ∧
          (ok = false ∧ write cfg σ id chunk faults = (.error .ioError,
              (σ.fillHead h chunk).putStaging id w.spoil) ∨
            ok = true ∧ write cfg σ id chunk faults = (.ok (),
              (σ.fillHead h chunk).putStaging id
              { w with handle := advance w.handle chunk }))) := by
  unfold write
  cases hh : σ.handles.lookup id with
  | none => exact Or.inl ⟨_, rfl, fun _ hnone => absurd hnone (by simp)⟩
  | some h =>
      have h1 : (σ.fillHead h chunk).handles = σ.handles := by rw [fill_head_eq]
      have h2 : (σ.fillHead h chunk).stageBytes = σ.stageBytes := by rw [fill_head_eq]
      have h3 : (σ.fillHead h chunk).fs = σ.fs := by rw [fill_head_eq]
      dsimp only
      split_ifs with hsize hram
      · exact Or.inl ⟨_, rfl, fun _ hsome => Option.some.inj hsome ▸ hsize⟩
      · refine Or.inr ⟨h, rfl, by omega, Or.inl ⟨hram.1, hram.2, ?_⟩⟩
        rw [h1]
        rfl
      · refine Or.inr ⟨h, rfl, by omega, Or.inr ⟨hram, ?_⟩⟩
        rw [h2, h3]
        cases hloop : stageLoop cfg faults chunk.data (chunk.size + 2) 0 chunk.size
            ⟨h, σ.stageBytes h.stage, σ.fs⟩ with
        | mk ok w =>
            refine ⟨ok, w, rfl, ?_⟩
            cases ok with
            | false => exact Or.inl ⟨rfl, rfl⟩
            | true => exact Or.inr ⟨rfl, rfl⟩

/-- The two ends of `abort`. -/
theorem abort_cases (cfg : Config) (σ : State) (id : Nat) (faults : Faults) :
    σ.handles.lookup id = none ∧ abort cfg σ id faults = σ ∨
    ∃ h, σ.handles.lookup id = some h ∧
      (h.head = none ∧ abort cfg σ id faults =
          { σ with
            writePool := σ.writePool.release h.stage
            fs := unlinkFiles cfg σ.fs faults h.digest h.layout (some id)
            handles := σ.handles.erase id } ∨
        ∃ r, h.head = some r ∧ abort cfg σ id faults =
          { σ.deallocate r with
            writePool := σ.writePool.release h.stage
            fs := unlinkFiles cfg σ.fs faults h.digest h.layout (some id)
            handles := σ.handles.erase id }) := by
  unfold abort
  cases hh : σ.handles.lookup id with
  | none => exact Or.inl ⟨rfl, rfl⟩
  | some h =>
      refine Or.inr ⟨h, rfl, ?_⟩
      cases hr : h.head with
      | none => exact Or.inl ⟨rfl, by simp only [hr]⟩
      | some r => exact Or.inr ⟨r, rfl, by simp only [hr]; rfl⟩

/-- Where `commit` can end: refused, a flush failed, the version check failed, a rename failed, or
published. -/
theorem commit_cases (cfg : Config) (σ : State) (id flags expiry cas : Nat) (faults : Faults) :
    (∃ e, commit cfg σ id flags expiry cas faults = (.error e, σ) ∧ e ≠ .casMismatch ∧
      ∀ h, σ.handles.lookup id = some h → h.off ≠ h.layout.size) ∨
    ∃ h ok w, σ.handles.lookup id = some h ∧ h.off = h.layout.size ∧
      flushTail cfg faults ⟨h, σ.stageBytes h.stage, σ.fs⟩ = (ok, w) ∧
      (ok = false ∧ commit cfg σ id flags expiry cas faults =
          (.error .ioError, σ.putStaging id w.spoil) ∨
      ok = true ∧
        (casMismatch (σ.index.lookup h.digest) σ.now cas = true ∧
          commit cfg σ id flags expiry cas faults = (.error .casMismatch, σ.putStaging id w) ∨
        casMismatch (σ.index.lookup h.digest) σ.now cas = false ∧
        ∃ published fs, publishFiles cfg w.fs faults h.digest h.layout id = (published, fs) ∧
          (published = false ∧ commit cfg σ id flags expiry cas faults =
              (.error .ioError, { σ.putStaging id w.spoil with fs := fs }) ∨
          published = true ∧ commit cfg σ id flags expiry cas faults = (.ok (),
              enforceObjectBound cfg
                (install (retireHead { σ.putStaging id w with fs := fs } h.digest
                  (σ.index.lookup h.digest)) id w.handle flags expiry
                  (σ.index.lookup h.digest).isNone) faults)))) := by
  unfold commit
  cases hh : σ.handles.lookup id with
  | none => exact Or.inl ⟨_, rfl, by simp, fun _ hnone => absurd hnone (by simp)⟩
  | some h =>
      dsimp only
      split_ifs with hoff
      · exact Or.inl ⟨_, rfl, by simp, fun _ hsome => Option.some.inj hsome ▸ hoff⟩
      · rw [not_not] at hoff
        cases hflush : flushTail cfg faults ⟨h, σ.stageBytes h.stage, σ.fs⟩ with
        | mk ok w =>
            have hsame := flush_tail_same cfg faults ⟨h, σ.stageBytes h.stage, σ.fs⟩
            rw [hflush] at hsame
            refine Or.inr ⟨h, ok, w, rfl, hoff, hflush, ?_⟩
            cases ok with
            | false => exact Or.inl ⟨rfl, rfl⟩
            | true =>
                refine Or.inr ⟨rfl, ?_⟩
                have hdigest : w.handle.digest = h.digest := hsame.digest
                have hlayout : w.handle.layout = h.layout := hsame.layout
                simp only [publishVersion, hdigest, hlayout, putStaging]
                cases hcas : casMismatch (σ.index.lookup h.digest) σ.now cas with
                | true => exact Or.inl ⟨rfl, rfl⟩
                | false =>
                    refine Or.inr ⟨rfl, ?_⟩
                    cases hpub : publishFiles cfg w.fs faults h.digest h.layout id with
                    | mk published fs =>
                        refine ⟨published, fs, rfl, ?_⟩
                        cases published with
                        | false =>
                            refine Or.inl ⟨rfl, ?_⟩
                            rw [Table.insert_insert, ← hdigest, ← hlayout]
                            rfl
                        | true => exact Or.inr ⟨rfl, rfl⟩

/-! ## Steps that leave the stored objects alone -/

/-- The objects, their files and the open stores are the same. -/
structure SameStore (σ σ' : State) : Prop where
  index : σ'.index = σ.index
  ramBytes : σ'.ramBytes = σ.ramBytes
  writePool : σ'.writePool = σ.writePool
  stageBytes : σ'.stageBytes = σ.stageBytes
  fs : σ'.fs = σ.fs
  storeSeq : σ'.storeSeq = σ.storeSeq
  etagSeq : σ'.etagSeq = σ.etagSeq
  anyTtl : σ'.anyTtl = σ.anyTtl
  handles : σ'.handles = σ.handles
  history : σ'.history = σ.history

theorem pin_head_same (σ : State) (d : Digest) : SameStore σ (σ.pinHead d).2 := by
  unfold pinHead
  split
  · constructor <;> rfl
  · dsimp only
    split <;> constructor <;> rfl

theorem unpin_head_same (σ : State) (pin : Nat) : SameStore σ (σ.unpinHead pin) := by
  unfold unpinHead
  split
  · constructor <;> rfl
  · dsimp only
    split
    · constructor <;> rfl
    · split_ifs <;> constructor <;> rfl

theorem open_snapshot_same (cfg : Config) (σ : State) (d : Digest) (faults : Faults) :
    SameStore σ (openSnapshot cfg σ d faults).2 := by
  unfold openSnapshot
  split
  · constructor <;> rfl
  · split_ifs
    · constructor <;> rfl
    · dsimp only
      split
      · constructor <;> rfl
      · split <;> constructor <;> rfl

theorem quiet_same (cfg : Config) (σ : State) {op : Op} (hop : op.Quiet) :
    SameStore σ (σ.apply cfg op) := by
  cases op with
  | reapScan =>
      simp only [apply, reapScan]
      split_ifs <;> constructor <;> rfl
  | touch d => constructor <;> rfl
  | pinHead d => exact pin_head_same σ d
  | unpinHead pin => exact unpin_head_same σ pin
  | openSnapshot d faults => exact open_snapshot_same cfg σ d faults
  | clock now => constructor <;> rfl
  | _ => exact absurd hop id

/-- Readers set visited bits, and take and give back pins. -/
structure Readers (σ : State) (op : Op) (σ' : State) : Prop where
  policy : σ'.policy = σ.policy ∨ ∃ d, σ'.policy = σ.policy.touch d
  objectPolicy : σ'.objectPolicy = σ.objectPolicy ∨ ∃ d, σ'.objectPolicy = σ.objectPolicy.touch d
  held : σ'.held = σ.held ∧ σ'.pinSeq = σ.pinSeq ∨
    (∃ r, σ'.held = σ.held.insert σ.pinSeq r ∧ σ'.pinSeq = σ.pinSeq + 1) ∨
    ∃ pin, σ'.held = σ.held.erase pin ∧ σ'.pinSeq = σ.pinSeq
  now : (∀ now, op ≠ .clock now) → σ'.now = σ.now

theorem quiet_readers (cfg : Config) (σ : State) {op : Op} (hop : op.Quiet) :
    Readers σ op (σ.apply cfg op) := by
  have hidle : Readers σ op σ := ⟨Or.inl rfl, Or.inl rfl, Or.inl ⟨rfl, rfl⟩, fun _ => rfl⟩
  cases op with
  | reapScan =>
      simp only [apply, reapScan]
      split_ifs
      · exact ⟨Or.inl rfl, Or.inl rfl, Or.inl ⟨rfl, rfl⟩, fun _ => rfl⟩
      · exact hidle
  | touch d => exact ⟨Or.inr ⟨d, rfl⟩, Or.inr ⟨d, rfl⟩, Or.inl ⟨rfl, rfl⟩, fun _ => rfl⟩
  | pinHead d =>
      simp only [apply, pinHead]
      split
      · exact hidle
      · split
        · exact ⟨Or.inl rfl, Or.inr ⟨d, rfl⟩, Or.inl ⟨rfl, rfl⟩, fun _ => rfl⟩
        · exact ⟨Or.inr ⟨d, rfl⟩, Or.inr ⟨d, rfl⟩, Or.inr (Or.inl ⟨_, rfl, rfl⟩), fun _ => rfl⟩
  | unpinHead pin =>
      have hback : ∀ σ', σ'.policy = σ.policy → σ'.objectPolicy = σ.objectPolicy →
          σ'.held = σ.held.erase pin → σ'.pinSeq = σ.pinSeq → σ'.now = σ.now →
          Readers σ (.unpinHead pin) σ' :=
        fun _ h₁ h₂ h₃ h₄ h₅ => ⟨Or.inl h₁, Or.inl h₂, Or.inr (Or.inr ⟨pin, h₃, h₄⟩), fun _ => h₅⟩
      simp only [apply, unpinHead]
      split
      · exact hidle
      · split
        · exact hback _ rfl rfl rfl rfl rfl
        · split_ifs <;> exact hback _ rfl rfl rfl rfl rfl
  | openSnapshot d faults =>
      have htouch : Readers σ (.openSnapshot d faults)
          { σ with objectPolicy := σ.objectPolicy.touch d } :=
        ⟨Or.inl rfl, Or.inr ⟨d, rfl⟩, Or.inl ⟨rfl, rfl⟩, fun _ => rfl⟩
      simp only [apply, openSnapshot]
      split
      · exact hidle
      · split_ifs
        · exact hidle
        · split
          · exact htouch
          · split
            · exact htouch
            · exact ⟨Or.inr ⟨d, rfl⟩, Or.inr ⟨d, rfl⟩, Or.inr (Or.inl ⟨_, rfl, rfl⟩), fun _ => rfl⟩
  | clock now =>
      exact ⟨Or.inl rfl, Or.inl rfl, Or.inl ⟨rfl, rfl⟩, fun hclock => absurd rfl (hclock now)⟩
  | _ => exact absurd hop id

end State

end GoblinStore
