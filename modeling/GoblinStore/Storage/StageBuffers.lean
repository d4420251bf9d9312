import GoblinStore.Storage.Changes

/-!
# The staging buffers of open stores

Every open store holds its own buffer of the write pool: no two handles share one, and none of them
is in the pool's free list. A flush therefore never sees bytes staged by another store.
-/

namespace GoblinStore

open GoblinStore.Lib GoblinStore.Core

/-- The buffers that handles hold are distinct and not free. -/
structure StageBuffers (writePool : BlockPool) (handles : Table Nat StoreHandle) : Prop where
  nodup : writePool.free.Nodup
  used : ∀ id h, handles.lookup id = some h → h.stage ∉ writePool.free
  distinct : ∀ id id' h h', handles.lookup id = some h → handles.lookup id' = some h' →
    h.stage = h'.stage → id = id'

namespace StageBuffers

variable {writePool : BlockPool} {handles : Table Nat StoreHandle} {id : Nat}

/-- A new handle takes the buffer on top of the free list. -/
theorem acquire (h : StageBuffers writePool handles) {stage : Nat} {rest : BlockPool}
    (hacq : writePool.acquire = some (stage, rest)) (h₀ : StoreHandle) (hstage : h₀.stage = stage) :
    StageBuffers rest (handles.insert id h₀) := by
  obtain ⟨last, hlast, heq⟩ := Option.map_eq_some_iff.1 hacq
  obtain ⟨rfl, rfl⟩ := Prod.mk.inj heq
  have hsplit := List.dropLast_append_getLast? _ hlast
  have hnodup := h.nodup
  rw [← hsplit, List.nodup_append] at hnodup
  have hsub : ∀ s, s ∈ writePool.free.dropLast → s ∈ writePool.free :=
    fun s hs => List.mem_of_mem_dropLast hs
  have hnot : last ∉ writePool.free.dropLast := fun hmem =>
    hnodup.2.2 last hmem last (List.mem_singleton.2 rfl) rfl
  -- the buffer on top was in no handle
  have htop : ∀ i h', handles.lookup i = some h' → h'.stage ≠ last := by
    rintro i h' hh' rfl
    refine h.used i h' hh' ?_
    rw [← hsplit]
    exact List.mem_append_right _ (List.mem_singleton.2 rfl)
  refine ⟨hnodup.1, fun i h' hh' => ?_, fun i j h₁ h₂ hh₁ hh₂ hsame => ?_⟩
  · rcases Table.lookup_insert_some hh' with ⟨-, rfl⟩ | ⟨-, hold⟩
    · exact hstage ▸ hnot
    · exact fun hmem => h.used i h' hold (hsub _ hmem)
  · rcases Table.lookup_insert_some hh₁ with ⟨rfl, rfl⟩ | ⟨-, hold₁⟩ <;>
      rcases Table.lookup_insert_some hh₂ with ⟨rfl, rfl⟩ | ⟨-, hold₂⟩
    · rfl
    · exact absurd (hsame.symm.trans hstage) (htop j h₂ hold₂)
    · exact absurd (hsame.trans hstage) (htop i h₁ hold₁)
    · exact h.distinct i j h₁ h₂ hold₁ hold₂ hsame

/-- A handle that goes returns its buffer. -/
theorem release (h : StageBuffers writePool handles) {h₀ : StoreHandle}
    (hh : handles.lookup id = some h₀) :
    StageBuffers (writePool.release h₀.stage) (handles.erase id) where
  nodup := by
    rw [BlockPool.release, List.nodup_append]
    refine ⟨h.nodup, List.nodup_singleton _, fun s hs t ht heq => ?_⟩
    rw [List.mem_singleton] at ht
    exact h.used id h₀ hh (ht ▸ heq ▸ hs)
  used i h' hh' := by
    obtain ⟨hi, hold⟩ := Table.lookup_erase_some hh'
    simp only [BlockPool.release, List.mem_append, List.mem_singleton, not_or]
    exact ⟨h.used i h' hold, fun hsame => hi (h.distinct i id h' h₀ hold hh hsame)⟩
  distinct i j h₁ h₂ hh₁ hh₂ hsame :=
    h.distinct i j h₁ h₂ (Table.lookup_erase_some hh₁).2 (Table.lookup_erase_some hh₂).2 hsame

/-- Rewriting a handle that keeps its buffer. -/
theorem put (h : StageBuffers writePool handles) {h₀ h₁ : StoreHandle}
    (hh : handles.lookup id = some h₀) (hstage : h₁.stage = h₀.stage) :
    StageBuffers writePool (handles.insert id h₁) := by
  -- the new table holds the buffers of the old one
  have hold : ∀ i h', (handles.insert id h₁).lookup i = some h' →
      ∃ h'', handles.lookup i = some h'' ∧ h'.stage = h''.stage := by
    intro i h' hh'
    rcases Table.lookup_insert_some hh' with ⟨rfl, rfl⟩ | ⟨-, hold⟩
    · exact ⟨h₀, hh, hstage⟩
    · exact ⟨h', hold, rfl⟩
  refine ⟨h.nodup, fun i h' hh' => ?_, fun i j h₂ h₃ hh₂ hh₃ hsame => ?_⟩
  · obtain ⟨h'', hh'', heq⟩ := hold i h' hh'
    exact heq ▸ h.used i h'' hh''
  · obtain ⟨k₂, hk₂, heq₂⟩ := hold i h₂ hh₂
    obtain ⟨k₃, hk₃, heq₃⟩ := hold j h₃ hh₃
    exact h.distinct i j k₂ k₃ hk₂ hk₃ (by rw [← heq₂, ← heq₃, hsame])

end StageBuffers

/-! ## What the operations do to the pool and the open stores -/

/-- The steps that open, fill or close no store. -/
def Op.NoStore : Op → Prop
  | .beginStore .. | .write .. | .commit .. | .abort .. => False
  | _ => True

namespace State

variable {cfg : Config} {σ : State} {faults : Faults}

/-- The write pool and the open stores are the same. -/
def SameStages (σ σ' : State) : Prop := σ'.writePool = σ.writePool ∧ σ'.handles = σ.handles

theorem SameStore.stages {σ' : State} (h : SameStore σ σ') : SameStages σ σ' :=
  ⟨h.writePool, h.handles⟩

/-- `begin_store` takes a buffer for the new handle; a failure puts it back. -/
theorem begin_store_stages (cfg : Config) (σ : State) (d : Digest) (size : Nat) (faults : Faults) :
    (∃ e, (beginStore cfg σ d size faults).1 = .error e ∧
      SameStages σ (beginStore cfg σ d size faults).2) ∨
    ∃ h₀ : StoreHandle, (beginStore cfg σ d size faults).1 = .ok σ.storeSeq ∧
      σ.writePool.acquire = some (h₀.stage, (beginStore cfg σ d size faults).2.writePool) ∧
      (beginStore cfg σ d size faults).2.handles = σ.handles.insert σ.storeSeq h₀ ∧
      h₀.digest = d := by
  -- what is left of the pool while heads are evicted
  let P : State → Prop := fun σ' => ∃ stage, σ.writePool.acquire = some (stage, σ'.writePool) ∧
    σ'.handles = σ.handles
  have hevict : ∀ σ' victim policy, P σ' →
      P (evictHead cfg { σ' with policy := policy } victim) := by
    rintro σ' victim policy ⟨stage, hacq, hhandles⟩
    obtain ⟨hframe, -⟩ := evict_head_frame cfg { σ' with policy := policy } victim
    refine ⟨stage, ?_, hframe.handles.trans hhandles⟩
    rw [hframe.writePool]
    exact hacq
  rcases @begin_store_cases cfg P (fun σ' policy hP _ => hP)
      (fun σ' victim policy hP _ => hevict σ' victim policy hP) σ d size faults
      (fun _ _ _ stage writePool _ hacq => ⟨stage, hacq, rfl⟩) with
    ⟨fs, -, heq⟩ | ⟨ssd, hdd, fs, -, heq | ⟨stage, writePool, hacq, ⟨σ₁, hP, heq⟩ |
      ⟨σ₁, hP, -, heq⟩ | ⟨σ₁, r, ram, hP, -, -, heq⟩⟩⟩ <;> rw [heq]
  · exact Or.inl ⟨_, rfl, rfl, rfl⟩
  · exact Or.inl ⟨_, rfl, rfl, rfl⟩
  all_goals
    obtain ⟨stage', hacq', hhandles⟩ := hP
    have hsame := hacq
    rw [hacq', Option.some.injEq, Prod.mk.injEq] at hsame
    obtain ⟨rfl, hpool⟩ := hsame
  · refine Or.inl ⟨_, rfl, ?_, hhandles⟩
    show σ₁.writePool.release stage' = σ.writePool
    exact release_acquire hacq'
  · exact Or.inr ⟨⟨d, cfg.layout size, ssd, hdd, none, stage', 0, 0, 0, ByteView.empty, false⟩, rfl,
      hacq', congrArg (Table.insert · σ.storeSeq _) hhandles, rfl⟩
  · exact Or.inr ⟨⟨d, cfg.layout size, ssd, hdd, some r, stage', 0, 0, 0, ByteView.empty, false⟩,
      rfl, hacq', congrArg (Table.insert · σ.storeSeq _) hhandles, rfl⟩

/-- A write leaves the buffers where they are. -/
theorem write_stages (cfg : Config) (σ : State) (id : Nat) (chunk : ByteView) (faults : Faults) :
    (write cfg σ id chunk faults).2.writePool = σ.writePool ∧
    ((write cfg σ id chunk faults).2.handles = σ.handles ∨
      ∃ h₀ h₁ : StoreHandle, σ.handles.lookup id = some h₀ ∧ h₁.stage = h₀.stage ∧
        (write cfg σ id chunk faults).2.handles = σ.handles.insert id h₁) := by
  rcases write_put σ id chunk faults with heq | ⟨h₀, hh, hput⟩
  · rw [heq]
    exact ⟨rfl, Or.inl rfl⟩
  · obtain ⟨w, hkept, -, -, heq⟩ := hput.same
    rw [heq]
    exact ⟨rfl, Or.inr ⟨h₀, w.handle, hh, hkept.stage, rfl⟩⟩

/-- An aborted handle gives its buffer back. -/
theorem abort_stages (cfg : Config) (σ : State) (id : Nat) (faults : Faults) :
    σ.handles.lookup id = none ∧ abort cfg σ id faults = σ ∨
    ∃ h₀, σ.handles.lookup id = some h₀ ∧
      (abort cfg σ id faults).writePool = σ.writePool.release h₀.stage ∧
      (abort cfg σ id faults).handles = σ.handles.erase id := by
  rcases abort_cases cfg σ id faults with hnone | ⟨h₀, hh, ⟨-, heq⟩ | ⟨r, -, heq⟩⟩
  · exact Or.inl hnone
  all_goals
    rw [heq]
    exact Or.inr ⟨h₀, hh, rfl, rfl⟩

/-- A commit gives the buffer back exactly when it publishes. -/
theorem commit_stages (cfg : Config) (σ : State) (id flags expiry cas : Nat) (faults : Faults) :
    (∃ e, (commit cfg σ id flags expiry cas faults).1 = .error e ∧
      (commit cfg σ id flags expiry cas faults).2.writePool = σ.writePool ∧
      ((commit cfg σ id flags expiry cas faults).2.handles = σ.handles ∨
        ∃ h₀ h₁ : StoreHandle, σ.handles.lookup id = some h₀ ∧ h₁.stage = h₀.stage ∧
          (commit cfg σ id flags expiry cas faults).2.handles = σ.handles.insert id h₁)) ∨
    ∃ h₀, (commit cfg σ id flags expiry cas faults).1 = .ok () ∧ σ.handles.lookup id = some h₀ ∧
      (commit cfg σ id flags expiry cas faults).2.writePool = σ.writePool.release h₀.stage ∧
      (commit cfg σ id flags expiry cas faults).2.handles = σ.handles.erase id := by
  rcases commit_cases cfg σ id flags expiry cas faults with
    ⟨e, heq, -⟩ | ⟨h₀, ok, w, hh, -, hflush, hends⟩
  · rw [heq]
    exact Or.inl ⟨e, rfl, rfl, Or.inl rfl⟩
  have hsame := flush_tail_same cfg faults ⟨h₀, σ.stageBytes h₀.stage, σ.fs⟩
  rw [hflush] at hsame
  rcases hends with ⟨-, heq⟩ | ⟨-, ⟨-, heq⟩ | ⟨-, published, fs, -, ⟨-, heq⟩ | ⟨-, heq⟩⟩⟩ <;>
    rw [heq]
  · exact Or.inl ⟨_, rfl, rfl, Or.inr ⟨h₀, w.spoil.handle, hh, hsame.stage, rfl⟩⟩
  · exact Or.inl ⟨_, rfl, rfl, Or.inr ⟨h₀, w.handle, hh, hsame.stage, rfl⟩⟩
  · exact Or.inl ⟨_, rfl, rfl, Or.inr ⟨h₀, w.spoil.handle, hh, hsame.stage, rfl⟩⟩
  · have hframe := enforce_object_bound_frame cfg
      (install (retireHead { σ.putStaging id w with fs := fs } h₀.digest
      (σ.index.lookup h₀.digest)) id
        w.handle flags expiry (σ.index.lookup h₀.digest).isNone) faults
    refine Or.inr ⟨h₀, rfl, hh, hframe.writePool.trans ?_, hframe.handles.trans ?_⟩
    · rw [retire_head_eq]
      exact congrArg σ.writePool.release hsame.stage
    · rw [retire_head_eq]
      exact Table.erase_insert σ.handles id w.handle

theorem no_store_stages (cfg : Config) (σ : State) {op : Op} (hop : op.NoStore) :
    SameStages σ (σ.apply cfg op) := by
  cases op with
  | beginStore d size faults => exact hop.elim
  | write id chunk faults => exact hop.elim
  | commit id flags expiry cas faults => exact hop.elim
  | abort id faults => exact hop.elim
  | remove d faults =>
      simp only [apply, remove]
      split
      · exact ⟨rfl, rfl⟩
      · have hframe := drop_object_frame cfg σ d faults (.removed d)
        exact ⟨hframe.writePool, hframe.handles⟩
  | reapNext d faults =>
      simp only [apply, reapNext]
      split_ifs
      · have hframe := drop_object_frame cfg
          { σ with reaping := σ.reaping.erase d } d faults (.reaped d)
        exact ⟨hframe.writePool, hframe.handles⟩
      · exact ⟨rfl, rfl⟩
  | touchTtl d expiry =>
      simp only [apply, touchTtl]
      split
      · exact ⟨rfl, rfl⟩
      · exact ⟨rfl, rfl⟩
  | _ =>
      refine SameStore.stages ?_
      exact quiet_same cfg σ trivial

end State

/-- The buffers of the open stores of a state. -/
def StageInv (σ : State) : Prop := StageBuffers σ.writePool σ.handles

namespace StageInv

variable {cfg : Config} {σ : State} {faults : Faults}

theorem init (cfg : Config) : StageInv (State.init cfg) where
  nodup := List.nodup_reverse.2 List.nodup_range
  used := by simp [State.init]
  distinct := by simp [State.init]

theorem change {op : Op} {σ' : State} (h : StageInv σ) (hc : Change cfg σ op σ') : StageInv σ' := by
  unfold StageInv
  cases hc with
  | quiet hop =>
      have hsame := State.quiet_same cfg σ hop
      rw [hsame.writePool, hsame.handles]
      exact h
  | settle => exact h
  | unhead =>
      rw [State.free_head_region_eq]
      exact h
  | forget =>
      rw [State.free_head_eq]
      exact h
  | retime => exact h
  | opened => exact h
  | refused => exact h
  | started _ hacq => exact StageBuffers.acquire h hacq _ rfl
  | put hh hput =>
      obtain ⟨w, hkept, -, -, heq⟩ := hput.same
      rw [heq]
      exact StageBuffers.put h hh hkept.stage
  | unpublished hh => exact StageBuffers.put h hh rfl
  | installed hh =>
      rw [State.retire_head_eq]
      exact StageBuffers.release h hh
  | closed hh =>
      rw [State.give_back_eq]
      exact StageBuffers.release h hh

theorem apply (h : StageInv σ) (op : Op) : StageInv (σ.apply cfg op) :=
  Change.invariant (fun _ _ h' hc => h'.change hc) h

end StageInv

end GoblinStore
