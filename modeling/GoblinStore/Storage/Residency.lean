import GoblinStore.Storage.HeadMoves

/-!
# The eviction policies track the index

In every reachable state the head policy's residents are the objects with a resident head, the
object policy's residents are the indexed objects, a head has the length the layout gives it,
and a nonempty object that fits the RAM head has one.
-/

namespace GoblinStore

open GoblinStore.Lib GoblinStore.Core

/-- The policies agree with the index. -/
structure Residency (cfg : Config) (σ : State) : Prop where
  heads : ∀ d, d ∈ σ.policy.residents ↔ headsOf σ.index d ≠ none
  objects : ∀ d, d ∈ σ.objectPolicy.residents ↔ σ.index.lookup d ≠ none
  indexed : ∀ d m, σ.index.lookup d = some m → HeadFits cfg m.size m.head
  reserved : ∀ id h, σ.handles.lookup id = some h → HeadFits cfg h.layout.size h.head

variable {cfg : Config} {σ σ' : State} {op : Op} {d : Digest}

namespace Residency

theorem init (cfg : Config) : Residency cfg (State.init cfg) where
  heads d := by simp [State.init, S3Fifo.residents_create, headsOf]
  objects d := by simp [State.init, S3Fifo.residents_create]
  indexed d m hm := by simp [State.init] at hm
  reserved id h hh := by simp [State.init] at hh

/-- Losing the head of `d`. -/
theorem heads_without (h : Residency cfg σ) {policy : S3Fifo} {index : Index}
    (hpolicy : policy.residents = σ.policy.residents.erase d)
    (hindex : headsOf index = Function.update (headsOf σ.index) d none) :
    ∀ e, e ∈ policy.residents ↔ headsOf index e ≠ none := by
  intro e
  rw [hpolicy, hindex, Finset.mem_erase, h.heads, Function.update_apply]
  split_ifs with he <;> simp [he]

/-- The head policy after `d` has lost its head. -/
theorem without_head (h : Residency cfg σ) {m : ObjectMeta} (hm : σ.index.lookup d = some m) :
    (if m.head.isSome then σ.policy.remove d else σ.policy).residents =
      σ.policy.residents.erase d := by
  split_ifs with hsome
  · exact S3Fifo.residents_remove _ _
  · refine (Finset.erase_eq_of_notMem fun hmem => (h.heads d).1 hmem ?_).symm
    simpa [headsOf, hm] using hsome

/-- A policy that settles keeps its residents: a victim has something to give. -/
theorem settled (h : Residency cfg σ) {policy objectPolicy : S3Fifo}
    (hpolicy : policy = σ.policy ∨ ∃ victim, σ.policy.evict = (victim, policy) ∧
      ∀ d ∈ victim, ∀ m, σ.index.lookup d = some m → m.head = none)
    (hobject : objectPolicy = σ.objectPolicy ∨
      ∃ victim, σ.objectPolicy.evict = (victim, objectPolicy) ∧
      ∀ d ∈ victim, σ.index.lookup d = none) :
    policy.residents = σ.policy.residents ∧ objectPolicy.residents = σ.objectPolicy.residents := by
  constructor
  · rcases hpolicy with rfl | ⟨victim, hevict, hnone⟩
    · rfl
    · cases victim with
      | none => exact S3Fifo.evict_none hevict
      | some d =>
          refine absurd ?_ ((h.heads d).1 (S3Fifo.evict_some hevict).1)
          cases hm : σ.index.lookup d with
          | none => simp [headsOf, hm]
          | some m => simp [headsOf, hm, hnone d rfl m hm]
  · rcases hobject with rfl | ⟨victim, hevict, hnone⟩
    · rfl
    · cases victim with
      | none => exact S3Fifo.evict_none hevict
      | some d => exact absurd (hnone d rfl) ((h.objects d).1 (S3Fifo.evict_some hevict).1)

/-- Overwriting the metadata of an indexed object leaves the keys alone. -/
theorem objects_update (h : Residency cfg σ) {m m' : ObjectMeta} (hm : σ.index.lookup d = some m)
    (e : Digest) :
    e ∈ σ.objectPolicy.residents ↔ (σ.index.insert d m').lookup e ≠ none := by
  rw [h.objects, Table.lookup_insert]
  split_ifs with he
  · simp [he, hm]
  · rfl

/-- Installing a new version in place of the old one. -/
theorem installed (h : Residency cfg σ) {id : Nat} {h₀ : StoreHandle} {fs : FileSystem}
    (flags expiry : Nat) (hfits : HeadFits cfg h₀.layout.size h₀.head)
    (heq : σ' = State.install (State.retireHead { σ with fs := fs } h₀.digest
      (σ.index.lookup h₀.digest)) id h₀ flags expiry (σ.index.lookup h₀.digest).isNone)
    (hreserved : ∀ i h', σ'.handles.lookup i = some h' → HeadFits cfg h'.layout.size h'.head) :
    Residency cfg σ' := by
  have hretire : ∃ ram log pins policy,
      State.retireHead { σ with fs := fs } h₀.digest (σ.index.lookup h₀.digest) =
        { σ with fs := fs, ram := ram, ramLog := log, pins := pins, policy := policy } ∧
      ∀ e, e ∈ policy.residents ↔ e ≠ h₀.digest ∧ headsOf σ.index e ≠ none := by
    unfold State.retireHead
    cases hold : headsOf σ.index h₀.digest with
    | none =>
        rw [show (σ.index.lookup h₀.digest).bind (·.head) = none from hold]
        refine ⟨σ.ram, σ.ramLog, σ.pins, σ.policy, rfl, fun e => ?_⟩
        rw [h.heads]
        constructor
        · intro he
          refine ⟨?_, he⟩
          rintro rfl
          exact he hold
        · exact And.right
    | some r =>
        rw [show (σ.index.lookup h₀.digest).bind (·.head) = some r from hold]
        refine ⟨_, _, _, σ.policy.remove h₀.digest, by dsimp only; rw [State.free_head_region_eq],
          ?_⟩
        intro e
        rw [S3Fifo.residents_remove, Finset.mem_erase, h.heads]
  obtain ⟨ram, log, pins, policy, hstate, hpolicy⟩ := hretire
  rw [hstate] at heq
  subst heq
  refine ⟨fun e => ?_, fun e => ?_, fun e m hm => ?_, hreserved⟩
  · simp only [State.install]
    rw [heads_of_insert, Function.update_apply]
    cases hhead : h₀.head with
    | none =>
        simp only [Option.isSome_none, Bool.false_eq_true, if_false, hpolicy]
        split_ifs with he <;> simp [he]
    | some r =>
        simp only [Option.isSome_some, if_true, S3Fifo.residents_insert, Finset.mem_insert, hpolicy]
        split_ifs with he <;> simp [he]
  · simp only [State.install]
    cases hold : σ.index.lookup h₀.digest with
    | none =>
        rw [Table.lookup_insert]
        simp only [Option.isNone_none, if_true, S3Fifo.residents_insert,
          Finset.mem_insert, h.objects]
        split_ifs with he <;> simp [he]
    | some m =>
        simp only [Option.isNone_some, Bool.false_eq_true, if_false]
        exact h.objects_update hold e
  · rcases Table.lookup_insert_some hm with ⟨-, rfl⟩ | ⟨-, hold⟩
    · exact hfits
    · exact h.indexed e m hold

/-- Every change keeps the residency. -/
theorem change (h : Residency cfg σ) (hc : Change cfg σ op σ') : Residency cfg σ' := by
  have hreserved : ∀ i h', σ'.handles.lookup i = some h' → HeadFits cfg h'.layout.size h'.head := by
    intro i h' hh'
    rcases hc.handle_old hh' with ⟨h₀, hh₀, hkept⟩ | ⟨-, -, d, size, faults, -, -, hlayout, hfits⟩
    · rw [hkept.layout, hkept.head]
      exact h.reserved i h₀ hh₀
    · rw [hlayout, show (cfg.layout size).size = size from compute_layout_size]
      exact hfits
  -- a change that keeps the index and the residents
  have hkeep : σ'.index = σ.index → σ'.policy.residents = σ.policy.residents →
      σ'.objectPolicy.residents = σ.objectPolicy.residents → Residency cfg σ' := by
    intro hindex hpolicy hobject
    refine ⟨?_, ?_, ?_, hreserved⟩
    · rw [hindex, hpolicy]
      exact h.heads
    · rw [hindex, hobject]
      exact h.objects
    · rw [hindex]
      exact h.indexed
  cases hc with
  | quiet hop =>
      have hread := State.quiet_readers cfg σ hop
      refine hkeep (State.quiet_same cfg σ hop).index ?_ ?_
      · rcases hread.policy with heq | ⟨d, heq⟩ <;> rw [heq]
        exact S3Fifo.residents_touch _ _
      · rcases hread.objectPolicy with heq | ⟨d, heq⟩ <;> rw [heq]
        exact S3Fifo.residents_touch _ _
  | settle _ hpolicy hobject =>
      obtain ⟨hheads, hobjects⟩ := h.settled hpolicy hobject
      exact hkeep rfl hheads hobjects
  | @unhead _ victim _ _ policy m r hevict hm hr hsize =>
      rw [State.free_head_region_eq]
      refine ⟨h.heads_without (S3Fifo.evict_some hevict).2 (heads_of_insert _ _ _),
        h.objects_update hm, fun e m' hm' => ?_, h.reserved⟩
      rcases Table.lookup_insert_some hm' with ⟨-, rfl⟩ | ⟨-, hold⟩
      · exact ⟨nofun, fun _ hle => absurd hle (Nat.not_le.2 hsize)⟩
      · exact h.indexed e m' hold
  | @forget _ d m _ policy objectPolicy hm _ _ hpolicy hobject =>
      have hheads : policy.residents = σ.policy.residents.erase d := by
        rcases hpolicy with rfl | ⟨-, -, hevict⟩
        · exact h.without_head hm
        · exact (S3Fifo.evict_some hevict).2
      have hobjects : objectPolicy.residents = σ.objectPolicy.residents.erase d := by
        rcases hobject with rfl | ⟨evicted, hevict, rfl⟩
        · exact S3Fifo.residents_remove _ _
        · rw [S3Fifo.residents_remove, (S3Fifo.evict_some hevict).2, Finset.erase_idem]
      rw [State.free_head_eq]
      refine ⟨h.heads_without hheads (heads_of_erase _ _), fun e => ?_,
        fun e m' hm' => ?_, h.reserved⟩
      · dsimp only
        rw [hobjects, Finset.mem_erase, h.objects, Table.lookup_erase]
        split_ifs with he <;> simp [he]
      · exact h.indexed e m' (Table.lookup_erase_some hm').2
  | @retime d m expiry hm =>
      refine ⟨fun e => ?_, h.objects_update hm, fun e m' hm' => ?_, h.reserved⟩
      · dsimp only
        rw [heads_of_insert, h.heads, Function.update_apply]
        split_ifs with he
        · simp [he, headsOf, hm]
        · rfl
      · rcases Table.lookup_insert_some hm' with ⟨-, rfl⟩ | ⟨-, hold⟩
        · exact h.indexed d m hm
        · exact h.indexed e m' hold
  | opened => exact hkeep rfl rfl rfl
  | refused => exact hkeep rfl rfl rfl
  | started => exact hkeep rfl rfl rfl
  | put _ hput =>
      obtain ⟨w, -, -, -, heq⟩ := hput.same
      exact hkeep (by rw [heq]; rfl) (by rw [heq]; rfl) (by rw [heq]; rfl)
  | unpublished => exact hkeep rfl rfl rfl
  | @installed id flags expiry _ _ h₀ fs hh =>
      exact h.installed flags expiry (h.reserved id h₀ hh) rfl hreserved
  | closed =>
      rw [State.give_back_eq] at hreserved ⊢
      exact { h with reserved := hreserved }

/-- Every step keeps the residency. -/
theorem apply (h : Residency cfg σ) (op : Op) : Residency cfg (σ.apply cfg op) :=
  Change.invariant (fun _ _ h' hc => h'.change hc) h

end Residency

end GoblinStore
