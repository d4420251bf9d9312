import GoblinStore.Storage.HeadCache
import GoblinStore.Storage.Ledger
import GoblinStore.Storage.S3FifoQueues

/-!
# The bound on the number of objects

Between critical sections the index holds at most `maxObjects` objects. Only a commit of a new
digest adds one, and the loop that follows it finds a victim whenever the index is over the bound,
since the residents of the object policy are the indexed objects and the queues cover the residents.
-/

namespace GoblinStore

open GoblinStore.Lib GoblinStore.Core

namespace Index

theorem size_eq_card (index : Index) : Index.size index = (Table.keySet index).card :=
  (Table.card_key_set index).symm

theorem size_erase_le (index : Index) (d : Digest) :
    Index.size (index.erase d) ≤ Index.size index := by
  rw [size_eq_card, size_eq_card, Table.key_set_erase]
  exact Finset.card_erase_le

/-- Rewriting an entry keeps the size. -/
theorem size_insert_indexed {index : Index} {d : Digest} {m : ObjectMeta}
    (hm : index.lookup d = some m) (m' : ObjectMeta) :
    Index.size (index.insert d m') = Index.size index := by
  rw [size_eq_card, size_eq_card, Table.key_set_insert,
    Finset.insert_eq_of_mem (Table.mem_key_set_iff_lookup.2 ⟨m, hm⟩)]

/-- Entries that fade leave the index no larger. -/
theorem size_fading {l l' : Ledger} (h : Fading l l') :
    Index.size l'.index ≤ Index.size l.index := by
  induction h with
  | refl => exact le_rfl
  | tail _ hlast ih =>
      refine le_trans ?_ ih
      cases hlast with
      | drop d m event hm hd hv => exact size_erase_le _ d
      | unhead d m hm => exact (size_insert_indexed hm _).le

end Index

/-- The index is within the bound and the queues of the object policy cover its residents. -/
structure Bounded (cfg : Config) (σ : State) : Prop where
  queued : σ.objectPolicy.Queued
  size_le : cfg.maxObjects ≠ 0 → Index.size σ.index ≤ cfg.maxObjects

variable {cfg : Config} {σ σ' : State} {op : Op} {faults : Faults}

/-- The loop of `enforce_object_bound` ends because the index is within the bound, not because the
policy has no victim. -/
def State.EndsWithinBound (cfg : Config) (faults : Faults) : Nat → State → Prop
  | 0, _ => False
  | fuel + 1, σ =>
      if cfg.maxObjects ≠ 0 ∧ cfg.maxObjects < Index.size σ.index then
        match σ.objectPolicy.evict with
        | (none, _) => False
        | (some victim, policy) =>
            EndsWithinBound cfg faults fuel
              (dropObject cfg { σ with objectPolicy := policy } victim faults (.evicted victim))
      else True

namespace Residency

/-- The residents of the object policy are the indexed digests. -/
theorem object_residents (h : Residency cfg σ) :
    σ.objectPolicy.residents = Table.keySet σ.index := by
  ext d
  rw [h.objects, Table.mem_key_set_iff_lookup, Option.ne_none_iff_exists']

/-- With nothing to evict the index is empty. -/
theorem index_empty (h : Residency cfg σ) (hq : σ.objectPolicy.Queued)
    (hevict : σ.objectPolicy.evict.1 = none) : Index.size σ.index = 0 := by
  rw [Index.size_eq_card, ← h.object_residents, hq.evict.2 hevict, Finset.card_empty]

end Residency

/-! ## What a step does to the object policy -/

/-- What hits, removals, insertions, and evictions followed by a removal keep is kept by the whole
store. -/
structure PolicyKept (P : S3Fifo → Prop) : Prop where
  touch : ∀ p d, P p → P (p.touch d)
  remove : ∀ p d, P p → P (p.remove d)
  insert : ∀ p d, P p → P (p.insert d)
  evict : ∀ p victim next, p.Queued → P p → p.evict = (some victim, next) → P (next.remove victim)
  idle : ∀ p next, p.Queued → P p → p.evict = (none, next) → P next

theorem queued_kept : PolicyKept S3Fifo.Queued where
  touch _ d h := h.touch d
  remove _ d h := h.remove d
  insert _ d h := h.insert d
  evict _ victim _ h _ hevict := by
    have hnext := h.evict.1
    rw [hevict] at hnext
    exact hnext.remove victim
  idle _ _ h _ hevict := by
    have hnext := h.evict.1
    rwa [hevict] at hnext

namespace PolicyKept

variable {P : S3Fifo → Prop}

theorem change (hP : PolicyKept P) (hres : Residency cfg σ) (hq : σ.objectPolicy.Queued)
    (h : P σ.objectPolicy) (hc : Change cfg σ op σ') : P σ'.objectPolicy := by
  cases hc with
  | quiet hop =>
      rcases (State.quiet_readers cfg σ hop).objectPolicy with heq | ⟨d, heq⟩ <;> rw [heq]
      · exact h
      · exact hP.touch _ d h
  | settle _ _ hobject =>
      rcases hobject with rfl | ⟨victim, hevict, hnone⟩
      · exact h
      · cases victim with
        | none => exact hP.idle _ _ hq h hevict
        | some d =>
            -- a victim of the policy is indexed
            exact absurd (hnone d rfl) ((hres.objects d).1 (S3Fifo.evict_some hevict).1)
  | unhead =>
      rw [State.free_head_region_eq]
      exact h
  | @forget _ d _ _ _ _ _ _ _ _ hobject =>
      rcases hobject with rfl | ⟨evicted, hevict, rfl⟩
      · exact hP.remove _ d h
      · exact hP.evict _ d evicted hq h hevict
  | retime => exact h
  | opened => exact h
  | refused => exact h
  | started => exact h
  | put _ hput =>
      obtain ⟨w, -, -, -, heq⟩ := hput.same
      rw [heq]
      exact h
  | unpublished => exact h
  | installed =>
      rw [State.retire_head_eq]
      simp only [State.install]
      split_ifs
      · exact hP.insert _ _ h
      · exact h
  | closed =>
      rw [State.give_back_eq]
      exact h

theorem apply (hP : PolicyKept P) (hres : Residency cfg σ) (hq : σ.objectPolicy.Queued)
    (h : P σ.objectPolicy) (op : Op) : P (σ.apply cfg op).objectPolicy := by
  let I : State → Prop := fun σ' => Residency cfg σ' ∧ σ'.objectPolicy.Queued ∧ P σ'.objectPolicy
  have hI : ∀ σ₁ σ₂, I σ₁ → Change cfg σ₁ op σ₂ → I σ₂ := fun σ₁ σ₂ hI hc =>
    ⟨hI.1.change hc, queued_kept.change hI.1 hI.2.1 hI.2.1 hc, hP.change hI.1 hI.2.1 hI.2.2 hc⟩
  exact (Change.invariant hI ⟨hres, hq, h⟩).2.2

end PolicyKept

/-! ## The loop -/

namespace Bounded

/-- A drop of the policy's victim leaves the policy and the index in step. -/
theorem drop_victim (hres : Residency cfg σ) (hq : σ.objectPolicy.Queued) {victim : Digest}
    {policy : S3Fifo} (hevict : σ.objectPolicy.evict = (some victim, policy)) :
    Residency cfg (State.dropObject cfg { σ with objectPolicy := policy } victim faults
        (.evicted victim)) ∧
      (State.dropObject cfg { σ with objectPolicy := policy } victim faults
        (.evicted victim)).objectPolicy.Queued := by
  have hc := @State.drop_object_change cfg σ (.abort 0 faults) victim (.evicted victim)
    policy rfl rfl (Or.inr hevict)
  exact ⟨hres.change hc, queued_kept.change hres hq hq hc⟩

/-- The drop of a victim lowers the number of residents. -/
theorem card_drop_victim {victim : Digest} {policy : S3Fifo}
    (hevict : σ.objectPolicy.evict = (some victim, policy)) :
    (State.dropObject cfg { σ with objectPolicy := policy } victim faults
      (.evicted victim)).objectPolicy.residents.card <
      σ.objectPolicy.residents.card := by
  refine lt_of_le_of_lt ?_ (S3Fifo.card_residents_evict hevict)
  rcases @State.drop_object_spec cfg faults { σ with objectPolicy := policy } victim
    (.evicted victim) with
    ⟨-, heq⟩ | ⟨heq, -⟩ <;> rw [heq]
  rw [S3Fifo.residents_remove]
  exact Finset.card_erase_le

/-- The loop runs until the index is within the bound. -/
theorem bound_loop (hres : Residency cfg σ) (hq : σ.objectPolicy.Queued) {fuel : Nat}
    (hfuel : σ.objectPolicy.residents.card < fuel) :
    Bounded cfg (State.boundLoop cfg faults fuel σ) ∧ State.EndsWithinBound cfg faults fuel σ := by
  induction fuel generalizing σ with
  | zero => omega
  | succ fuel ih =>
      rw [State.boundLoop, State.EndsWithinBound]
      split_ifs with hover
      · cases hevict : σ.objectPolicy.evict with
        | mk victim policy =>
            cases victim with
            | none =>
                -- an empty policy means an empty index
                have hempty := hres.index_empty hq (congrArg Prod.fst hevict)
                omega
            | some victim =>
                obtain ⟨hres', hq'⟩ := @drop_victim cfg σ faults hres hq victim policy hevict
                have hcard := @card_drop_victim cfg σ faults victim policy hevict
                exact ih hres' hq' (by omega)
      · exact ⟨⟨hq, fun hmax => by omega⟩, trivial⟩

theorem enforce_object_bound (hres : Residency cfg σ) (hq : σ.objectPolicy.Queued) :
    Bounded cfg (State.enforceObjectBound cfg σ faults) ∧
      State.EndsWithinBound cfg faults (σ.objectPolicy.items.keys.length + 1) σ := by
  refine bound_loop hres hq ?_
  rw [S3Fifo.residents, Table.card_key_set]
  exact Nat.lt_succ_self _

end Bounded

/-- The state in which a commit calls `enforce_object_bound`: the files are renamed to `fs`, the
tail is flushed to `w` and the new version is indexed. -/
def State.published (σ : State) (id : Nat) (w : Staging) (fs : FileSystem) (flags expiry : Nat) :
    State :=
  let old := σ.index.lookup w.handle.digest
  install (retireHead { σ.putStaging id w with fs := fs } w.handle.digest old) id w.handle flags
    expiry old.isNone

namespace Bounded

/-- The published state is in step, whether or not it is over the bound. -/
theorem published (h : Bounded cfg σ) (hres : Residency cfg σ) {id : Nat} {h₀ : StoreHandle}
    {w : State.Staging} (hh : σ.handles.lookup id = some h₀) (hsame : State.SameHandle h₀ w.handle)
    (fs : FileSystem) (flags expiry : Nat) :
    Residency cfg (σ.published id w fs flags expiry) ∧
      (σ.published id w fs flags expiry).objectPolicy.Queued := by
  have hreserved : ∀ i h', (σ.handles.insert id w.handle).lookup i = some h' →
      HeadFits cfg h'.layout.size h'.head := by
    intro i h' hh'
    rcases Table.lookup_insert_some hh' with ⟨-, rfl⟩ | ⟨-, hold⟩
    · rw [hsame.layout, hsame.head]
      exact hres.reserved id h₀ hh
    · exact hres.reserved i h' hold
  have hput : Residency cfg (σ.putStaging id w) := { hres with reserved := hreserved }
  constructor
  · refine hput.installed flags expiry (hreserved id w.handle (Table.lookup_insert_self ..))
      rfl fun i h' hh' => ?_
    rw [State.published, State.retire_head_eq] at hh'
    exact hreserved i h' (Table.lookup_erase_some hh').2
  · simp only [State.published, State.install]
    rw [State.retire_head_eq]
    split_ifs
    · exact h.queued.insert _
    · exact h.queued

theorem commit (h : Bounded cfg σ) (hres : Residency cfg σ) (id flags expiry cas : Nat)
    (faults : Faults) (hmax : cfg.maxObjects ≠ 0) :
    Index.size (State.commit cfg σ id flags expiry cas faults).2.index ≤ cfg.maxObjects := by
  rcases State.commit_cases cfg σ id flags expiry cas faults with ⟨e, heq, -⟩ |
      ⟨h₀, ok, w, hh, -, hflush, ⟨-, heq⟩ | ⟨-, ⟨-, heq⟩ | ⟨-, ok, fs, -, ⟨-, heq⟩ | ⟨-, heq⟩⟩⟩⟩ <;>
      rw [heq]
  · exact h.size_le hmax
  · exact h.size_le hmax
  · exact h.size_le hmax
  · exact h.size_le hmax
  · have hsame := (State.flush_tail_keeps hflush).same
    obtain ⟨hres', hq'⟩ := h.published hres hh hsame fs flags expiry
    have hdone := (@enforce_object_bound cfg _ faults hres' hq').1
    rw [State.published, hsame.digest] at hdone
    exact hdone.size_le hmax

theorem apply (h : Bounded cfg σ) (hres : Residency cfg σ) (op : Op) :
    Bounded cfg (σ.apply cfg op) where
  queued := queued_kept.apply hres h.queued h.queued op
  size_le hmax := by
    rcases State.apply_ledger cfg σ op with hfade | ⟨d, m, expiry, -, hm, heq⟩ |
        ⟨id, flags, expiry, cas, faults, -, rfl, -⟩
    · exact (Index.size_fading hfade).trans (h.size_le hmax)
    · have hindex : (σ.apply cfg op).index = σ.index.insert d { m with expiry := expiry } :=
        congrArg Ledger.index heq
      rw [hindex, Index.size_insert_indexed hm]
      exact h.size_le hmax
    · exact h.commit hres id flags expiry cas faults hmax

end Bounded

theorem bounded_init (cfg : Config) : Bounded cfg (State.init cfg) where
  queued := S3Fifo.queued_create _
  size_le _ := Nat.zero_le _

/-- Every reachable state is in step and within the bound. -/
theorem reachable_bounded (cfg : Config) (ops : List Op) :
    Residency cfg (State.after cfg ops) ∧ Bounded cfg (State.after cfg ops) :=
  invariant_run (I := fun σ => Residency cfg σ ∧ Bounded cfg σ)
    (fun _ op _ h => ⟨Residency.apply h.1 op, h.2.apply h.1 op⟩)
    ⟨Residency.init cfg, bounded_init cfg⟩ (allowed_true (State.apply cfg) (State.init cfg) ops)

/-- Wherever a commit can publish, the loop that follows ends within the bound. -/
def State.CommitsEndWithinBound (cfg : Config) (σ : State) : Prop :=
  ∀ id h w fs flags expiry faults, σ.handles.lookup id = some h →
    flushTail cfg faults ⟨h, σ.stageBytes h.stage, σ.fs⟩ = (true, w) →
    publishFiles cfg w.fs faults h.digest h.layout id = (true, fs) →
    EndsWithinBound cfg faults ((σ.published id w fs flags expiry).objectPolicy.items.keys.length +
    1)
      (σ.published id w fs flags expiry)

/-- After every run the index is within the bound, and no commit can find the policy without a
victim while the index is over it. -/
theorem object_count_bounded (cfg : Config) (ops : List Op) :
    (cfg.maxObjects ≠ 0 → Index.size (State.after cfg ops).index ≤ cfg.maxObjects) ∧
      (State.after cfg ops).CommitsEndWithinBound cfg := by
  obtain ⟨hres, hbounded⟩ := reachable_bounded cfg ops
  refine ⟨hbounded.size_le, ?_⟩
  intro id h w fs flags expiry faults hh hflush hpublish
  have hsame := State.flush_tail_same cfg faults
    ⟨h, (State.after cfg ops).stageBytes h.stage, (State.after cfg ops).fs⟩
  rw [hflush] at hsame
  obtain ⟨hres', hq'⟩ := hbounded.published hres hh hsame fs flags expiry
  exact (Bounded.enforce_object_bound hres' hq').2

end GoblinStore
