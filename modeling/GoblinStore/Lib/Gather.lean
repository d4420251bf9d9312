import GoblinStore.Lib.Bytes
import Mathlib.Data.List.Perm.Basic

/-!
# Gathering a buffer from transfers

A transfer copies a run of bytes to a place in a buffer. `Awaiting` says of a set of positions that
each of them has its byte or lies in a pending transfer, and that no pending transfer brings a
different byte there. It survives the transfers in whatever order they are performed, and when none
is pending every position has its byte. Conversely it holds if all orders bring the same bytes
(`Awaiting.of_gather`).
-/

namespace GoblinStore.Lib

variable {α : Type*}

/-- A copy of `len` bytes to position `dst`. -/
structure Transfer (α : Type*) where
  dst : Nat
  len : Nat
  data : Nat → α

namespace Transfer

/-- The position is one of those copied to. -/
def Covers (t : Transfer α) (p : Nat) : Prop := t.dst ≤ p ∧ p < t.dst + t.len

/-- The buffer after the copy. -/
def perform (t : Transfer α) (buf : Nat → α) : Nat → α := blit buf t.dst t.len t.data

variable {t : Transfer α} {buf : Nat → α} {p : Nat}

theorem perform_covered (h : t.Covers p) : t.perform buf p = t.data (p - t.dst) :=
  blit_inside h.1 h.2

theorem perform_other (h : ¬ t.Covers p) : t.perform buf p = buf p := by
  refine blit_outside ?_
  unfold Covers at h
  omega

end Transfer

/-- Each position of the window has its byte or waits for a pending transfer that brings it. -/
structure Awaiting (content : Nat → α) (window : Nat → Prop) (buf : Nat → α)
    (pending : List (Transfer α)) : Prop where
  agrees : ∀ t ∈ pending, ∀ p, window p → t.Covers p → t.data (p - t.dst) = content p
  filled : ∀ p, window p → buf p = content p ∨ ∃ t ∈ pending, t.Covers p

namespace Awaiting

variable {content buf : Nat → α} {window : Nat → Prop} {pending rest : List (Transfer α)}
  {t : Transfer α} {p : Nat}

/-- Any pending transfer may be the next to be performed. -/
theorem perform (h : Awaiting content window buf pending) (hperm : pending.Perm (t :: rest)) :
    Awaiting content window (t.perform buf) rest := by
  have hmem : t ∈ pending := hperm.mem_iff.2 List.mem_cons_self
  refine ⟨fun t' ht' => h.agrees t' (hperm.mem_iff.2 (List.mem_cons_of_mem t ht')), fun p hp => ?_⟩
  by_cases hcov : t.Covers p
  · exact Or.inl ((Transfer.perform_covered hcov).trans (h.agrees t hmem p hp hcov))
  · rw [Transfer.perform_other hcov]
    refine (h.filled p hp).imp_right ?_
    rintro ⟨t', ht', hcov'⟩
    rcases List.mem_cons.1 (hperm.mem_iff.1 ht') with rfl | hrest
    · exact absurd hcov' hcov
    · exact ⟨t', hrest, hcov'⟩

/-- Two lists of transfers, each for its own part of the window. -/
theorem append {first second : Nat → Prop} {more : List (Transfer α)}
    (h : Awaiting content first buf pending) (h' : Awaiting content second buf more)
    (hsplit : ∀ p, window p → first p ∨ second p)
    (honly : ∀ t ∈ pending, ∀ p, window p → t.Covers p → first p)
    (honly' : ∀ t ∈ more, ∀ p, window p → t.Covers p → second p) :
    Awaiting content window buf (pending ++ more) := by
  refine ⟨fun t ht p hp hcov => ?_, fun p hp => ?_⟩
  · rcases List.mem_append.1 ht with ht | ht
    · exact h.agrees t ht p (honly t ht p hp hcov) hcov
    · exact h'.agrees t ht p (honly' t ht p hp hcov) hcov
  · rcases hsplit p hp with hfirst | hsecond
    · refine (h.filled p hfirst).imp_right ?_
      rintro ⟨t, ht, hcov⟩
      exact ⟨t, List.mem_append_left more ht, hcov⟩
    · refine (h'.filled p hsecond).imp_right ?_
      rintro ⟨t, ht, hcov⟩
      exact ⟨t, List.mem_append_right pending ht, hcov⟩

theorem done (h : Awaiting content window buf []) (hp : window p) : buf p = content p := by
  rcases h.filled p hp with hfill | ⟨t, ht, -⟩
  · exact hfill
  · cases ht

/-- Performing all pending transfers, in any order. -/
theorem gather (h : Awaiting content window buf pending) {order : List (Transfer α)}
    (hperm : order.Perm pending) (hp : window p) :
    order.foldl (fun buf t => t.perform buf) buf p = content p := by
  induction order generalizing buf pending with
  | nil =>
      rw [← hperm.nil_eq] at h
      exact h.done hp
  | cons t rest ih => exact ih (h.perform hperm.symm) (List.Perm.refl rest)

/-- A position that no transfer covers keeps its byte. -/
theorem gather_other {order : List (Transfer α)} (h : ∀ t ∈ order, ¬ t.Covers p) (buf : Nat → α) :
    order.foldl (fun buf t => t.perform buf) buf p = buf p := by
  induction order generalizing buf with
  | nil => rfl
  | cons t rest ih =>
      rw [List.foldl_cons, ih (fun t' ht' => h t' (List.mem_cons_of_mem t ht'))]
      exact Transfer.perform_other (h t List.mem_cons_self)

/-- If every order of the pending transfers brings the window's bytes, then so does each of them
where it reaches: some order performs it last. -/
theorem of_gather {ι : Type*} {f : ι → Transfer α} {items : List ι}
    (h : ∀ order : List ι, order.Perm items → ∀ p, window p →
      (order.map f).foldl (fun buf t => t.perform buf) buf p = content p) :
    Awaiting content window buf (items.map f) := by
  refine ⟨fun t ht p hp hcov => ?_, fun p hp => ?_⟩
  · obtain ⟨item, hitem, rfl⟩ := List.mem_map.1 ht
    obtain ⟨before, after, rfl⟩ := List.append_of_mem hitem
    have hlast := h (before ++ after ++ [item]) (by
      rw [List.append_assoc]
      exact List.Perm.append_left before (List.perm_append_singleton item after)) p hp
    rw [List.map_append, List.foldl_append] at hlast
    exact (Transfer.perform_covered hcov).symm.trans hlast
  · by_cases hcov : ∃ t ∈ items.map f, t.Covers p
    · exact Or.inr hcov
    · have hnone : ∀ t ∈ items.map f, ¬ t.Covers p := fun t ht hc => hcov ⟨t, ht, hc⟩
      exact Or.inl ((gather_other hnone buf).symm.trans (h items (List.Perm.refl _) p hp))

end Awaiting

end GoblinStore.Lib
