import Mathlib.Data.List.Perm.Basic

/-!
# Submission and completion rings

Requests are queued, taken by the kernel, executed in any order, and come back with a result in a
completion queue from which they are reaped. A request is outstanding from the moment it is queued
until it is reaped; every operation but `push` and `pop` keeps the outstanding requests up to their
order.
-/

namespace GoblinStore.Lib

/-- A pair of rings with room for `entries` queued requests. -/
structure Ring (α : Type*) where
  entries : Nat
  queued : List α
  inFlight : List α
  /-- results that were not reaped yet, oldest first -/
  ready : List (α × Int)

namespace Ring

variable {α : Type*}

/-- A new ring. -/
def create (entries : Nat) : Ring α := ⟨entries, [], [], []⟩

variable (ring : Ring α)

/-- Queue a request; `false` if there is no room. -/
def push (request : α) : Bool × Ring α :=
  if ring.queued.length < ring.entries then
    (true, { ring with queued := ring.queued ++ [request] })
  else (false, ring)

/-- The kernel takes the oldest `taken` queued requests. -/
def submit (taken : Nat) : Ring α :=
  { ring with
    queued := ring.queued.drop taken
    inFlight := ring.inFlight ++ ring.queued.take taken }

/-- Request number `i` of those in flight ends with a result. -/
def finish (i : Nat) (res : Int) : Ring α :=
  match ring.inFlight[i]? with
  | none => ring
  | some request =>
      { ring with
        inFlight := ring.inFlight.eraseIdx i
        ready := ring.ready ++ [(request, res)] }

/-- The oldest `n` results, and the ring without them. -/
def pop (n : Nat) : List (α × Int) × Ring α :=
  (ring.ready.take n, { ring with ready := ring.ready.drop n })

/-- The requests that were queued and not reaped. -/
def outstanding : List α :=
  ring.queued ++ ring.inFlight ++ ring.ready.map Prod.fst

theorem outstanding_push {ring ring' : Ring α} {request : α}
    (h : ring.push request = (true, ring')) :
    ring'.outstanding.Perm (request :: ring.outstanding) := by
  unfold push at h
  split_ifs at h
  · cases h
    simp only [outstanding, List.append_assoc]
    exact List.perm_middle
  · cases h

/-- A full queue refuses the request. -/
theorem push_full {ring ring' : Ring α} {request : α} (h : ring.push request = (false, ring')) :
    ring.entries ≤ ring.queued.length ∧ ring' = ring := by
  unfold push at h
  split_ifs at h with hroom
  · cases h
  · cases h
    exact ⟨Nat.le_of_not_lt hroom, rfl⟩

theorem outstanding_submit (taken : Nat) :
    (ring.submit taken).outstanding.Perm ring.outstanding := by
  unfold outstanding submit
  refine List.Perm.append_right _ ?_
  calc
    List.Perm (ring.queued.drop taken ++ (ring.inFlight ++ ring.queued.take taken))
        (ring.inFlight ++ ring.queued.take taken ++ ring.queued.drop taken) := List.perm_append_comm
    List.Perm _ (ring.inFlight ++ ring.queued) := by rw [List.append_assoc, List.take_append_drop]
    List.Perm _ (ring.queued ++ ring.inFlight) := List.perm_append_comm

theorem outstanding_finish (i : Nat) (res : Int) :
    (ring.finish i res).outstanding.Perm ring.outstanding := by
  unfold finish
  split
  · exact List.Perm.refl _
  · rename_i request hrequest
    obtain ⟨hi, rfl⟩ := List.getElem?_eq_some_iff.1 hrequest
    simp only [outstanding, List.map_append, List.map_cons, List.map_nil, List.append_assoc]
    refine List.Perm.append_left _ ?_
    calc
      List.Perm (ring.inFlight.eraseIdx i ++ (ring.ready.map Prod.fst ++ [ring.inFlight[i]]))
          (ring.inFlight.eraseIdx i ++ ring.inFlight[i] :: ring.ready.map Prod.fst) :=
        List.Perm.append_left _ List.perm_append_comm
      List.Perm _ (ring.inFlight[i] :: ring.inFlight.eraseIdx i ++ ring.ready.map Prod.fst) :=
        List.perm_middle
      List.Perm _ (ring.inFlight ++ ring.ready.map Prod.fst) :=
        List.Perm.append_right _ (List.getElem_cons_eraseIdx_perm hi)

theorem outstanding_pop (n : Nat) :
    ((ring.pop n).1.map Prod.fst ++ (ring.pop n).2.outstanding).Perm ring.outstanding := by
  unfold outstanding pop
  dsimp only
  calc
    List.Perm ((ring.ready.take n).map Prod.fst ++
          (ring.queued ++ ring.inFlight ++ (ring.ready.drop n).map Prod.fst))
        (ring.queued ++ ring.inFlight ++ ((ring.ready.take n).map Prod.fst ++
          (ring.ready.drop n).map Prod.fst)) := List.perm_append_comm_assoc _ _ _
    List.Perm _ (ring.queued ++ ring.inFlight ++ ring.ready.map Prod.fst) := by
      rw [← List.map_append, List.take_append_drop]

end Ring

end GoblinStore.Lib
