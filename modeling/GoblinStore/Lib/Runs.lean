import Mathlib.Tactic.Common

/-!
# Runs of a deterministic machine

A machine is a total function `step : σ → α → σ`; everything that is not determined by the
state (the scheduler, the clock, a failing call) is part of the action. A run is a list of
actions. `Allowed` restricts a run to the actions that a side condition permits in the state
where they are taken, and `invariant_run` is the induction rule for such runs.
-/

namespace GoblinStore.Lib

variable {σ α : Type*}

/-- The state after a run. -/
def run (step : σ → α → σ) (start : σ) (actions : List α) : σ := actions.foldl step start

/-- Every action of the run is permitted in the state where it is taken. -/
def Allowed (step : σ → α → σ) (ok : σ → α → Prop) : σ → List α → Prop
  | _, [] => True
  | state, action :: rest => ok state action ∧ Allowed step ok (step state action) rest

variable {step : σ → α → σ} {ok : σ → α → Prop}

instance decidableAllowed [∀ state action, Decidable (ok state action)] :
    ∀ start actions, Decidable (Allowed step ok start actions)
  | _, [] => inferInstanceAs (Decidable True)
  | start, action :: rest =>
      have := decidableAllowed (step start action) rest
      inferInstanceAs (Decidable (ok start action ∧ Allowed step ok (step start action) rest))

@[simp] theorem run_nil (start : σ) : run step start [] = start := rfl

@[simp] theorem run_cons (start : σ) (action : α) (rest : List α) :
    run step start (action :: rest) = run step (step start action) rest := rfl

/-- Running two lists in a row is running their concatenation. -/
theorem run_append (start : σ) (first second : List α) :
    run step start (first ++ second) = run step (run step start first) second :=
  List.foldl_append

variable {start : σ}

/-- A concatenated run is permitted when both halves are. -/
theorem allowed_append {first second : List α} :
    Allowed step ok start (first ++ second) ↔
      Allowed step ok start first ∧ Allowed step ok (run step start first) second := by
  induction first generalizing start with
  | nil => simp [Allowed]
  | cons action rest ih => simp [Allowed, ih, and_assoc]

/-- Without a side condition every run is permitted. -/
theorem allowed_true (step : σ → α → σ) (start : σ) (actions : List α) :
    Allowed step (fun _ _ => True) start actions := by
  induction actions generalizing start with
  | nil => trivial
  | cons action rest ih => exact ⟨trivial, ih _⟩

variable {actions : List α}

/-- A weaker side condition permits at least the same runs. -/
theorem Allowed.mono {weaker : σ → α → Prop} (himp : ∀ state action, ok state action →
      weaker state action)
    (h : Allowed step ok start actions) : Allowed step weaker start actions := by
  induction actions generalizing start with
  | nil => trivial
  | cons action rest ih => exact ⟨himp _ _ h.1, ih h.2⟩

/-- A property kept by every permitted step holds after every permitted run. -/
theorem invariant_run {I : σ → Prop}
    (hstep : ∀ state action, ok state action → I state → I (step state action)) (hstart : I start)
    (hallowed : Allowed step ok start actions) : I (run step start actions) := by
  induction actions generalizing start with
  | nil => exact hstart
  | cons action rest ih => exact ih (hstep _ _ hallowed.1 hstart) hallowed.2

/-- A side condition that an invariant makes stronger. -/
theorem Allowed.strengthen {I : σ → Prop} {stronger : σ → α → Prop}
    (hstep : ∀ state action, I state → ok state action → stronger state action ∧
      I (step state action))
    (hstart : I start) (h : Allowed step ok start actions) :
    Allowed step stronger start actions := by
  induction actions generalizing start with
  | nil => trivial
  | cons action rest ih =>
      obtain ⟨hstrong, hnext⟩ := hstep _ _ hstart h.1
      exact ⟨hstrong, ih hnext h.2⟩

/-- Two machines whose permitted steps keep a relation end related when they take the same
actions. -/
theorem simulation_run {τ : Type*} {step' : τ → α → τ} {R : σ → τ → Prop}
    (hstep : ∀ state state' action, ok state action → R state state' →
      R (step state action) (step' state' action)) {start' : τ} (hstart : R start start')
    (hallowed : Allowed step ok start actions) :
    R (run step start actions) (run step' start' actions) := by
  induction actions generalizing start start' with
  | nil => exact hstart
  | cons action rest ih => exact ih (hstep _ _ _ hallowed.1 hstart) hallowed.2

/-- A run of actions that are permitted in every state. -/
theorem allowed_of_forall (h : ∀ action ∈ actions, ∀ state, ok state action)
    (start : σ) : Allowed step ok start actions := by
  induction actions generalizing start with
  | nil => trivial
  | cons action rest ih =>
      exact ⟨h action List.mem_cons_self start, ih (fun a ha => h a (List.mem_cons_of_mem _ ha)) _⟩

end GoblinStore.Lib
