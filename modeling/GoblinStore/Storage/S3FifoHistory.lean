import GoblinStore.Storage.LazyDeletion

/-!
# S3-FIFO and the history of its calls

The calls of a run are recorded as events: what was inserted and removed, and what was evicted from
which queue. The events determine who is resident (`Kept`), and `policy_accounting` relates the
counters and the queues to it.

They also determine the ghosts. The ghost queue holds the last `cap` victims of the small queue and
is a list with duplicates; the set beside it has no duplicates. When the older of two entries of a
digest is trimmed, the digest leaves the set although its younger entry is still queued
(`Overtaken`), and `ghost_window_iff` says that nothing else goes wrong.
-/

namespace GoblinStore

open GoblinStore.Lib

inductive PolicyEvent where
  | inserted (d : Digest)
  | removed (d : Digest)
  | evicted (q : Queue) (d : Digest)
  deriving DecidableEq

def PolicyEvent.digest : PolicyEvent → Digest
  | .inserted d | .removed d | .evicted _ d => d

namespace S3Fifo

/-- A call, with the events so far, the last one first. -/
def log (s : S3Fifo × List PolicyEvent) : PolicyCall → S3Fifo × List PolicyEvent
  | .insert d => (s.1.insert d, .inserted d :: s.2)
  | .touch d => (s.1.touch d, s.2)
  | .remove d => (s.1.remove d, .removed d :: s.2)
  | .evict =>
      (s.1.evict.2, (s.1.evictFrom.map fun victim => .evicted victim.1 victim.2).toList ++ s.2)

/-- A policy after a run, with the events. -/
def logged (capacityHint : Nat) (calls : List PolicyCall) : S3Fifo × List PolicyEvent :=
  run log (create capacityHint, []) calls

/-- `resident()`. -/
def resident (p : S3Fifo) : Nat := p.items.keys.length

/-- The counter of a queue. -/
def count (p : S3Fifo) : Queue → Nat
  | .small => p.smallN
  | .main => p.mainN

def queue (p : S3Fifo) : Queue → List Digest
  | .small => p.small
  | .main => p.main

variable {p next : S3Fifo} {d c : Digest} {events : List PolicyEvent}

theorem resident_eq_card (p : S3Fifo) : p.resident = p.residents.card :=
  (Table.card_key_set p.items).symm

theorem evict_from_victim (p : S3Fifo) : p.evictFrom.map Prod.snd = p.evict.1 := by
  have hmain : ∀ victim : Option Digest, (victim.map (Queue.main, ·)).map Prod.snd = victim :=
    fun victim => by
    cases victim <;> rfl
  unfold evictFrom evict
  split_ifs
  · rfl
  · generalize evictSmall (p.small.length + 1) p = found
    obtain ⟨victim, next⟩ := found
    cases victim with
    | none => exact hmain _
    | some d => rfl
  · exact hmain _

/-! ## Residents -/

/-- The digest was inserted and has neither been removed nor evicted since. -/
def Kept (events : List PolicyEvent) (d : Digest) : Prop :=
  ∃ since before, events = since ++ .inserted d :: before ∧ .removed d ∉ since ∧
    ∀ q, .evicted q d ∉ since

variable {e : PolicyEvent}

theorem kept_cons :
    Kept (e :: events) d ↔ e = .inserted d ∨
      (Kept events d ∧ e ≠ .removed d ∧ ∀ q, e ≠ .evicted q d) := by
  constructor
  · rintro ⟨since, before, heq, hremoved, hevicted⟩
    cases since with
    | nil =>
        cases heq
        exact Or.inl rfl
    | cons first since =>
        cases heq
        refine Or.inr ⟨⟨since, before, rfl, fun h => hremoved (List.mem_cons_of_mem _ h),
          fun q h => hevicted q (List.mem_cons_of_mem _ h)⟩, ?_, fun q => ?_⟩
        · rintro rfl
          exact hremoved List.mem_cons_self
        · rintro rfl
          exact hevicted q List.mem_cons_self
  · rintro (rfl | ⟨⟨since, before, rfl, hremoved, hevicted⟩, hne, hne'⟩)
    · exact ⟨[], events, rfl, List.not_mem_nil, fun _ => List.not_mem_nil⟩
    · refine ⟨e :: since, before, rfl, fun h => ?_, fun q h => ?_⟩
      · rcases List.mem_cons.1 h with heq | hmem
        · exact hne heq.symm
        · exact hremoved hmem
      · rcases List.mem_cons.1 h with heq | hmem
        · exact hne' q heq.symm
        · exact hevicted q hmem

theorem kept_inserted : Kept (.inserted c :: events) d ↔ d = c ∨ Kept events d := by
  rw [kept_cons]
  constructor
  · rintro (heq | ⟨hkept, -⟩)
    · cases heq
      exact Or.inl rfl
    · exact Or.inr hkept
  · rintro (rfl | hkept)
    · exact Or.inl rfl
    · exact Or.inr ⟨hkept, by simp, by simp⟩

theorem kept_removed : Kept (.removed c :: events) d ↔ d ≠ c ∧ Kept events d := by
  rw [kept_cons]
  simp only [reduceCtorEq, false_or, ne_eq, PolicyEvent.removed.injEq, not_false_eq_true,
    implies_true, and_true]
  exact ⟨fun h => ⟨fun heq => h.2 heq.symm, h.1⟩, fun h => ⟨h.2, fun heq => h.1 heq.symm⟩⟩

theorem kept_evicted {q : Queue} : Kept (.evicted q c :: events) d ↔ d ≠ c ∧ Kept events d := by
  rw [kept_cons]
  simp only [reduceCtorEq, false_or, ne_eq, PolicyEvent.evicted.injEq,
    not_false_eq_true, not_and, true_and]
  constructor
  · rintro ⟨hkept, hne⟩
    exact ⟨fun heq => hne q rfl heq.symm, hkept⟩
  · rintro ⟨hne, hkept⟩
    exact ⟨hkept, fun _ _ heq => hne heq.symm⟩

/-- The queues cover the residents, and the residents are those the events leave. -/
structure Recorded (s : S3Fifo × List PolicyEvent) : Prop where
  queued : s.1.Queued
  residents : ∀ d, d ∈ s.1.residents ↔ Kept s.2 d

theorem recorded_create (capacityHint : Nat) : Recorded (create capacityHint, []) where
  queued := queued_create capacityHint
  residents d := by
    rw [residents_create]
    constructor
    · intro h
      cases h
    · rintro ⟨since, before, heq, -⟩
      cases since <;> cases heq

theorem Recorded.log {s : S3Fifo × List PolicyEvent} (h : Recorded s) (call : PolicyCall) :
    Recorded (log s call) := by
  cases call with
  | insert c =>
      refine ⟨h.queued.insert c, fun d => ?_⟩
      simp only [S3Fifo.log, kept_inserted, residents_insert, Finset.mem_insert, h.residents d]
  | touch c =>
      refine ⟨h.queued.touch c, fun d => ?_⟩
      simp only [S3Fifo.log, residents_touch, h.residents d]
  | remove c =>
      refine ⟨h.queued.remove c, fun d => ?_⟩
      simp only [S3Fifo.log, kept_removed, residents_remove, Finset.mem_erase, h.residents d]
  | evict =>
      refine ⟨h.queued.evict.1, fun d => ?_⟩
      have hvictim := evict_from_victim s.1
      simp only [S3Fifo.log]
      cases hfrom : s.1.evictFrom with
      | none =>
          rw [hfrom] at hvictim
          have hsame := evict_none (Prod.ext hvictim.symm rfl)
          rw [hsame]
          exact h.residents d
      | some victim =>
          rw [hfrom] at hvictim
          obtain ⟨-, hrest⟩ := evict_some (Prod.ext hvictim.symm rfl)
          rw [hrest, Finset.mem_erase, h.residents d]
          exact kept_evicted.symm

theorem recorded_logged (capacityHint : Nat) (calls : List PolicyCall) :
    Recorded (logged capacityHint calls) :=
  invariant_run (fun _ call _ h => h.log call) (recorded_create capacityHint)
    (allowed_true S3Fifo.log _ calls)

/-- The books of a policy with these events. -/
structure Accounts (p : S3Fifo) (events : List PolicyEvent) : Prop where
  /-- `resident()` counts the digests that were inserted and neither removed nor evicted since -/
  resident : ∃ kept : Finset Digest, (∀ d, d ∈ kept ↔ Kept events d) ∧ p.resident = kept.card
  count : ∀ which, p.count which = (members p.items which).card
  queue : ∀ d e, p.items.lookup d = some e → d ∈ p.queue e.q
  /-- the counter that `remove` decrements is positive -/
  removes : ∀ d e, p.items.lookup d = some e → 0 < p.count e.q
  /-- the loops of `evict` end, and the counters they decrement are positive -/
  evicts : EvictCall p p.evictFrom p.evict.2
  evict_none : p.evict.1 = none ↔ p.resident = 0
  evict_some : ∀ d, p.evict.1 = some d → d ∈ p.residents ∧ p.evict.2.residents = p.residents.erase d

theorem Recorded.accounts {s : S3Fifo × List PolicyEvent} (h : Recorded s) : Accounts s.1 s.2 where
  resident := ⟨s.1.residents, h.residents, resident_eq_card s.1⟩
  count which := by
    cases which with
    | small => exact h.queued.small_n
    | main => exact h.queued.main_n
  queue d e hlookup := by
    cases hq : e.q with
    | small => exact h.queued.in_small d (mem_members.2 ⟨e, hlookup, hq⟩)
    | main => exact h.queued.in_main d (mem_members.2 ⟨e, hlookup, hq⟩)
  removes d e hlookup := by
    have hmem : d ∈ members s.1.items e.q := mem_members.2 ⟨e, hlookup, rfl⟩
    cases hq : e.q with
    | small =>
        rw [hq] at hmem
        exact (Finset.card_pos.2 ⟨d, hmem⟩).trans_eq h.queued.small_n.symm
    | main =>
        rw [hq] at hmem
        exact (Finset.card_pos.2 ⟨d, hmem⟩).trans_eq h.queued.main_n.symm
  evicts := h.queued.evict_call
  evict_none := by
    rw [resident_eq_card, Finset.card_eq_zero]
    refine ⟨h.queued.evict.2, fun hempty => ?_⟩
    cases hvictim : s.1.evict.1 with
    | none => rfl
    | some d =>
        have hmem := (evict_some (Prod.ext hvictim rfl)).1
        rw [hempty] at hmem
        cases hmem
  evict_some d hvictim := evict_some (Prod.ext hvictim rfl)

/-- The books are right after every sequence of calls. -/
theorem policy_accounting (capacityHint : Nat) (calls : List PolicyCall) :
    Accounts (logged capacityHint calls).1 (logged capacityHint calls).2 :=
  (recorded_logged capacityHint calls).accounts

/-! ## Ghosts -/

/-- The victim of the small queue, if the event is about one. -/
def smallVictim : PolicyEvent → Option Digest
  | .evicted .small d => some d
  | _ => none

/-- The victims of the small queue, the last one first. -/
def smallVictims (events : List PolicyEvent) : List Digest := events.filterMap smallVictim

/-- The digest was last evicted from the small queue, with fewer than `cap` victims of the small
queue since, and no other event was about it since. -/
def Window (cap : Nat) (events : List PolicyEvent) (d : Digest) : Prop :=
  ∃ since before, events = since ++ .evicted .small d :: before ∧ (∀ e ∈ since, e.digest ≠ d) ∧
    (smallVictims since).length < cap

/-- The digest was evicted from the small queue before, at most `cap` victims earlier, and that
entry has been trimmed from the ghost queue since: `cap` victims have followed it. -/
def Overtaken (cap : Nat) (events : List PolicyEvent) (d : Digest) : Prop :=
  ∃ since between before, events =
    since ++ .evicted .small d :: (between ++ .evicted .small d :: before) ∧
    (∀ e ∈ since, e.digest ≠ d) ∧ (smallVictims between).length + 1 ≤ cap ∧
    cap ≤ (smallVictims since).length + 1 + (smallVictims between).length

/-- The number of small-queue victims since the last event about a digest, if that was its eviction
from the small queue. -/
def age (d : Digest) : List PolicyEvent → Option Nat
  | [] => none
  | e :: events =>
      if e.digest = d then if e = .evicted .small d then some 0 else none
      else (age d events).map (· + (smallVictims [e]).length)

theorem small_victims_append (since before : List PolicyEvent) :
    smallVictims (since ++ before) = smallVictims since ++ smallVictims before :=
  List.filterMap_append

theorem small_victims_cons (e : PolicyEvent) (events : List PolicyEvent) :
    smallVictims (e :: events) = smallVictims [e] ++ smallVictims events :=
  small_victims_append [e] events

theorem small_victims_evicted (d : Digest) (events : List PolicyEvent) :
    smallVictims (.evicted .small d :: events) = d :: smallVictims events := rfl

theorem age_evicted_self (d : Digest) (events : List PolicyEvent) :
    age d (.evicted .small d :: events) = some 0 := by
  simp [age, PolicyEvent.digest]

theorem age_cons_other (h : e.digest ≠ d) (events : List PolicyEvent) :
    age d (e :: events) = (age d events).map (· + (smallVictims [e]).length) := by
  rw [age, if_neg h]

theorem age_eq_some_iff {a : Nat} :
    age d events = some a ↔ ∃ since before, events = since ++ .evicted .small d :: before ∧
      (∀ e ∈ since, e.digest ≠ d) ∧ (smallVictims since).length = a := by
  induction events generalizing a with
  | nil =>
      refine ⟨nofun, ?_⟩
      rintro ⟨since, before, heq, -⟩
      cases since <;> cases heq
  | cons e events ih =>
      constructor
      · intro h
        rw [age] at h
        split_ifs at h with hd hsmall
        · cases h
          exact ⟨[], events, by rw [hsmall, List.nil_append], nofun, rfl⟩
        · obtain ⟨b, hb, rfl⟩ := Option.map_eq_some_iff.1 h
          obtain ⟨since, before, rfl, hother, rfl⟩ := ih.1 hb
          refine ⟨e :: since, before, rfl, fun e' hmem => ?_, ?_⟩
          · rcases List.mem_cons.1 hmem with rfl | hmem
            · exact hd
            · exact hother e' hmem
          · rw [small_victims_cons, List.length_append, Nat.add_comm]
      · rintro ⟨since, before, heq, hother, rfl⟩
        cases since with
        | nil =>
            cases heq
            exact age_evicted_self d events
        | cons first since =>
            cases heq
            have hrest := ih.2 ⟨since, before, rfl,
              fun e' hmem => hother e' (List.mem_cons_of_mem _ hmem), rfl⟩
            rw [age_cons_other (hother e List.mem_cons_self), hrest, Option.map_some,
              small_victims_cons e since, List.length_append, Nat.add_comm]

/-- An entry of the victims is an event. -/
theorem small_victims_get {k : Nat} :
    (smallVictims events)[k]? = some d ↔
      ∃ between before, events = between ++ .evicted .small d :: before ∧
      (smallVictims between).length = k := by
  induction events generalizing k with
  | nil =>
      refine ⟨nofun, ?_⟩
      rintro ⟨between, before, heq, -⟩
      cases between <;> cases heq
  | cons e events ih =>
      constructor
      · intro h
        cases hsmall : smallVictim e with
        | none =>
            rw [smallVictims, List.filterMap_cons_none hsmall] at h
            obtain ⟨between, before, rfl, rfl⟩ := ih.1 h
            refine ⟨e :: between, before, rfl, ?_⟩
            rw [smallVictims, List.filterMap_cons_none hsmall]
            rfl
        | some c =>
            rw [smallVictims, List.filterMap_cons_some hsmall] at h
            cases k with
            | zero =>
                cases h
                have he : e = .evicted .small d := by
                  unfold smallVictim at hsmall
                  split at hsmall
                  · cases hsmall
                    rfl
                  · cases hsmall
                exact ⟨[], events, by rw [he, List.nil_append], rfl⟩
            | succ k =>
                obtain ⟨between, before, rfl, rfl⟩ := ih.1 h
                exact ⟨e :: between, before,
                  rfl, by rw [smallVictims, List.filterMap_cons_some hsmall]; rfl⟩
      · rintro ⟨between, before, heq, rfl⟩
        cases between with
        | nil =>
            cases heq
            rfl
        | cons first between =>
            cases heq
            have hrest := ih.2 ⟨between, before, rfl, rfl⟩
            rw [small_victims_cons, small_victims_cons e between, List.length_append,
              List.getElem?_append_right (Nat.le_add_right _ _), Nat.add_sub_cancel_left]
            exact hrest

variable {cap : Nat}

theorem window_iff : Window cap events d ↔ ∃ a, age d events = some a ∧ a < cap := by
  constructor
  · rintro ⟨since, before, heq, hother, hlt⟩
    exact ⟨_, age_eq_some_iff.2 ⟨since, before, heq, hother, rfl⟩, hlt⟩
  · rintro ⟨a, hage, hlt⟩
    obtain ⟨since, before, heq, hother, rfl⟩ := age_eq_some_iff.1 hage
    exact ⟨since, before, heq, hother, hlt⟩

/-- The entry of the last eviction. -/
theorem small_victims_age {a : Nat} (h : age d events = some a) :
    (smallVictims events)[a]? = some d := by
  obtain ⟨since, before, heq, -, hlen⟩ := age_eq_some_iff.1 h
  exact small_victims_get.2 ⟨since, before, heq, hlen⟩

theorem overtaken_iff :
    Overtaken cap events d ↔ ∃ a i, age d events = some a ∧ a < i ∧
      (smallVictims events)[i]? = some d ∧ cap ≤ i ∧
      i ≤ a + cap := by
  constructor
  · rintro ⟨since, between, before, rfl, hother, hle, hge⟩
    refine ⟨_, (smallVictims since).length + 1 + (smallVictims between).length,
      age_eq_some_iff.2 ⟨since, _, rfl, hother, rfl⟩, by omega, ?_, hge, by omega⟩
    refine small_victims_get.2 ⟨since ++ .evicted .small d :: between, before, by simp, ?_⟩
    rw [small_victims_append, List.length_append, small_victims_evicted, List.length_cons]
    omega
  · rintro ⟨a, i, hage, hlt, hget, hge, hle⟩
    obtain ⟨since, rest, rfl, hother, rfl⟩ := age_eq_some_iff.1 hage
    have hrest : (smallVictims rest)[i - (smallVictims since).length - 1]? = some d := by
      rw [small_victims_append, List.getElem?_append_right hlt.le, small_victims_evicted] at hget
      obtain ⟨k, hk⟩ : ∃ k, i - (smallVictims since).length = k + 1 :=
        ⟨i - (smallVictims since).length - 1, by omega⟩
      rw [hk] at hget ⊢
      exact hget
    obtain ⟨between, before, rfl, hlen⟩ := small_victims_get.1 hrest
    exact ⟨since, between, before, rfl, hother, by omega, by omega⟩

/-- A resident is no ghost. -/
theorem age_of_kept (h : Kept events d) : age d events = none := by
  induction events with
  | nil =>
      obtain ⟨since, before, heq, -⟩ := h
      cases since <;> cases heq
  | cons e events ih =>
      rcases kept_cons.1 h with rfl | ⟨hkept, hremoved, hevicted⟩
      · simp [age, PolicyEvent.digest]
      · rw [age, ih hkept]
        split_ifs with hd hsmall
        · exact absurd hsmall (hevicted .small)
        · rfl
        · rfl

/-! ## The ghost queue -/

/-- What the ghosts are after these events. -/
def Ghost (cap : Nat) (events : List PolicyEvent) (d : Digest) : Prop :=
  Window cap events d ∧ ¬ Overtaken cap events d

theorem ghost_iff : Ghost cap events d ↔ ∃ a, age d events = some a ∧ a < cap ∧
    ∀ i, a < i → (smallVictims events)[i]? = some d → cap ≤ i → ¬ i ≤ a + cap := by
  rw [Ghost, window_iff, overtaken_iff]
  constructor
  · rintro ⟨⟨a, hage, hlt⟩, hnot⟩
    exact ⟨a, hage, hlt, fun i hi hget hge hle => hnot ⟨a, i, hage, hi, hget, hge, hle⟩⟩
  · rintro ⟨a, hage, hlt, hnone⟩
    refine ⟨⟨a, hage, hlt⟩, ?_⟩
    rintro ⟨a', i, hage', hi, hget, hge, hle⟩
    cases hage.symm.trans hage'
    exact hnone i hi hget hge hle

/-- An event that is not about a victim of the small queue changes the ghosts at its own digest
only. -/
theorem ghost_cons_other (hsmall : smallVictim e = none) :
    Ghost cap (e :: events) d ↔ e.digest ≠ d ∧ Ghost cap events d := by
  have hvictims : smallVictims (e :: events) = smallVictims events :=
    List.filterMap_cons_none hsmall
  have hone : smallVictims [e] = [] := List.filterMap_cons_none hsmall
  rw [ghost_iff, ghost_iff, hvictims, age, hone]
  by_cases hd : e.digest = d
  · have hne : e ≠ .evicted .small d := by
      rintro rfl
      cases hsmall
    rw [if_pos hd, if_neg hne]
    refine ⟨fun ⟨a, h, _⟩ => (by cases h), fun h => absurd hd h.1⟩
  · rw [if_neg hd]
    simp only [List.length_nil, Nat.add_zero, Option.map_id_fun', id_eq, ne_eq, hd,
      not_false_eq_true, true_and]

/-- A victim of the small queue becomes a ghost, and the entry that its own displaces takes its
digest along. -/
theorem ghost_cons_small (hcap : 0 < cap) :
    Ghost cap (.evicted .small c :: events) d ↔
      (d = c ∨ Ghost cap events d) ∧ (smallVictims events)[cap - 1]? ≠ some d := by
  rw [ghost_iff, ghost_iff, small_victims_evicted]
  by_cases hd : c = d
  · subst hd
    rw [age_evicted_self]
    simp only [true_or, true_and, Option.some.injEq, exists_eq_left', Nat.zero_add]
    constructor
    · rintro ⟨-, hnone⟩ hget
      refine hnone cap hcap ?_ le_rfl le_rfl
      obtain ⟨k, rfl⟩ : ∃ k, cap = k + 1 := ⟨cap - 1, by omega⟩
      exact hget
    · intro hnot
      refine ⟨hcap, fun i hi hget hge hle => hnot ?_⟩
      obtain rfl : i = cap := by omega
      obtain ⟨k, rfl⟩ : ∃ k, i = k + 1 := ⟨i - 1, by omega⟩
      exact hget
  · have hdc : ¬ d = c := fun heq => hd heq.symm
    rw [age_cons_other (show PolicyEvent.digest (.evicted .small c) ≠ d from hd)]
    simp only [hdc, false_or]
    constructor
    · rintro ⟨a', hage', hlt, hnone⟩
      obtain ⟨a, hage, rfl⟩ := Option.map_eq_some_iff.1 hage'
      have hone : (smallVictims [.evicted .small c]).length = 1 := rfl
      rw [hone] at hlt hnone
      -- an older entry at this index overtakes the digest now
      have hnew : ∀ i, a < i → (smallVictims events)[i]? = some d → cap ≤ i + 1 →
          ¬ i ≤ a + cap := by
        intro i hi hget hge hle
        exact hnone (i + 1) (by omega) hget hge (by omega)
      refine ⟨⟨a, hage, by omega, fun i hi hget hge => hnew i hi hget (by omega)⟩, fun hget => ?_⟩
      exact hnew (cap - 1) (by omega) hget (by omega) (by omega)
    · rintro ⟨⟨a, hage, hlt, hnone⟩, hnot⟩
      have hage' := small_victims_age hage
      have hne : a ≠ cap - 1 := by
        rintro rfl
        exact hnot hage'
      refine ⟨a + 1, by rw [hage]; rfl, by omega, fun i hi hget hge hle => ?_⟩
      obtain ⟨k, rfl⟩ : ∃ k, i = k + 1 := ⟨i - 1, by omega⟩
      have hget' : (smallVictims events)[k]? = some d := hget
      rcases Nat.lt_or_ge k cap with hk | hk
      · obtain rfl : k = cap - 1 := by omega
        exact hnot hget'
      · exact hnone k (by omega) hget' hk (by omega)

theorem trim_ghost_short {ghost : List Digest} (h : ghost.length ≤ cap) (members : Finset Digest) :
    trimGhost cap ghost members = (ghost, members) := by
  cases ghost with
  | nil => rfl
  | cons g ghost => rw [trimGhost, if_neg (not_lt.2 h)]

/-- A push onto the last `cap` victims displaces one of them at most. -/
theorem trim_ghost_push (hcap : 0 < cap) (victims : List Digest) (d : Digest)
    (members : Finset Digest) :
    (trimGhost cap ((victims.take cap).reverse ++ [d]) members).1 =
      ((d :: victims).take cap).reverse ∧
      ∀ c, c ∈ (trimGhost cap ((victims.take cap).reverse ++ [d]) members).2 ↔
        c ∈ members ∧ victims[cap - 1]? ≠ some c := by
  obtain ⟨k, rfl⟩ : ∃ k, cap = k + 1 := ⟨cap - 1, by omega⟩
  rw [Nat.add_sub_cancel, List.take_add_one, List.take_succ_cons, List.reverse_cons]
  cases hget : victims[k]? with
  | none =>
      have hlen : victims.length ≤ k := List.getElem?_eq_none_iff.1 hget
      have hshort : ((victims.take k ++ (none : Option Digest).toList).reverse ++ [d]).length ≤
          k + 1 := by
        simp
      rw [trim_ghost_short hshort, Option.toList_none, List.append_nil]
      simp
  | some g =>
      have hlong : (g :: ((victims.take k).reverse ++ [d])).length > k + 1 := by
        have hlt := (List.getElem?_eq_some_iff.1 hget).1
        simp only [List.length_cons, List.length_append, List.length_reverse, List.length_take,
          List.length_nil]
        omega
      have hshort : ((victims.take k).reverse ++ [d]).length ≤ k + 1 := by simp
      rw [Option.toList_some, List.reverse_append, List.reverse_singleton, List.singleton_append,
        List.cons_append, trimGhost, if_pos hlong, trim_ghost_short hshort]
      refine ⟨rfl, fun c => ?_⟩
      rw [Finset.mem_erase, and_comm, Ne.eq_def (some g), Option.some.injEq, eq_comm (a := g)]

/-- The ghost queue holds the last victims of the small queue, and the set beside it the ghosts. -/
structure Haunted (cap : Nat) (s : S3Fifo × List PolicyEvent) : Prop where
  cap_eq : s.1.cap = cap
  ghost : s.1.ghost = ((smallVictims s.2).take cap).reverse
  members : ∀ d, d ∈ s.1.ghostSet ↔ Ghost cap s.2 d

namespace Haunted

variable {cap : Nat} {s : S3Fifo × List PolicyEvent}

theorem not_ghost_of_resident (hrecorded : Recorded s) (h : d ∈ s.1.residents) :
    ¬ Ghost cap s.2 d := by
  rw [ghost_iff, age_of_kept ((hrecorded.residents d).1 h)]
  rintro ⟨a, hage, -⟩
  cases hage

/-- An event other than an eviction from the small queue that leaves the ghost queue alone. -/
theorem cons_other (h : Haunted cap s) {e : PolicyEvent} (hsmall : smallVictim e = none)
    (hcap : p.cap = s.1.cap) (hghost : p.ghost = s.1.ghost)
    (hset : ∀ d, d ∈ p.ghostSet ↔ e.digest ≠ d ∧ d ∈ s.1.ghostSet) : Haunted cap (p, e :: s.2) where
  cap_eq := hcap.trans h.cap_eq
  ghost := by
    show p.ghost = ((smallVictims (e :: s.2)).take cap).reverse
    rw [hghost, h.ghost, smallVictims, smallVictims, List.filterMap_cons_none hsmall]
  members d := by
    rw [hset, h.members, ghost_cons_other hsmall]

theorem insert (h : Haunted cap s) (hrecorded : Recorded s) (c : Digest) :
    Haunted cap (S3Fifo.log s (.insert c)) := by
  have hmem : ∀ {p : S3Fifo}, p.cap = s.1.cap → p.ghost = s.1.ghost →
      (∀ d, d ∈ p.ghostSet ↔ c ≠ d ∧ d ∈ s.1.ghostSet) → Haunted cap (p, .inserted c :: s.2) :=
      fun hcap hghost hset =>
    h.cons_other rfl hcap hghost hset
  have hsame : c ∉ s.1.ghostSet → ∀ d, d ∈ s.1.ghostSet ↔ c ≠ d ∧ d ∈ s.1.ghostSet := by
    intro hnot d
    refine ⟨fun hd => ⟨?_, hd⟩, And.right⟩
    rintro rfl
    exact hnot hd
  simp only [S3Fifo.log, S3Fifo.insert]
  split
  · rename_i e hlookup
    refine hmem rfl rfl (hsame ?_)
    rw [h.members]
    exact not_ghost_of_resident hrecorded (Table.mem_key_set_iff_lookup.2 ⟨e, hlookup⟩)
  · split_ifs with hghost
    · refine hmem rfl rfl fun d => ?_
      rw [Finset.mem_erase]
      exact ⟨fun hd => ⟨fun heq => hd.1 heq.symm, hd.2⟩, fun hd => ⟨fun heq => hd.1 heq.symm, hd.2⟩⟩
    · exact hmem rfl rfl (hsame hghost)

theorem touch (h : Haunted cap s) (c : Digest) : Haunted cap (S3Fifo.log s (.touch c)) := by
  simp only [S3Fifo.log, S3Fifo.touch]
  split <;> exact ⟨h.cap_eq, h.ghost, h.members⟩

theorem remove (h : Haunted cap s) (c : Digest) : Haunted cap (S3Fifo.log s (.remove c)) := by
  have hset : ∀ d, d ∈ s.1.ghostSet.erase c ↔ c ≠ d ∧ d ∈ s.1.ghostSet := fun d => by
    rw [Finset.mem_erase]
    exact ⟨fun hd => ⟨fun heq => hd.1 heq.symm, hd.2⟩, fun hd => ⟨fun heq => hd.1 heq.symm, hd.2⟩⟩
  simp only [S3Fifo.log, S3Fifo.remove]
  split <;> exact h.cons_other rfl rfl rfl hset

theorem evict (h : Haunted cap s) (hcap : 0 < cap) (hrecorded : Recorded s) :
    Haunted cap (S3Fifo.log s .evict) := by
  have hresident : ∀ q d, s.1.evictFrom = some (q, d) → d ∈ s.1.residents := by
    intro q d hfrom
    have hvictim := evict_from_victim s.1
    rw [hfrom] at hvictim
    exact (evict_some (Prod.ext hvictim.symm rfl)).1
  simp only [S3Fifo.log]
  rcases hrecorded.queued.evict_call.ghosts with ⟨d, hfrom, hghosts⟩ | ⟨hfrom, hghosts⟩
  · simp only [S3Fifo.ghosts, Prod.mk.injEq, h.cap_eq] at hghosts
    obtain ⟨hcap', hpush⟩ := hghosts
    obtain ⟨hlist, hset⟩ := trim_ghost_push hcap (smallVictims s.2) d (Insert.insert d s.1.ghostSet)
    rw [h.ghost] at hpush
    rw [← hpush] at hlist hset
    rw [hfrom]
    refine ⟨hcap', hlist, fun c => ?_⟩
    rw [hset, Finset.mem_insert, h.members]
    exact (ghost_cons_small hcap).symm
  · simp only [S3Fifo.ghosts, Prod.mk.injEq] at hghosts
    obtain ⟨hcap', hghost, hset⟩ := hghosts
    cases hvictim : s.1.evictFrom with
    | none =>
        exact ⟨hcap'.trans h.cap_eq, hghost.trans h.ghost, fun d => by rw [hset, h.members]; rfl⟩
    | some victim =>
        obtain ⟨q, c⟩ := victim
        cases q with
        | small => exact absurd hvictim (hfrom c)
        | main =>
            refine h.cons_other (e := .evicted .main c) rfl hcap' hghost fun d => ?_
            rw [hset]
            refine ⟨fun hd => ⟨?_, hd⟩, And.right⟩
            rintro rfl
            exact not_ghost_of_resident hrecorded (hresident _ _ hvictim) ((h.members _).1 hd)

end Haunted

theorem haunted_logged (capacityHint : Nat) (calls : List PolicyCall) :
    Haunted (create capacityHint).cap (logged capacityHint calls) := by
  have hcap : 0 < (create capacityHint).cap := by
    simp only [create]
    split_ifs <;> omega
  have hstart : Haunted (create capacityHint).cap (create capacityHint, []) := by
    refine ⟨rfl, List.take_nil.symm ▸ rfl, fun d => ⟨fun h => (by cases h), fun h => ?_⟩⟩
    obtain ⟨since, before, heq, -⟩ := h.1
    cases since <;> cases heq
  have hstep : ∀ s call, True → Recorded s ∧ Haunted (create capacityHint).cap s →
      Recorded (log s call) ∧ Haunted (create capacityHint).cap (log s call) := by
    intro s call _ h
    refine ⟨h.1.log call, ?_⟩
    cases call with
    | insert c => exact h.2.insert h.1 c
    | touch c => exact h.2.touch c
    | remove c => exact h.2.remove c
    | evict => exact h.2.evict hcap h.1
  exact (invariant_run (I := fun s => Recorded s ∧ Haunted (create capacityHint).cap s) hstep
    ⟨recorded_create capacityHint, hstart⟩ (allowed_true log _ calls)).2

/-- A digest that is not resident goes to the main queue exactly if it is in the ghost set; and that
is so exactly if it was evicted from the small queue within the window, unless an older entry of it
has been trimmed since. -/
theorem ghost_window_iff (capacityHint : Nat) (calls : List PolicyCall) (d : Digest)
    (hnot : d ∉ (logged capacityHint calls).1.residents) :
    (((logged capacityHint calls).1.insert d).items.lookup d = some ⟨.main, false⟩ ↔
      d ∈ (logged capacityHint calls).1.ghostSet) ∧
    ((d ∈ (logged capacityHint calls).1.ghostSet ↔
        Window (logged capacityHint calls).1.cap (logged capacityHint calls).2 d) ↔
      ¬ (Window (logged capacityHint calls).1.cap (logged capacityHint calls).2 d ∧
        Overtaken (logged capacityHint calls).1.cap (logged capacityHint calls).2 d)) := by
  have hhaunted := haunted_logged capacityHint calls
  constructor
  · have hnone : (logged capacityHint calls).1.items.lookup d = none := by
      rw [Table.lookup_eq_none]
      exact fun hmem => hnot (Table.mem_key_set.2 hmem)
    unfold S3Fifo.insert
    rw [hnone]
    dsimp only
    split_ifs with hghost
    · simp [hghost]
    · simp [hghost]
  · rw [hhaunted.members, hhaunted.cap_eq, Ghost]
    tauto

/-- A digest that is evicted, removed, inserted and evicted again, and another victim. -/
def evictedTwice : List PolicyCall :=
  [.insert (.replicate 1), .evict, .remove (.replicate 1), .insert (.replicate 1), .evict,
    .insert (.replicate 2), .evict]

theorem ghost_window_single :
    (Digest.replicate 1) ∉ (logged 2 [.insert (.replicate 1), .evict]).1.residents ∧
      (Digest.replicate 1 ∈ (logged 2 [.insert (.replicate 1), .evict]).1.ghostSet ↔
        Window (logged 2 [.insert (.replicate 1), .evict]).1.cap
          (logged 2 [.insert (.replicate 1), .evict]).2 (Digest.replicate 1)) := by
  have hnot : (Digest.replicate 1) ∉
      (logged 2 [.insert (.replicate 1), .evict]).1.residents := by decide +kernel
  have hevents : (logged 2 [.insert (.replicate 1), .evict]).2 =
      [.evicted .small (.replicate 1), .inserted (.replicate 1)] := by decide +kernel
  refine ⟨hnot, (ghost_window_iff 2 [.insert (.replicate 1), .evict] (.replicate 1) hnot).2.2 ?_⟩
  rintro ⟨-, hover⟩
  rw [overtaken_iff, hevents] at hover
  obtain ⟨a, i, -, hlt, hget, -⟩ := hover
  have hi : i < 1 := (List.getElem?_eq_some_iff.1 hget).1
  omega

/-- The older entry of the digest is trimmed: the digest is forgotten although it was evicted one
victim ago. -/
theorem ghost_overtaken :
    (logged 2 evictedTwice).1.cap = 2 ∧ Digest.replicate 1 ∉ (logged 2 evictedTwice).1.residents ∧
      Window 2 (logged 2 evictedTwice).2 (Digest.replicate 1) ∧
      Digest.replicate 1 ∉ (logged 2 evictedTwice).1.ghostSet ∧
      ((logged 2 evictedTwice).1.insert (.replicate 1)).items.lookup (.replicate 1) =
        some ⟨.small, false⟩ := by
  have hevents : (logged 2 evictedTwice).2 =
      [.evicted .small (.replicate 2), .inserted (.replicate 2)] ++
      .evicted .small (.replicate 1) :: [.inserted (.replicate 1), .removed (.replicate 1),
        .evicted .small (.replicate 1), .inserted (.replicate 1)] := by decide +kernel
  refine ⟨by decide +kernel, by decide +kernel,
    ⟨_, _, hevents, by decide +kernel, by decide +kernel⟩, by decide +kernel, by decide +kernel⟩

end S3Fifo

end GoblinStore
