import GoblinStore.Net.Waiters

/-!
# The order of parked GETs

`drain_get_waiters` takes the first parked GET and calls `begin_get`, which parks it again if there
is still no buffer: at the end of the queue. As long as no GET is parked again while another one
waits behind it, the queue is first come, first served (`parked_gets_in_order`); otherwise it
rotates (`failing_drain_rotates`).
-/

namespace GoblinStore.Net

open GoblinStore.Lib GoblinStore.Core

variable {P : Type} {cfg : Config} {s : Loop P}

namespace Server

variable {sv : Server P} {id a b : Nat} {before : List St} {event : ServerEvent P}

theorem reap_waiters (sv : Server P) (id : Nat) : (sv.reap id).getWaiters = sv.getWaiters := by
  unfold Server.reap
  split
  · rfl
  · split_ifs <;> rfl

/-! ## First come, first served -/

/-- The connection is there and not closing. -/
def Open (sv : Server P) (id : Nat) : Prop := ∃ e, sv.conns.lookup id = some e ∧ e.1.closing = false

/-- What `begin_get` says to a connection that is taken from the queue: whether the GET has its
buffer, needs none or has missed. -/
def retried (cfg : Config) (sv : Server P) (id : Nat) (e : Conn × P) (room : Nat)
    (framing : Framing) : Bool :=
  (Loop.beginGet cfg { sv.focus id e room with c :=
    { e.1 with queues := e.1.queues.erase .getWait } } framing).1

/-- The event is the retry that begins the GET of this connection. -/
def Serves (cfg : Config) (sv : Server P) (id : Nat) : ServerEvent P → Prop
  | .wakeGet room framing _ => ∃ rest e, sv.getWaiters = id :: rest ∧ sv.conns.lookup id = some e ∧
      e.1.closing = false ∧ sv.retried cfg id e room framing = true
  | _ => False

/-- No GET is parked again while another one waits behind it. -/
def InTurn (cfg : Config) (sv : Server P) : ServerEvent P → Prop
  | .wakeGet room framing _ => ∀ id other rest e, sv.getWaiters = id :: other :: rest →
      sv.conns.lookup id = some e → e.1.closing = false → sv.retried cfg id e room framing = true
  | _ => True

/-- While the first of two waits, so does the second, behind it. -/
theorem order_step (h : Orderly cfg sv) (horder : [a, b].Sublist sv.getWaiters)
    (ha : sv.Open a) (hb : sv.Open b) (net : Transport P) (hturn : sv.InTurn cfg event) :
    ¬ sv.Serves cfg b event ∧ (sv.Serves cfg a event ∨
      [a, b].Sublist (sv.step cfg net event).getWaiters) := by
  have hgrows : ∀ (id : Nat) (before : List St) (s : Loop P),
      [a, b].Sublist (sv.update id before s).getWaiters := fun id before s =>
    horder.trans (List.sublist_append_left _ _)
  obtain ⟨eb, hlookupb, -⟩ := hb
  have hone := (h.sound.parked h.lines.1 hlookupb (horder.subset (by simp))).2.2
  -- the second is not the first of the queue, where it stands once
  have hbehind : ∀ rest, sv.getWaiters ≠ b :: rest := by
    intro rest hfirst
    rw [hfirst] at horder hone
    have hrest : [b].Sublist rest := by
      cases horder with
      | cons _ hsub => exact (List.sublist_cons_self a [b]).trans hsub
      | cons_cons _ hsub => exact hsub
    have hcount := hrest.count_le b
    rw [List.count_cons_self] at hone
    rw [List.count_singleton_self] at hcount
    omega
  have hstep := step_stepped cfg net sv event
  have hserved : ¬ sv.Serves cfg b event := by
    intro hserves
    cases event with
    | wakeGet room framing commands =>
        obtain ⟨rest, _, hfirst, -⟩ := hserves
        exact hbehind rest hfirst
    | _ => exact hserves
  refine ⟨hserved, ?_⟩
  generalize sv.step cfg net event = sv' at hstep ⊢
  cases hstep with
  | same | dangling | leftSets | disk => exact Or.inr horder
  | accepted | swept => exact Or.inr (hgrows _ _ _)
  | retriedSet => exact Or.inr (horder.trans (List.sublist_append_left _ _))
  | completed =>
      rw [reap_waiters]
      exact Or.inr (hgrows _ _ _)
  | leftGets first found closing =>
      rw [first] at horder
      cases horder with
      | cons _ hsub => exact Or.inr hsub
      | cons_cons _ hsub =>
          obtain ⟨e, hlookup, hopen⟩ := ha
          cases found.symm.trans hlookup
          cases hopen.symm.trans closing
  | @retriedGet id rest e first found opened =>
      rw [first] at horder
      cases horder with
      | cons _ hsub => exact Or.inr (hsub.trans (List.sublist_append_left _ _))
      | cons_cons _ hsub =>
          cases rest with
          | nil => cases hsub
          | cons other rest =>
              exact Or.inl ⟨other :: rest, e, first, found, opened,
                hturn a other rest e first found opened⟩

/-- A retry that begins the second GET comes after one that begins the first. -/
theorem order_run (net : Transport P) {events : List (ServerEvent P)} (h : Orderly cfg sv)
    (horder : [a, b].Sublist sv.getWaiters)
    (hturns : Allowed (Server.step cfg net) (Server.InTurn cfg) sv events)
    (hopen : ∀ first, first <+: events →
      (run (Server.step cfg net) sv first).Open a ∧ (run (Server.step cfg net) sv first).Open b)
    {first rest : List (ServerEvent P)} (hsplit : events = first ++ event :: rest)
    (hserves : (run (Server.step cfg net) sv first).Serves cfg b event) :
    ∃ earlier event' between, first = earlier ++ event' :: between ∧
      (run (Server.step cfg net) sv earlier).Serves cfg a event' := by
  induction first generalizing sv events with
  | nil =>
      cases hsplit
      obtain ⟨ha, hb⟩ := hopen [] List.nil_prefix
      exact absurd hserves (order_step h horder ha hb net hturns.1).1
  | cons next first ih =>
      cases hsplit
      obtain ⟨ha, hb⟩ := hopen [] List.nil_prefix
      rcases (order_step h horder ha hb net hturns.1).2 with hfirst | horder'
      · exact ⟨[], next, first, rfl, hfirst⟩
      · obtain ⟨earlier, event', between, rfl, hearlier⟩ := ih (h.step net next) horder' hturns.2
          (fun first' hprefix => hopen (next :: first') (List.prefix_cons_inj next |>.2 hprefix))
          rfl hserves
        exact ⟨next :: earlier, event', between, rfl, hearlier⟩

end Server

/-- Parked GETs are served in their order, if none is parked again while another one waits behind
it: of two connections that wait and stay open, the second obtains its buffer, or its reply, after
the first. -/
theorem parked_gets_in_order (env : Service P) (before since : List (ServerEvent P)) {a b : Nat}
    (horder : [a, b].Sublist (env.after before).getWaiters)
    (hturns : Allowed (Server.step env.cfg env.net) (Server.InTurn env.cfg)
      (env.after before) since)
    (hopen : ∀ first, first <+: since → (env.after (before ++ first)).Open a ∧
      (env.after (before ++ first)).Open b)
    (first rest : List (ServerEvent P)) (event : ServerEvent P)
    (hsplit : since = first ++ event :: rest)
    (hserves : (env.after (before ++ first)).Serves env.cfg b event) :
    ∃ earlier event' between, first = earlier ++ event' :: between ∧
      (env.after (before ++ earlier)).Serves env.cfg a event' := by
  have hrun : ∀ events, env.after (before ++ events) =
      run (Server.step env.cfg env.net) (env.after before) events :=
    fun events => run_append ..
  simp only [hrun] at hopen hserves ⊢
  exact Server.order_run env.net (env.after_orderly before) horder hturns hopen hsplit hserves

/-- A GET takes the buffer, and two more wait for it. -/
def twoGetsWait : List (ServerEvent Unit) := secondGetWaits ++ [accepts 256, receives 2 [getObject]]

/-- An iteration of `drain_get_waiters`. -/
def retries : ServerEvent Unit := .wakeGet 256 bareFraming fun _ => []

/-- Whether the connection is there and open. -/
def isOpen (sv : Server Unit) (id : Nat) : Bool := (sv.conns.lookup id).any fun e => !e.1.closing

variable {sv : Server Unit} {id : Nat}

theorem open_of_is_open (h : isOpen sv id = true) : sv.Open id := by
  unfold isOpen at h
  cases hlookup : sv.conns.lookup id with
  | none =>
      rw [hlookup] at h
      cases h
  | some e =>
      rw [hlookup] at h
      exact ⟨e, hlookup, by simpa using h⟩

/-- What a retry says to the first of the queue. -/
def firstRetried (sv : Server Unit) : Option (Nat × Bool) :=
  sv.getWaiters.head?.bind fun id => (sv.conns.lookup id).map fun e =>
    (id, sv.retried oneBuffer.cfg id e 256 bareFraming)

theorem serves_of_first (hfirst : firstRetried sv = some (id, true))
    (hopen : isOpen sv id = true) : sv.Serves oneBuffer.cfg id retries := by
  unfold firstRetried at hfirst
  obtain ⟨id', hhead, hfirst⟩ := Option.bind_eq_some_iff.1 hfirst
  obtain ⟨e, hlookup, heq⟩ := Option.map_eq_some_iff.1 hfirst
  obtain ⟨rfl, hretried⟩ := Prod.mk.inj heq
  obtain ⟨e', hlookup', hclosing⟩ := open_of_is_open hopen
  cases hlookup.symm.trans hlookup'
  obtain ⟨rest, hrest⟩ := List.head?_eq_some_iff.1 hhead
  exact ⟨rest, e, hrest, hlookup, hclosing, hretried⟩

theorem not_serves_of_first (hfirst : firstRetried sv = some (id, false)) :
    ¬ sv.Serves oneBuffer.cfg id retries := by
  rintro ⟨rest, e, hrest, hlookup, -, hretried⟩
  unfold firstRetried at hfirst
  rw [hrest, List.head?_cons, Option.bind_some, hlookup, Option.map_some, hretried] at hfirst
  cases hfirst

theorem in_turn_of_first (hfirst : firstRetried sv = some (id, true)) :
    sv.InTurn oneBuffer.cfg retries := by
  intro id' other rest e hwaiters hlookup _
  unfold firstRetried at hfirst
  rw [hwaiters, List.head?_cons, Option.bind_some, hlookup, Option.map_some] at hfirst
  exact (Prod.mk.inj (Option.some.inj hfirst)).2

/-- The object is removed, and both GETs miss. -/
def bothMiss : List (ServerEvent Unit) :=
  [.disk (.remove (Digest.replicate 1) Faults.never), retries, retries]

theorem parked_gets_in_order_miss :
    (oneBuffer.after twoGetsWait).getWaiters = [1, 2] ∧
      (oneBuffer.after (twoGetsWait ++ bothMiss.take 2)).Serves oneBuffer.cfg 2 retries ∧
      ∃ earlier event between, bothMiss.take 2 = earlier ++ event :: between ∧
        (oneBuffer.after (twoGetsWait ++ earlier)).Serves oneBuffer.cfg 1 event := by
  have hopens : ∀ n ≤ 3, isOpen (oneBuffer.after (twoGetsWait ++ bothMiss.take n)) 1 = true ∧
      isOpen (oneBuffer.after (twoGetsWait ++ bothMiss.take n)) 2 = true := by decide +kernel
  have hwaiters : (oneBuffer.after twoGetsWait).getWaiters = [1, 2] := by decide +kernel
  have hfirst : firstRetried (oneBuffer.after (twoGetsWait ++ bothMiss.take 1)) =
      some (1, true) := by decide +kernel
  have hsecond : firstRetried (oneBuffer.after (twoGetsWait ++ bothMiss.take 2)) =
      some (2, true) := by decide +kernel
  have hserves := serves_of_first hsecond (hopens 2 (by decide)).2
  have hturns : Allowed (Server.step oneBuffer.cfg oneBuffer.net) (Server.InTurn oneBuffer.cfg)
      (oneBuffer.after twoGetsWait) bothMiss :=
    ⟨trivial, in_turn_of_first hfirst, in_turn_of_first hsecond, trivial⟩
  refine ⟨hwaiters, hserves,
    parked_gets_in_order oneBuffer twoGetsWait bothMiss (by rw [hwaiters]) hturns
    (fun first hprefix => ?_) (bothMiss.take 2) [] retries rfl hserves⟩
  have htake := List.prefix_iff_eq_take.1 hprefix
  rw [htake]
  exact ⟨open_of_is_open (hopens _ hprefix.length_le).1,
    open_of_is_open (hopens _ hprefix.length_le).2⟩

/-- A drain finds no buffer; then the client of the first GET goes, and its buffer is free. -/
def failsThenFrees : List (ServerEvent Unit) :=
  [retries, .complete 0 0 0 256 (fun _ => 0) fun _ => []]

/-- The first of two parked GETs is parked again behind the second, which obtains the buffer. -/
theorem failing_drain_rotates :
    (oneBuffer.after twoGetsWait).getWaiters = [1, 2] ∧
      (∀ n ≤ 2, isOpen (oneBuffer.after (twoGetsWait ++ failsThenFrees.take n)) 1 = true ∧
        isOpen (oneBuffer.after (twoGetsWait ++ failsThenFrees.take n)) 2 = true) ∧
      (oneBuffer.after (twoGetsWait ++ failsThenFrees)).Serves oneBuffer.cfg 2 retries ∧
      (¬ ∃ earlier event between, failsThenFrees = earlier ++ event :: between ∧
        (oneBuffer.after (twoGetsWait ++ earlier)).Serves oneBuffer.cfg 1 event) ∧
      (oneBuffer.after (twoGetsWait ++ failsThenFrees ++ [retries])).getWaiters = [1] := by
  have hopens : ∀ n ≤ 2, isOpen (oneBuffer.after (twoGetsWait ++ failsThenFrees.take n)) 1 = true ∧
      isOpen (oneBuffer.after (twoGetsWait ++ failsThenFrees.take n)) 2 = true := by decide +kernel
  have hfails : firstRetried (oneBuffer.after twoGetsWait) = some (1, false) := by decide +kernel
  have hsecond : firstRetried (oneBuffer.after (twoGetsWait ++ failsThenFrees)) =
      some (2, true) := by decide +kernel
  refine ⟨by decide +kernel, hopens, serves_of_first hsecond (hopens 2 le_rfl).2,
    ?_, by decide +kernel⟩
  rintro ⟨earlier, event, between, hsplit, hserves⟩
  cases earlier with
  | nil =>
      rw [List.append_nil, ← (List.cons.inj hsplit).1] at hserves
      exact not_serves_of_first hfails hserves
  | cons first earlier =>
      cases earlier with
      | nil =>
          rw [← (List.cons.inj (List.cons.inj hsplit).2).1] at hserves
          exact hserves
      | cons second earlier =>
          have hnil := (List.cons.inj (List.cons.inj hsplit).2).2
          exact absurd hnil.symm (List.append_ne_nil_of_right_ne_nil _ (List.cons_ne_nil _ _))

end GoblinStore.Net
