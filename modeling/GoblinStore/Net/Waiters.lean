import GoblinStore.Net.Server

/-!
# Parked and closed connections

What runs of the whole loop say about its queues of waiters (`waiters_are_parked`) and about
connections that are closed (`closed_connections_reclaimed`). Both fail in some runs, which are
given after the theorems.
-/

namespace GoblinStore.Net

open GoblinStore.Lib GoblinStore.Core

variable {P : Type} {cfg : Config} {A : Terms} {s : Loop P}

/-! ## Waiters -/

theorem Inv.tidy (h : Inv A cfg s) : s.c.Tidy :=
  h.phase.elim (fun hleft => hleft.1.waits) fun hright => hright.1.waits

/-- A connection with an outstanding operation is not parked. -/
theorem Inv.not_parked (h : Inv A cfg s) (hpending : s.c.pending ≠ []) : s.c.queues = [] := by
  by_contra hqueues
  rw [h.tidy.1] at hqueues
  rcases h.phase with ⟨hphase, -, -, hdata⟩ | ⟨haborted, -⟩
  · exact hpending (hphase.parked h.base hdata hqueues).pending
  · rw [haborted.state hpending] at hqueues
    exact hqueues rfl

theorem St.waits_of_mem {st st' : St} (h : st' ∈ st.waits) : st = st' ∧ st.waits = [st'] := by
  cases st with
  | getWait | setWait =>
      cases List.mem_singleton.1 h
      exact ⟨rfl, rfl⟩
  | _ => cases h

theorem St.resting_of_waits {st : St} (h : st.waits ≠ []) : st.resting = true := by
  cases st <;> first | rfl | exact absurd rfl h

/-- A parked connection holds nothing, so it is not swept. -/
theorem Inv.sweep_parked (h : Inv A cfg s) (hqueues : s.c.queues ≠ []) : s.sweep = s := by
  obtain ⟨hwaits, hsh, hpin⟩ := h.tidy
  rw [hwaits] at hqueues
  have hresting := St.resting_of_waits hqueues
  have hlanes : s.c.nLanes = 0 := h.phase.elim (fun hleft => hleft.1.rest hresting) fun hright =>
    hright.1.lanes
  have hbody : s.c.state ≠ .setBody := fun heq => by
    rw [heq] at hqueues
    exact hqueues rfl
  unfold Loop.sweep
  rw [if_neg]
  rintro (hpos | hpinned | hopen)
  · omega
  · exact hpinned (hpin hresting)
  · exact hbody (hsh hopen)

theorem sweep_queues (s : Loop P) : s.sweep.c.queues = s.c.queues := by
  unfold Loop.sweep
  split_ifs <;> rfl

/-- A parked GET is retried. -/
theorem wake_get_meek {v : Seams P} (hqueues : s.c.queues.erase .getWait = [])
    (hopen : s.c.closing = false) (hstate : s.c.state = .getWait) (hv : v.Meek)
    (framing : Framing) : (s.wakeGet cfg framing v).Meek := by
  have hbegun := begin_get_begun cfg
    { s with c := { s.c with queues := s.c.queues.erase .getWait } } framing
  unfold Loop.wakeGet Loop.drainGet
  rw [if_pos ⟨hstate, by rw [hopen]; decide⟩]
  split
  · rename_i s' heq
    rw [heq] at hbegun
    exact Or.inr (hbegun.closing.trans hopen)
  · rename_i s' heq
    rw [heq] at hbegun
    have hnone : s'.c.queues = [] := by
      rcases hbegun.ends with ⟨-, hkeep, -⟩ | ⟨-, hkeep, -⟩ | ⟨hfalse, -⟩
      · exact hkeep.trans hqueues
      · exact hkeep.trans hqueues
      · cases hfalse
    split_ifs
    · exact Or.inl ((start_queues s' _).trans hnone)
    · exact hv.process _ ⟨hnone, hbegun.closing.trans hopen⟩

/-- A parked store is retried. -/
theorem wake_set_meek {v : Seams P} (hqueues : s.c.queues.erase .setWait = [])
    (hopen : s.c.closing = false) (hstate : s.c.state = .setWait) (hv : v.Meek) (sh : Bool) :
    (s.wakeSet sh v).Meek := by
  unfold Loop.wakeSet Loop.drainSet
  rw [if_pos ⟨hstate, by rw [hopen]; decide⟩]
  exact hv.process _ ⟨hqueues, hopen⟩

namespace Server

/-- How connections stand in the queue of those that are parked in state `st`: none more often than
it says itself, and an open one not less often. Nothing is said about connections that have been
freed. -/
structure Listed (st : St) (waiters : List Nat) (next : Nat)
    (conns : Table Nat (Conn × P)) : Prop where
  known : ∀ id ∈ waiters, id < next
  stands : ∀ id e, conns.lookup id = some e → waiters.count id ≤ e.1.queues.count st ∧
    (e.1.closing = false → e.1.queues.count st ≤ waiters.count id)

theorem count_pushed (id id' : Nat) (before after : List St) (st : St) :
    (pushed id before after st).count id' = if id' =
      id then after.count st - before.count st else 0 := by
  unfold pushed
  split_ifs with heq
  · rw [heq, List.count_replicate_self]
  · rw [List.count_replicate, if_neg]
    simpa using fun h => heq h.symm

section Listed

variable {st : St} {waiters rest : List Nat} {next id : Nat} {conns : Table Nat (Conn × P)}
  {before : List St}

/-- A connection leaves. -/
theorem Listed.erase (h : Listed st waiters next conns) (id : Nat) :
    Listed st waiters next (conns.erase id) := by
  refine ⟨h.known, fun id' e hlookup => ?_⟩
  rw [Table.lookup_erase] at hlookup
  split_ifs at hlookup
  exact h.stands id' e hlookup

/-- The first of the queue leaves it: it is closing, or gone. -/
theorem Listed.pop (h : Listed st (id :: rest) next conns)
    (hclosing : ∀ e, conns.lookup id = some e → e.1.closing = true) :
    Listed st rest next conns := by
  refine ⟨fun id' hmem => h.known id' (List.mem_cons_of_mem _ hmem), fun id' e hlookup => ?_⟩
  have hstands := h.stands id' e hlookup
  rw [List.count_cons] at hstands
  split_ifs at hstands with heq
  · cases beq_iff_eq.1 heq
    refine ⟨by omega, fun hopen => ?_⟩
    cases hopen.symm.trans (hclosing e hlookup)
  · exact hstands

/-- The first of the queue leaves it for a step. -/
theorem Listed.pop_erase (h : Listed st (id :: rest) next conns) :
    Listed st rest next (conns.erase id) := by
  refine (h.erase id).pop fun e hlookup => ?_
  rw [Table.lookup_erase, if_pos rfl] at hlookup
  cases hlookup

/-- A connection takes a step, or is new; `before` says where it stood. -/
theorem Listed.update (h : Listed st waiters next (conns.erase id)) (hid : id < next)
    (hmost : waiters.count id ≤ before.count st) (hgrows : before.count st ≤ s.c.queues.count st)
    (hleast : s.c.closing = false → before.count st ≤ waiters.count id) :
    Listed st (waiters ++ pushed id before s.c.queues st) next
      (conns.insert id (s.c, s.proto)) := by
  refine ⟨fun id' hmem => ?_, fun id' e hlookup => ?_⟩
  · rcases List.mem_append.1 hmem with hold | hnew
    · exact h.known id' hold
    · rw [List.eq_of_mem_replicate hnew]
      exact hid
  · rw [List.count_append, count_pushed]
    have hstands := h.stands id' e
    rw [Table.lookup_insert] at hlookup
    rw [Table.lookup_erase] at hstands
    split_ifs at hlookup hstands ⊢ with heq
    · cases hlookup
      rw [heq]
      dsimp only
      exact ⟨by omega, fun hopen => by have := hleast hopen; omega⟩
    · exact hstands hlookup

/-- A connection that did not stand in the queue takes a step, or is new. -/
theorem Listed.enter (h : Listed st waiters next (conns.erase id)) (hid : id < next)
    (hnone : waiters.count id = 0) (s : Loop P) :
    Listed st (waiters ++ pushed id [] s.c.queues st) next (conns.insert id (s.c, s.proto)) :=
  h.update hid hnone.le (Nat.zero_le _) fun _ => Nat.zero_le _

end Listed

/-- How connections stand in both queues. -/
def Lines (sv : Server P) : Prop :=
  Listed .getWait sv.getWaiters sv.next sv.conns ∧ Listed .setWait sv.setWaiters sv.next sv.conns

variable {sv : Server P} {id : Nat} {before : List St}

/-- A connection that stands in a queue is parked there, once. -/
theorem Sound.parked (hsound : Sound cfg sv) {st : St} {waiters : List Nat}
    (h : Listed st waiters sv.next sv.conns) {e : Conn × P} (hlookup : sv.conns.lookup id = some e)
    (hmem : id ∈ waiters) : e.1.state = st ∧ e.1.queues = [st] ∧ waiters.count id = 1 := by
  have hpos : 0 < waiters.count id := List.count_pos_iff.2 hmem
  have hle := (h.stands id e hlookup).1
  have hqueued : st ∈ e.1.queues := List.count_pos_iff.1 (by omega)
  have hwaits : e.1.queues = e.1.state.waits := (hsound.conn id e hlookup 0).tidy.1
  obtain ⟨hstate, hone⟩ := St.waits_of_mem (hwaits ▸ hqueued)
  have hqueues : e.1.queues = [st] := hwaits.trans hone
  rw [hqueues, List.count_singleton_self] at hle
  exact ⟨hstate, hqueues, by omega⟩

/-- A connection that is not parked stands in no queue. -/
theorem Lines.absent (h : Lines sv) {e : Conn × P} (hlookup : sv.conns.lookup id = some e)
    (hqueues : e.1.queues = []) :
    sv.getWaiters.count id = 0 ∧ sv.setWaiters.count id = 0 := by
  have hgets := (h.1.stands id e hlookup).1
  have hsets := (h.2.stands id e hlookup).1
  rw [hqueues] at hgets hsets
  exact ⟨Nat.le_zero.1 hgets, Nat.le_zero.1 hsets⟩

/-- A connection that stood in no queue takes a step, or is new. -/
theorem Lines.enter (h : Lines sv) (hid : id < sv.next)
    (hnone : sv.getWaiters.count id = 0 ∧ sv.setWaiters.count id = 0) (s : Loop P) :
    Lines (sv.update id [] s) :=
  ⟨(h.1.erase id).enter hid hnone.1 s, (h.2.erase id).enter hid hnone.2 s⟩

theorem Lines.reap (h : Lines sv) (id : Nat) : Lines (sv.reap id) := by
  unfold Server.reap
  split
  · exact h
  · split_ifs
    · exact ⟨h.1.erase id, h.2.erase id⟩
    · exact h

theorem sweep_closing (hopen : s.sweep.c.closing = false) : s.c.closing = false := by
  unfold Loop.sweep at hopen
  split_ifs at hopen
  · cases hopen
  · exact hopen

theorem Lines.step (h : Lines sv) (hsound : Sound cfg sv) (hnumbered : Numbered sv)
    (net : Transport P) (event : ServerEvent P) : Lines (sv.step cfg net event) := by
  have hstep := step_stepped cfg net sv event
  generalize sv.step cfg net event = sv' at hstep ⊢
  cases hstep with
  | same | dangling | disk => exact h
  | leftGets first found closing =>
      refine ⟨(first ▸ h.1).pop fun e hlookup => ?_, h.2⟩
      cases found.symm.trans hlookup
      exact closing
  | leftSets first found closing =>
      refine ⟨h.1, (first ▸ h.2).pop fun e hlookup => ?_⟩
      cases found.symm.trans hlookup
      exact closing
  | accepted room p commands =>
      -- the new identity is above all that stand in the queues
      have hnew : Lines { sv with next := sv.next + 1 } :=
        ⟨⟨fun id hmem => Nat.lt_succ_of_lt (h.1.known id hmem), h.1.stands⟩,
          fun id hmem => Nat.lt_succ_of_lt (h.2.known id hmem), h.2.stands⟩
      exact hnew.enter (Nat.lt_succ_self _)
        ⟨List.count_eq_zero.2 fun hmem => Nat.lt_irrefl _ (h.1.known _ hmem),
        List.count_eq_zero.2 fun hmem => Nat.lt_irrefl _ (h.2.known _ hmem)⟩ _
  | @completed id e k found outstanding res room data commands =>
      -- a connection with an operation outstanding is not parked
      have hpending : e.1.pending ≠ [] := List.ne_nil_of_length_pos (Nat.zero_lt_of_lt outstanding)
      have hqueues : e.1.queues = [] := (hsound.conn id e found room).not_parked hpending
      rw [hqueues]
      exact (h.enter (hnumbered id e found) (h.absent found hqueues) _).reap id
  | @retriedGet id rest e first found opened room framing commands =>
      obtain ⟨-, hqueues, hone⟩ := hsound.parked h.1 found (first ▸ List.mem_cons_self)
      have hsets := (h.2.stands id e found).1
      rw [first, List.count_cons_self] at hone
      rw [hqueues] at hsets ⊢
      exact ⟨(first ▸ h.1).pop_erase.enter (hnumbered id e found) (by omega) _,
        (h.2.erase id).enter (hnumbered id e found) (Nat.le_zero.1 hsets) _⟩
  | @retriedSet id rest e first found opened room sh commands =>
      obtain ⟨-, hqueues, hone⟩ := hsound.parked h.2 found (first ▸ List.mem_cons_self)
      have hgets := (h.1.stands id e found).1
      rw [first, List.count_cons_self] at hone
      rw [hqueues] at hgets ⊢
      exact ⟨(h.1.erase id).enter (hnumbered id e found) (Nat.le_zero.1 hgets) _,
        (first ▸ h.2).pop_erase.enter (hnumbered id e found) (by omega) _⟩
  | @swept id e found =>
      have hsame : (sv.focus id e 0).sweep.c.queues = e.1.queues := sweep_queues _
      exact ⟨(h.1.erase id).update (hnumbered id e found) (h.1.stands id e found).1 (by rw [hsame])
          fun hopen => (h.1.stands id e found).2 (sweep_closing hopen),
        (h.2.erase id).update (hnumbered id e found) (h.2.stands id e found).1 (by rw [hsame])
          fun hopen => (h.2.stands id e found).2 (sweep_closing hopen)⟩

/-- The waiters are there, and those that are parked are open. -/
structure Queued (sv : Server P) : Prop where
  present : ∀ id, id ∈ sv.getWaiters ∨ id ∈ sv.setWaiters → id ∈ sv.conns
  parked : ∀ id e, sv.conns.lookup id = some e → e.1.queues ≠ [] → e.1.closing = false
  defined : sv.undefined = false

/-- A connection takes a step, or is new. -/
theorem Queued.update (h : Queued sv) (hmeek : s.Meek) {gets sets : List Nat}
    (hgets : gets ⊆ sv.getWaiters) (hsets : sets ⊆ sv.setWaiters) :
    Queued ({ sv with getWaiters := gets, setWaiters := sets }.update id before s) := by
  refine ⟨fun id' hmem => ?_, fun id' e hlookup hne => ?_, h.defined⟩
  · refine Table.mem_insert.2 ?_
    rcases hmem with hmem | hmem <;> rcases List.mem_append.1 hmem with hold | hnew
    · exact Or.inr (h.present id' (Or.inl (hgets hold)))
    · exact Or.inl (List.eq_of_mem_replicate hnew)
    · exact Or.inr (h.present id' (Or.inr (hsets hold)))
    · exact Or.inl (List.eq_of_mem_replicate hnew)
  · change (sv.conns.insert id (s.c, s.proto)).lookup id' = some e at hlookup
    rw [Table.lookup_insert] at hlookup
    split_ifs at hlookup
    · cases hlookup
      exact hmeek.resolve_left hne
    · exact h.parked id' e hlookup hne

/-- A connection is freed: it is closing, so it stands in no queue. -/
theorem Queued.reap (h : Queued sv) (hlines : Lines sv) (id : Nat) : Queued (sv.reap id) := by
  unfold Server.reap
  split
  · exact h
  · rename_i e hlookup
    split_ifs with hdone
    · have hqueues : e.1.queues = [] := by
        by_contra hne
        cases (h.parked id e hlookup hne).symm.trans hdone.1
      obtain ⟨hgets, hsets⟩ := hlines.absent hlookup hqueues
      refine ⟨fun id' hmem => Table.mem_erase.2 ⟨?_, h.present id' hmem⟩,
        fun id' e' hlookup' => ?_, h.defined⟩
      · rintro rfl
        rcases hmem with hmem | hmem
        · exact List.count_eq_zero.1 hgets hmem
        · exact List.count_eq_zero.1 hsets hmem
      · change (sv.conns.erase id).lookup id' = some e' at hlookup'
        rw [Table.lookup_erase] at hlookup'
        split_ifs at hlookup'
        exact h.parked id' e' hlookup'
    · exact h

/-- A waiter is parked, once, and open. -/
theorem Queued.waiter (h : Queued sv) (hsound : Sound cfg sv) {st : St} {waiters : List Nat}
    (hlisted : Listed st waiters sv.next sv.conns) (hmem : id ∈ waiters) (hid : id ∈ sv.conns) :
    ∃ e, sv.conns.lookup id = some e ∧ e.1.state = st ∧ e.1.queues = [st] ∧ e.1.closing = false ∧
      waiters.count id = 1 := by
  obtain ⟨e, hlookup⟩ := Table.mem_iff_lookup.1 hid
  obtain ⟨hstate, hqueues, hone⟩ := hsound.parked hlisted hlookup hmem
  exact ⟨e, hlookup, hstate, hqueues,
    h.parked id e hlookup (by rw [hqueues]; exact List.cons_ne_nil _ _), hone⟩

/-- A queue of waiters holds parked connections, each once. -/
theorem Queued.in_order (h : Queued sv) (hsound : Sound cfg sv) {st : St} {waiters : List Nat}
    (hlisted : Listed st waiters sv.next sv.conns) (hpresent : ∀ id ∈ waiters, id ∈ sv.conns) :
    waiters.Nodup ∧ ∀ id ∈ waiters, ∃ e, sv.conns.lookup id = some e ∧ e.1.state = st := by
  refine ⟨List.nodup_iff_count_le_one.2 fun id => ?_, fun id hmem => ?_⟩
  · by_cases hmem : id ∈ waiters
    · obtain ⟨_, -, -, -, -, hone⟩ := h.waiter hsound hlisted hmem (hpresent id hmem)
      exact hone.le
    · rw [List.count_eq_zero_of_not_mem hmem]
      exact Nat.zero_le _
  · obtain ⟨e, hlookup, hstate, -⟩ := h.waiter hsound hlisted hmem (hpresent id hmem)
    exact ⟨e, hlookup, hstate⟩

/-- Nothing parks a connection that is closing: `process` finds no store that waits in its input,
and no GET unless a buffer is free or held by the connection. -/
def Settles (sv : Server P) : ServerEvent P → Prop
  | .complete id _ _ _ _ commands => ∀ e, sv.conns.lookup id = some e → e.1.closing = true →
      ∀ s, ∀ command ∈ commands s, command.parks = false ∧
        (command.gets = true → 0 < sv.iobufs.free.length + e.1.nLanes)
  | _ => True

theorem Queued.step (h : Queued sv) (hlines : Lines sv) (hsound : Sound cfg sv)
    (hnumbered : Numbered sv) (net : Transport P) {event : ServerEvent P}
    (hsettles : sv.Settles event) : Queued (sv.step cfg net event) := by
  have hstep := step_stepped cfg net sv event
  have hget : ∀ {id rest}, sv.getWaiters = id :: rest → _ := fun {id rest} hfirst =>
    have hmem : id ∈ sv.getWaiters := hfirst ▸ List.mem_cons_self
    h.waiter hsound hlines.1 hmem (h.present id (Or.inl hmem))
  have hset : ∀ {id rest}, sv.setWaiters = id :: rest → _ := fun {id rest} hfirst =>
    have hmem : id ∈ sv.setWaiters := hfirst ▸ List.mem_cons_self
    h.waiter hsound hlines.2 hmem (h.present id (Or.inr hmem))
  generalize sv.step cfg net event = sv' at hstep ⊢
  cases hstep with
  | same => exact h
  | disk => exact { h with }
  | dangling _ first gone =>
      obtain ⟨e, hlookup⟩ := Table.mem_iff_lookup.1 (h.present _ (first.imp
        (fun hfirst => hfirst ▸ List.mem_cons_self) fun hfirst => hfirst ▸ List.mem_cons_self))
      cases gone.symm.trans hlookup
  | leftGets first found closing =>
      obtain ⟨e, hlookup, -, -, hopen, -⟩ := hget first
      cases found.symm.trans hlookup
      cases hopen.symm.trans closing
  | leftSets first found closing =>
      obtain ⟨e, hlookup, -, -, hopen, -⟩ := hset first
      cases found.symm.trans hlookup
      cases hopen.symm.trans closing
  | accepted room p commands =>
      have hnew := @Queued.update _ _ sv sv.next [] h ((Seams.of_meek cfg net commands).onConnection
        (sv.focus sv.next (Conn.create, p) room) ⟨rfl, rfl⟩) _ _ (List.Subset.refl _)
        (List.Subset.refl _)
      exact { hnew with }
  | @completed id e k found outstanding res room data commands =>
      have hpending : e.1.pending ≠ [] := List.ne_nil_of_length_pos (Nat.zero_lt_of_lt outstanding)
      have hqueues : e.1.queues = [] := (hsound.conn id e found room).not_parked hpending
      rw [hqueues]
      refine (h.update ?_ (List.Subset.refl _) (List.Subset.refl _)).reap
        (hlines.enter (hnumbered id e found) (hlines.absent found hqueues) _) id
      by_cases hclosing : e.1.closing = true
      · -- the connection is closing, and nothing parks it
        have hcalm := hsettles e found hclosing
        have hdone := @Sound.completed _ cfg id e sv hsound found True
          (¬ 0 < sv.iobufs.free.length + e.1.nLanes) (fun _ => ⟨(Classical.em _).symm, hqueues⟩) net
          commands (fun s _ command hcommand => ⟨(hcalm s command hcommand).1, fun hnot =>
            Bool.eq_false_iff.2 fun hgets => hnot ((hcalm s command hcommand).2 hgets)⟩)
              k res room data
        exact Or.inl (hdone.base.around.2 trivial).2
      · exact complete_meek (hsound.conn id e found room) ⟨hqueues, Bool.eq_false_iff.2 hclosing⟩
          (Seams.of_meek cfg net commands) k res room data
  | @retriedGet id rest e first found _ room framing commands =>
      obtain ⟨e', hlookup, hstate, hqueues, hopen, -⟩ := hget first
      cases found.symm.trans hlookup
      have hnone : e.1.queues.erase .getWait = [] := by rw [hqueues]; rfl
      exact h.update (wake_get_meek hnone hopen hstate (Seams.of_meek cfg net commands) framing)
        (first ▸ List.subset_cons_self id rest) (List.Subset.refl _)
  | @retriedSet id rest e first found _ room sh commands =>
      obtain ⟨e', hlookup, hstate, hqueues, hopen, -⟩ := hset first
      cases found.symm.trans hlookup
      have hnone : e.1.queues.erase .setWait = [] := by rw [hqueues]; rfl
      exact h.update (wake_set_meek hnone hopen hstate (Seams.of_meek cfg net commands) sh)
        (List.Subset.refl _) (first ▸ List.subset_cons_self id rest)
  | @swept id e found =>
      refine h.update ?_ (List.Subset.refl _) (List.Subset.refl _)
      by_cases hqueues : e.1.queues = []
      · exact Or.inl ((sweep_queues _).trans hqueues)
      · rw [(hsound.conn id e found 0).sweep_parked hqueues]
        exact Or.inr (h.parked id e found hqueues)

/-- What every run keeps. -/
structure Orderly (cfg : Config) (sv : Server P) : Prop where
  sound : Sound cfg sv
  counted : Counted sv
  lines : Lines sv

theorem Orderly.step (h : Orderly cfg sv) (net : Transport P) (event : ServerEvent P) :
    Orderly cfg (sv.step cfg net event) :=
  ⟨h.sound.step net event, h.counted.step cfg net event,
    h.lines.step h.sound h.counted.numbered net event⟩

end Server

theorem Service.start_orderly (env : Service P) : env.start.Orderly env.cfg :=
  ⟨env.start_sound, env.start_counted,
    ⟨fun _ hmem => absurd hmem List.not_mem_nil, fun _ _ hlookup => by cases hlookup⟩, fun _ hmem =>
    absurd hmem List.not_mem_nil, fun _ _ hlookup => by cases hlookup⟩

theorem Service.start_queued (env : Service P) : env.start.Queued :=
  ⟨fun _ hmem => (by rcases hmem with hmem | hmem <;> cases hmem),
    fun _ _ hlookup => (by cases hlookup), rfl⟩

theorem Service.after_orderly (env : Service P) (events : List (ServerEvent P)) :
    (env.after events).Orderly env.cfg :=
  invariant_run (fun _ event _ h => h.step env.net event) env.start_orderly
    (allowed_true _ _ events)

/-- Whatever completes in whatever order, and whatever is swept: if nothing parks a connection that
is closing, then each waiter is a connection that is still there, once, and in the state of its
queue. -/
theorem waiters_are_parked (env : Service P) (events : List (ServerEvent P))
    (h : env.Allows Server.Settles events) :
    ((env.after events).getWaiters.Nodup ∧ ∀ id ∈ (env.after events).getWaiters,
      ∃ e, (env.after events).conns.lookup id = some e ∧ e.1.state = .getWait) ∧
    ((env.after events).setWaiters.Nodup ∧ ∀ id ∈ (env.after events).setWaiters,
      ∃ e, (env.after events).conns.lookup id = some e ∧ e.1.state = .setWait) ∧
    (env.after events).undefined = false := by
  have hinv : (env.after events).Orderly env.cfg ∧ (env.after events).Queued :=
    invariant_run (I := fun sv => Server.Orderly env.cfg sv ∧ sv.Queued)
      (fun sv event hok hs => ⟨hs.1.step env.net event,
        hs.2.step hs.1.lines hs.1.sound hs.1.counted.numbered env.net hok⟩)
      ⟨env.start_orderly, env.start_queued⟩ h
  obtain ⟨horderly, hqueued⟩ := hinv
  exact ⟨hqueued.in_order horderly.sound horderly.lines.1 fun id hmem =>
    hqueued.present id (Or.inl hmem),
    hqueued.in_order horderly.sound horderly.lines.2 fun id hmem =>
    hqueued.present id (Or.inr hmem), hqueued.defined⟩

/-- One read buffer, over a store with an object of 10000 bytes, of which 4096 are resident. -/
def oneBuffer : Service Unit where
  cfg := oneDriveConfig
  ops := storeTenThousand
  chunkBytes := 4096
  chunk_pos := device_block_pos
  count := 1
  readAhead := true
  net := ⟨false, fun _ _ => ()⟩

/-- A connection is accepted that submits a receive. -/
def accepts (room : Nat) : ServerEvent Unit := .accept room () fun _ => []

/-- A receive completes, and `process` finds these commands. -/
def receives (id : Nat) (commands : List (Command Unit)) : ServerEvent Unit :=
  .complete id 0 1 256 (fun _ => 0) fun _ => commands

/-- The GET of the object. -/
def getObject : Command Unit := .get (Digest.replicate 1) none bareFraming

/-- A GET takes the buffer, and a second GET waits for it. -/
def secondGetWaits : List (ServerEvent Unit) :=
  [accepts 256, receives 0 [getObject], accepts 256, receives 1 [getObject]]

theorem waiters_are_parked_second :
    (oneBuffer.after secondGetWaits).getWaiters = [1] ∧
      (oneBuffer.after secondGetWaits).getWaiters.Nodup ∧
      ∃ e, (oneBuffer.after secondGetWaits).conns.lookup 1 = some e ∧ e.1.state = .getWait := by
  have hopen : ∀ id, id < 2 →
      ((oneBuffer.after (secondGetWaits.take (2 * id + 1))).conns.lookup id).any
      (fun e => e.1.closing) = false := by decide +kernel
  have hsettles : oneBuffer.Allows Server.Settles secondGetWaits := by
    refine ⟨trivial, fun e hlookup hclosing => ?_, trivial, fun e hlookup hclosing => ?_, trivial⟩
    · have hany := (congrArg (Option.any fun e => e.1.closing) hlookup).symm.trans
        (hopen 0 (by decide))
      cases hany.symm.trans hclosing
    · have hany := (congrArg (Option.any fun e => e.1.closing) hlookup).symm.trans
        (hopen 1 (by decide))
      cases hany.symm.trans hclosing
  have hwaiters : (oneBuffer.after secondGetWaits).getWaiters = [1] := by decide +kernel
  obtain ⟨⟨hnodup, hparked⟩, -⟩ := waiters_are_parked oneBuffer secondGetWaits hsettles
  exact ⟨hwaiters, hnodup, hparked 1 (by rw [hwaiters]; exact List.mem_singleton_self 1)⟩

/-- A GET takes the buffer. A second connection receives a store and is swept; its receive completes
all the same, with the end of the store and a GET behind it. -/
def sweptStore : List (ServerEvent Unit) :=
  [accepts 256, receives 0 [getObject], accepts 256, receives 1 [.store true], .sweep 1,
    receives 1 [.stored, getObject]]

/-- The GET is parked, and the connection is freed. -/
theorem waiter_is_freed :
    1 ∈ (oneBuffer.after sweptStore).getWaiters ∧
      ((oneBuffer.after sweptStore).conns.lookup 1).isNone = true ∧
      (oneBuffer.after sweptStore).retired.map (fun e => e.1.state) = [.getWait] ∧
      (oneBuffer.after (sweptStore ++ [.wakeGet 256 bareFraming fun _ => []])).undefined =
        true := by
  decide +kernel

/-- Every connection that is open waits for an operation to complete, or is in a queue of
waiters. -/
def Server.NoneForgotten (sv : Server P) : Prop :=
  ∀ id e, sv.conns.lookup id = some e → e.1.closing = false →
  e.1.pending ≠ [] ∨ id ∈ sv.getWaiters ∨ id ∈ sv.setWaiters

theorem no_connection_forgotten (env : Service P) (events : List (ServerEvent P)) :
    (env.after events).NoneForgotten := by
  have horderly := env.after_orderly events
  intro id e hlookup hopen
  have hlisted : ∀ {st : St} {waiters : List Nat}, e.1.queues = [st] →
      e.1.queues.count st ≤ waiters.count id → id ∈ waiters := fun hqueues hle => by
    rw [hqueues, List.count_singleton_self] at hle
    exact List.count_pos_iff.1 hle
  rcases (horderly.sound.conn id e hlookup 0).phase with ⟨hphase, -, hbusy, -⟩ | ⟨haborted, -⟩
  · have hqueues : e.1.queues = e.1.state.waits := hphase.waits.1
    cases hstate : e.1.state with
    | getWait =>
        rw [hstate] at hqueues
        exact Or.inr (Or.inl (hlisted hqueues ((horderly.lines.1.stands id e hlookup).2 hopen)))
    | setWait =>
        rw [hstate] at hqueues
        exact Or.inr (Or.inr (hlisted hqueues ((horderly.lines.2.stands id e hlookup).2 hopen)))
    | _ => exact Or.inl (hbusy hopen (congrArg St.waits hstate))
  · cases haborted.closing.symm.trans hopen

/-! ## Closed connections -/

/-- A parked GET is retried: the connection stays open. -/
theorem wake_get_open (hopen : s.c.closing = false) (hroom : 0 < s.room) (net : Transport P)
    {framing : Framing} {commands : Loop P → List (Command P)}
    (hlasts : ∀ s', Lasts s.c.quitAfter (!(s.c.out ++ framing.miss).isEmpty) (commands s') = true) :
    (s.wakeGet cfg framing (Seams.of cfg net commands)).c.closing = false := by
  have hbegun := begin_get_begun cfg
    { s with c := { s.c with queues := s.c.queues.erase .getWait } } framing
  unfold Loop.wakeGet Loop.drainGet
  split_ifs
  · split
    · rename_i s' heq
      rw [heq] at hbegun
      exact hbegun.closing.trans hopen
    · rename_i s' heq
      rw [heq] at hbegun
      have hopen' : s'.c.closing = false := hbegun.closing.trans hopen
      have hroom' : 0 < s'.room := hbegun.room.symm ▸ hroom
      rcases hbegun.ends with ⟨-, -, hidle, hout, -⟩ | ⟨-, -, hheader, -⟩ | ⟨hfalse, -⟩
      · rw [if_neg (by rw [hidle]; exact fun heq => by cases heq)]
        refine process_open hopen' hroom' ?_ net.https
        rw [hbegun.quitAfter, hout]
        exact hlasts s'
      · rw [if_pos hheader]
        exact start_open hopen' hroom' _
      · cases hfalse
  · exact hopen

/-- A parked store is retried: the connection stays open. -/
theorem wake_set_open (hopen : s.c.closing = false) (hroom : 0 < s.room) (net : Transport P)
    (sh : Bool) {commands : Loop P → List (Command P)}
    (hlasts : ∀ s', Lasts s.c.quitAfter (!s.c.out.isEmpty) (commands s') = true) :
    (s.wakeSet sh (Seams.of cfg net commands)).c.closing = false := by
  unfold Loop.wakeSet Loop.drainSet
  split_ifs
  · exact @process_open _ _ { s with c := { s.c with
      state := .setBody, sh := sh, queues := s.c.queues.erase .setWait } }
        hopen hroom _ (hlasts _) net.https
  · exact hopen

/-- A connection that is swept has an operation outstanding. -/
theorem Inv.swept (h : Inv A cfg s) (hopen : s.c.closing = false)
    (hclosed : s.sweep.c.closing = true) :
    0 < s.c.inflight := by
  by_cases hqueues : s.c.queues = []
  · rcases h.phase with ⟨hphase, -, hbusy, -⟩ | ⟨haborted, -⟩
    · rw [h.base.count]
      exact List.length_pos_iff.2 (hbusy hopen (hphase.waits.1.symm.trans hqueues))
    · cases hopen.symm.trans haborted.closing
  · rw [h.sweep_parked hqueues] at hclosed
    cases hopen.symm.trans hclosed

theorem sweep_inflight (s : Loop P) : s.sweep.c.inflight = s.c.inflight := by
  unfold Loop.sweep
  split_ifs <;> rfl

namespace Server

variable {sv : Server P} {id : Nat}

/-- A connection that is closing waits for an operation to complete. -/
def Reclaimed (sv : Server P) : Prop :=
  ∀ id e, sv.conns.lookup id = some e → e.1.closing = true → 0 < e.1.inflight

/-- Outside of completions nothing is closed: the submission queue has room, the first steps of a
handshake do not fail, and a call of `process` does not end without a reply where it closes the
connection. -/
def Steady (net : Transport P) (sv : Server P) : ServerEvent P → Prop
  | .accept room _ commands => 0 < room ∧ (net.https = true → ∀ s, Greets (commands s) = true)
  | .wakeGet room framing commands => 0 < room ∧
      ∀ id rest e, sv.getWaiters = id :: rest → sv.conns.lookup id = some e →
        ∀ s, Lasts e.1.quitAfter (!(e.1.out ++ framing.miss).isEmpty) (commands s) = true
  | .wakeSet room _ commands => 0 < room ∧
      ∀ id rest e, sv.setWaiters = id :: rest → sv.conns.lookup id = some e →
        ∀ s, Lasts e.1.quitAfter (!e.1.out.isEmpty) (commands s) = true
  | _ => True

theorem Reclaimed.update (h : sv.Reclaimed) (before : List St) {s : Loop P}
    (hs : s.c.closing = true → 0 < s.c.inflight) : (sv.update id before s).Reclaimed := by
  intro id' e hlookup
  change (sv.conns.insert id (s.c, s.proto)).lookup id' = some e at hlookup
  rw [Table.lookup_insert] at hlookup
  split_ifs at hlookup
  · cases hlookup
    exact hs
  · exact h id' e hlookup

/-- `retire` after the step of a connection. -/
theorem Reclaimed.reap (h : sv.Reclaimed) (before : List St) (s : Loop P) :
    ((sv.update id before s).reap id).Reclaimed := by
  have hself : (sv.update id before s).conns.lookup id = some (s.c, s.proto) :=
    Table.lookup_insert_self _ _ _
  unfold Server.reap
  rw [hself]
  dsimp only
  split_ifs with hdone
  · intro id' e hlookup
    change ((sv.conns.insert id (s.c, s.proto)).erase id).lookup id' = some e at hlookup
    rw [Table.lookup_erase] at hlookup
    split_ifs at hlookup with heq
    rw [Table.lookup_insert, if_neg heq] at hlookup
    exact h id' e hlookup
  · refine h.update before fun hclosing => Nat.pos_of_ne_zero fun hzero => hdone ⟨hclosing, hzero⟩

theorem Reclaimed.step (h : sv.Reclaimed) (hsound : Sound cfg sv) (net : Transport P)
    {event : ServerEvent P} (hsteady : sv.Steady net event) :
    (sv.step cfg net event).Reclaimed := by
  have hclosed : ∀ {s : Loop P}, s.c.closing = false → s.c.closing = true → 0 < s.c.inflight :=
    fun hopen hclosing => absurd (hopen.symm.trans hclosing) Bool.false_ne_true
  have hstep := step_stepped cfg net sv event
  generalize sv.step cfg net event = sv' at hstep ⊢
  cases hstep with
  | same | dangling | leftGets | leftSets | disk => exact h
  | accepted => exact h.update [] (hclosed (on_connection_open rfl hsteady.1 rfl rfl net hsteady.2))
  | completed => exact h.reap _ _
  | @retriedGet id rest e first found opened =>
      exact @Reclaimed.update _ { sv with getWaiters := rest } _ h _ _
        (hclosed (wake_get_open opened hsteady.1 net (hsteady.2 id rest e first found)))
  | @retriedSet id rest e first found opened room sh =>
      exact @Reclaimed.update _ { sv with setWaiters := rest } _ h _ _
        (hclosed (wake_set_open opened hsteady.1 net sh (hsteady.2 id rest e first found)))
  | @swept id e found =>
      refine h.update _ fun hswept => ?_
      rw [sweep_inflight]
      by_cases hclosing : e.1.closing = true
      · exact h id e found hclosing
      · exact (hsound.conn id e found 0).swept (Bool.eq_false_iff.2 hclosing) hswept

end Server

/-- Whatever completes in whatever order: if nothing is closed outside of completions, then a
connection that is closing has an operation outstanding; all others that were closed have been
freed, without lanes, pin or TLS state, and are no longer counted. -/
theorem closed_connections_reclaimed (env : Service P) (events : List (ServerEvent P))
    (h : env.Allows (Server.Steady env.net) events) :
    (∀ id e, (env.after events).conns.lookup id = some e → e.1.closing = true → 0 < e.1.inflight) ∧
      (env.after events).currConns = (env.after events).conns.values.length ∧
      (env.after events).next = (env.after events).currConns + (env.after events).retired.length ∧
      ∀ e ∈ (env.after events).retired, e.1.nLanes = 0 ∧ e.1.headPin = none ∧ e.1.tls = none := by
  have hinv : (env.after events).Sound env.cfg ∧ (env.after events).Counted ∧
      (env.after events).Reclaimed :=
    invariant_run (I := fun sv => Server.Sound env.cfg sv ∧ sv.Counted ∧ sv.Reclaimed)
      (fun sv event hok hs => ⟨hs.1.step env.net event, hs.2.1.step env.cfg env.net event,
        hs.2.2.step hs.1 env.net hok⟩)
      ⟨env.start_sound, env.start_counted, fun _ _ hlookup => by cases hlookup⟩ h
  obtain ⟨-, hcounted, hreclaimed⟩ := hinv
  exact ⟨hreclaimed, hcounted.curr, hcounted.curr ▸ hcounted.total, hcounted.released⟩

/-- A connection is closed by its client. -/
def closedByClient : List (ServerEvent Unit) :=
  [accepts 256, .complete 0 0 0 256 (fun _ => 0) fun _ => []]

theorem closed_connections_reclaimed_client :
    (oneBuffer.after closedByClient).currConns = 0 ∧
      (oneBuffer.after closedByClient).retired.length = 1 ∧
      ∀ e ∈ (oneBuffer.after closedByClient).retired,
        e.1.nLanes = 0 ∧ e.1.headPin = none ∧ e.1.tls = none := by
  have hsteady : oneBuffer.Allows (Server.Steady oneBuffer.net) closedByClient :=
    ⟨⟨by decide, nofun⟩, trivial, trivial⟩
  have hcount : (oneBuffer.after closedByClient).currConns = 0 ∧
      (oneBuffer.after closedByClient).retired.length = 1 := by decide +kernel
  exact ⟨hcount.1, hcount.2, (closed_connections_reclaimed oneBuffer closedByClient hsteady).2.2.2⟩

/-- The first receive of a connection is refused: it is closed, nothing is outstanding, and it
stays. -/
theorem closed_connection_stays :
    ((oneBuffer.after [accepts 0]).conns.lookup 0).map (fun e => (e.1.closing, e.1.inflight)) =
        some (true, 0) ∧
      (oneBuffer.after [accepts 0]).currConns = 1 ∧
      (oneBuffer.after [accepts 0]).retired.length = 0 := by
  decide +kernel

end GoblinStore.Net
