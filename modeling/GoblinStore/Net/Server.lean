import GoblinStore.Net.Parking

/-!
# The stream loop with all its connections

`StreamLoop` keeps its connections in `conns_` and two queues of pointers to those that are parked.
A completion is handed to the connection it belongs to, and a connection that is closing is freed
with its last outstanding operation (`retire`); the queues are drained, and the connections that
make no progress are swept, outside of completions. The connections share the pool of read buffers.

A step of the loop is a step of the machine of one connection (`Server.focus`), for which the
buffers of all others are those of "other connections"; the invariant of each connection is then
kept by the steps of all (`Server.Sound`).
-/

namespace GoblinStore.Net

open GoblinStore.Lib GoblinStore.Core

variable {P : Type}

/-- The loop. A connection is known by the number of its acceptance, where the source has a pointer:
a waiter that has been freed is noticed (`undefined`) and stays where it is. `Server.stepAt` has
addresses. -/
structure Server (P : Type) where
  σ : State
  iobufs : BlockPool
  mem : Nat → Nat → UInt8
  readAhead : Bool
  conns : Table Nat (Conn × P)
  getWaiters : List Nat
  setWaiters : List Nat
  currConns : Nat
  /-- the number of connections that have been accepted -/
  next : Nat
  /-- ghost: the connections that have been freed, as `retire` has left them -/
  retired : List (Conn × P)
  /-- ghost: a pointer to a connection that was freed has been followed -/
  undefined : Bool

/-- The buffers that these connections hold. -/
def heldBy (conns : Table Nat (Conn × P)) : List Nat :=
  conns.values.flatMap fun e => heldBufs e.1.lane

/-- What happens in the loop: a connection is accepted; an operation of a connection completes; the
first of the parked GETs, or of the parked stores, is retried; a connection is swept; a step of
another thread on the store. -/
inductive ServerEvent (P : Type) where
  | accept (room : Nat) (p : P) (commands : Loop P → List (Command P))
  | complete (id k : Nat) (res : Int) (room : Nat) (data : Nat → UInt8)
      (commands : Loop P → List (Command P))
  | wakeGet (room : Nat) (framing : Framing) (commands : Loop P → List (Command P))
  | wakeSet (room : Nat) (sh : Bool) (commands : Loop P → List (Command P))
  | sweep (id : Nat)
  | disk (op : Op)

namespace Server

/-- One connection, with the loop around it. -/
def focus (sv : Server P) (id : Nat) (e : Conn × P) (room : Nat) : Loop P :=
  ⟨sv.σ, sv.iobufs, sv.mem, heldBy (sv.conns.erase id), room, sv.readAhead, e.1, e.2⟩

/-- The loop after a step of the connection. -/
def put (sv : Server P) (id : Nat) (s : Loop P) : Server P :=
  { sv with σ := s.σ, iobufs := s.iobufs, mem := s.mem, conns := sv.conns.insert id (s.c, s.proto) }

/-- The entries that a step has added to a queue in which the connection stood as `before` says. -/
def pushed (id : Nat) (before after : List St) (st : St) : List Nat :=
  List.replicate (after.count st - before.count st) id

/-- The loop after a step of the connection that may have parked it. -/
def update (sv : Server P) (id : Nat) (before : List St) (s : Loop P) : Server P :=
  { sv.put id s with
    getWaiters := sv.getWaiters ++ pushed id before s.c.queues .getWait
    setWaiters := sv.setWaiters ++ pushed id before s.c.queues .setWait }

/-- The end of `retire`: the connection leaves `conns_`. -/
def reap (sv : Server P) (id : Nat) : Server P :=
  match sv.conns.lookup id with
  | none => sv
  | some e =>
      if e.1.closing ∧ e.1.inflight = 0 then
        { sv with
          conns := sv.conns.erase id
          currConns := sv.currConns - 1
          retired := sv.retired ++ [e] }
      else sv

/-- An iteration of `drain_get_waiters`; `retry` is for a connection that is not closing. -/
def drainGets (sv : Server P) (room : Nat) (retry : Loop P → Loop P) : Server P :=
  match sv.getWaiters with
  | [] => sv
  | id :: rest =>
      match sv.conns.lookup id with
      | none => { sv with undefined := true }
      | some e =>
          if e.1.closing then { sv with getWaiters := rest }
          else
            { sv with getWaiters := rest }.update id (e.1.queues.erase .getWait)
              (retry (sv.focus id e room))

/-- An iteration of `drain_set_waiters`. -/
def drainSets (sv : Server P) (room : Nat) (retry : Loop P → Loop P) : Server P :=
  match sv.setWaiters with
  | [] => sv
  | id :: rest =>
      match sv.conns.lookup id with
      | none => { sv with undefined := true }
      | some e =>
          if e.1.closing then { sv with setWaiters := rest }
          else
            { sv with setWaiters := rest }.update id (e.1.queues.erase .setWait)
              (retry (sv.focus id e room))

/-- One event. -/
def step (cfg : Config) (net : Transport P) (sv : Server P) : ServerEvent P → Server P
  | .accept room p commands =>
      let s := (Seams.of cfg net commands).onConnection (sv.focus sv.next (Conn.create, p) room)
      { sv.update sv.next [] s with next := sv.next + 1, currConns := sv.currConns + 1 }
  | .complete id k res room data commands =>
      match sv.conns.lookup id with
      | none => sv
      | some e =>
          if k < e.1.pending.length then
            let s := (sv.focus id e room).complete cfg k res room data (Seams.of cfg net commands)
            (sv.update id e.1.queues s).reap id
          else sv
  | .wakeGet room framing commands =>
      sv.drainGets room fun s => s.wakeGet cfg framing (Seams.of cfg net commands)
  | .wakeSet room sh commands => sv.drainSets room fun s => s.wakeSet sh (Seams.of cfg net commands)
  | .sweep id =>
      match sv.conns.lookup id with
      | none => sv
      | some e => sv.update id e.1.queues (sv.focus id e 0).sweep
  | .disk op => { sv with σ := sv.σ.apply cfg op }

/-- What an event may do. -/
inductive Stepped (cfg : Config) (net : Transport P) (sv : Server P) :
    ServerEvent P → Server P → Prop where
  | same (event : ServerEvent P) : Stepped cfg net sv event sv
  | accepted (room : Nat) (p : P) (commands : Loop P → List (Command P)) :
      Stepped cfg net sv (.accept room p commands) { sv.update sv.next []
        ((Seams.of cfg net commands).onConnection (sv.focus sv.next (Conn.create, p) room)) with
        next := sv.next + 1, currConns := sv.currConns + 1 }
  | completed {id : Nat} {e : Conn × P} {k : Nat} (found : sv.conns.lookup id = some e)
      (outstanding : k < e.1.pending.length) (res : Int) (room : Nat) (data : Nat → UInt8)
      (commands : Loop P → List (Command P)) :
      Stepped cfg net sv (.complete id k res room data commands) ((sv.update id e.1.queues
        ((sv.focus id e room).complete cfg k res room data (Seams.of cfg net commands))).reap id)
  | dangling {id : Nat} {rest : List Nat} (event : ServerEvent P)
      (first : sv.getWaiters = id :: rest ∨ sv.setWaiters = id :: rest)
      (gone : sv.conns.lookup id = none) :
      Stepped cfg net sv event { sv with undefined := true }
  | leftGets {id : Nat} {rest : List Nat} {e : Conn × P} (first : sv.getWaiters = id :: rest)
      (found : sv.conns.lookup id = some e) (closing : e.1.closing = true) (room : Nat)
      (framing : Framing) (commands : Loop P → List (Command P)) :
      Stepped cfg net sv (.wakeGet room framing commands) { sv with getWaiters := rest }
  | leftSets {id : Nat} {rest : List Nat} {e : Conn × P} (first : sv.setWaiters = id :: rest)
      (found : sv.conns.lookup id = some e) (closing : e.1.closing = true) (room : Nat) (sh : Bool)
      (commands : Loop P → List (Command P)) :
      Stepped cfg net sv (.wakeSet room sh commands) { sv with setWaiters := rest }
  | retriedGet {id : Nat} {rest : List Nat} {e : Conn × P} (first : sv.getWaiters = id :: rest)
      (found : sv.conns.lookup id = some e) (opened : e.1.closing = false) (room : Nat)
      (framing : Framing) (commands : Loop P → List (Command P)) :
      Stepped cfg net sv (.wakeGet room framing commands)
        ({ sv with getWaiters := rest }.update id (e.1.queues.erase .getWait)
          ((sv.focus id e room).wakeGet cfg framing (Seams.of cfg net commands)))
  | retriedSet {id : Nat} {rest : List Nat} {e : Conn × P} (first : sv.setWaiters = id :: rest)
      (found : sv.conns.lookup id = some e) (opened : e.1.closing = false) (room : Nat) (sh : Bool)
      (commands : Loop P → List (Command P)) :
      Stepped cfg net sv (.wakeSet room sh commands)
        ({ sv with setWaiters := rest }.update id (e.1.queues.erase .setWait)
          ((sv.focus id e room).wakeSet sh (Seams.of cfg net commands)))
  | swept {id : Nat} {e : Conn × P} (found : sv.conns.lookup id = some e) :
      Stepped cfg net sv (.sweep id) (sv.update id e.1.queues (sv.focus id e 0).sweep)
  | disk (op : Op) : Stepped cfg net sv (.disk op) { sv with σ := sv.σ.apply cfg op }

theorem step_stepped (cfg : Config) (net : Transport P) (sv : Server P) (event : ServerEvent P) :
    Stepped cfg net sv event (sv.step cfg net event) := by
  cases event with
  | accept room p commands => exact .accepted room p commands
  | complete id k res room data commands =>
      rw [Server.step]
      split
      · exact .same _
      · rename_i e hlookup
        split_ifs with hk
        · exact .completed hlookup hk res room data commands
        · exact .same _
  | wakeGet room framing commands =>
      rw [Server.step, Server.drainGets]
      split
      · exact .same _
      · rename_i id rest hfirst
        split
        · rename_i hnone
          exact .dangling _ (Or.inl hfirst) hnone
        · rename_i e hlookup
          split_ifs with hclosing
          · exact .leftGets hfirst hlookup hclosing room framing commands
          · exact .retriedGet hfirst hlookup (Bool.eq_false_iff.2 hclosing) room framing commands
  | wakeSet room sh commands =>
      rw [Server.step, Server.drainSets]
      split
      · exact .same _
      · rename_i id rest hfirst
        split
        · rename_i hnone
          exact .dangling _ (Or.inr hfirst) hnone
        · rename_i e hlookup
          split_ifs with hclosing
          · exact .leftSets hfirst hlookup hclosing room sh commands
          · exact .retriedSet hfirst hlookup (Bool.eq_false_iff.2 hclosing) room sh commands
  | sweep id =>
      rw [Server.step]
      split
      · exact .same _
      · rename_i e hlookup
        exact .swept hlookup
  | disk op => exact .disk op

end Server

/-! ## The connections around a connection -/

/-- Terms for a step of one of several connections. -/
def Terms.among (others : List Nat) (settled getless : Prop) : Terms :=
  { Terms.bare with settled := settled, getless := getless, others := some others }

theorem Terms.among_calm (others : List Nat) (commands : List (Command P)) :
    Calm (Terms.among others False False) commands := False.elim

variable {cfg : Config} {A B : Terms} {s : Loop P}

/-- The invariant under weaker terms. -/
theorem Inv.regard (h : Inv A cfg s) (hroomy : B.roomy → A.roomy) (hwhole : B.whole → A.whole)
    (hsucceed : B.succeed → A.succeed) (hintact : B.intact → A.intact) (haround : Around B s) :
    Inv B cfg s := by
  have hbase := h.base
  refine ⟨⟨hbase.residency, hbase.chunk, hbase.bufs, hbase.count, fun hB => hbase.sane (hroomy hB),
    fun i => ?_, fun hB => hbase.sends (hwhole hB), fun hB => hbase.windows (hintact hB), fun hB =>
    hbase.served (hintact hB),
    fun e he hout => ?_, haround⟩, h.phase.imp ?_ fun hright =>
    ⟨hright.1, fun hB => hright.2 (hroomy hB)⟩⟩
  · have hres := hbase.results i
    exact { hres with
      whole := fun hB => hres.whole (hwhole hB), fine := fun hB => hres.fine (hsucceed hB) }
  · exact ⟨(hbase.parted e he hout).1, fun hB => (hbase.parted e he hout).2 (hintact hB)⟩
  · rintro ⟨hphase, htracked, hbusy, hplaced, hflushed, hexact⟩
    exact ⟨hphase, htracked, hbusy, hplaced, hflushed, fun hB => hexact (hintact hB)⟩

/-- What the connections share is in order, and the invariant of each connection holds. -/
structure Server.Sound (cfg : Config) (sv : Server P) : Prop where
  residency : Residency cfg sv.σ
  chunk : 0 < sv.iobufs.blockBytes
  nodup : (sv.iobufs.free ++ heldBy sv.conns).Nodup
  conn : ∀ id e, sv.conns.lookup id = some e → ∀ room, Inv Terms.bare cfg (sv.focus id e room)

namespace Server

theorem held_by_insert (conns : Table Nat (Conn × P)) (id : Nat) (e : Conn × P) :
    heldBy (conns.insert id e) = heldBufs e.1.lane ++ heldBy (conns.erase id) := rfl

variable {conns : Table Nat (Conn × P)} {id : Nat} {e : Conn × P}

theorem held_by_perm (h : conns.lookup id = some e) :
    (heldBy conns).Perm (heldBufs e.1.lane ++ heldBy (conns.erase id)) :=
  (Table.values_perm h).flatMap_right _

/-- The invariant of a connection, seen from a loop whose other connections have gone on. -/
theorem refocus {sv : Server P} (hs : Inv A cfg s)
    (hlookup : sv.conns.lookup id = some (s.c, s.proto)) (hres : Residency cfg sv.σ)
    (hchunk : 0 < sv.iobufs.blockBytes) (hnodup : (sv.iobufs.free ++ heldBy sv.conns).Nodup)
    (room : Nat) :
    Inv Terms.bare cfg (sv.focus id (s.c, s.proto) room) := by
  have hbufs : Bufs sv.iobufs.free (heldBy (sv.conns.erase id)) s.c.lane s.c.nLanes := by
    refine ⟨hs.base.bufs.lanes, hs.base.bufs.held, ?_⟩
    have hperm := (held_by_perm hlookup).trans List.perm_append_comm
    exact (List.Perm.append_left _ hperm).nodup_iff.1 hnodup
  have hopen : Terms.bare.Open := ⟨rfl, False.elim⟩
  have hplain : Inv Terms.bare cfg s :=
    hs.regard (fun hno => hno.elim) (fun hno => hno.elim) (fun hno => hno.elim)
      (fun hno => hno.elim) (hopen.around s)
  exact hplain.around hres hchunk hbufs (fun hno => hno.elim) (hopen.around _)

variable {sv : Server P}

/-- A connection takes a step, or is new. -/
theorem Sound.put (h : Sound cfg sv) (hs : Inv A cfg s)
    (hothers : A.others = some (heldBy (sv.conns.erase id))) : Sound cfg (sv.put id s) := by
  have hbase := hs.base
  have hnodup : (s.iobufs.free ++ heldBy (sv.conns.insert id (s.c, s.proto))).Nodup := by
    rw [held_by_insert]
    have hbufs := hbase.bufs.nodup
    rw [hbase.around.1 _ hothers] at hbufs
    exact (List.Perm.append_left _ List.perm_append_comm).nodup_iff.1 hbufs
  refine ⟨hbase.residency, hbase.chunk, hnodup, fun id' e hlookup room => ?_⟩
  have hlookup' := hlookup
  change (sv.conns.insert id (s.c, s.proto)).lookup id' = some e at hlookup
  rw [Table.lookup_insert] at hlookup
  split_ifs at hlookup with heq
  · cases hlookup
    exact refocus hs hlookup' hbase.residency hbase.chunk hnodup room
  · exact refocus (h.conn id' e hlookup room) hlookup' hbase.residency hbase.chunk hnodup room

theorem Sound.nodup_erase (h : Sound cfg sv) (id : Nat) :
    (sv.iobufs.free ++ heldBy (sv.conns.erase id)).Nodup := by
  have hvalues : (sv.conns.erase id).values.Sublist sv.conns.values :=
    (List.kerase_sublist _ _).map _
  exact (List.Sublist.append_left (List.Sublist.flatMap hvalues _) _).nodup h.nodup

/-- A connection leaves. -/
theorem Sound.reap (h : Sound cfg sv) (id : Nat) : Sound cfg (sv.reap id) := by
  unfold Server.reap
  split
  · exact h
  · rename_i e hlookup
    split_ifs
    · have hnodup := h.nodup_erase id
      refine ⟨h.residency, h.chunk, hnodup, fun id' e' hlookup' room => ?_⟩
      have hold := hlookup'
      change (sv.conns.erase id).lookup id' = some e' at hold
      rw [Table.lookup_erase] at hold
      split_ifs at hold
      exact refocus (h.conn id' e' hold room) hlookup' h.residency h.chunk hnodup room
    · exact h

/-- A connection before a step of it. -/
theorem Sound.among (h : Sound cfg sv) (hlookup : sv.conns.lookup id = some e) (room : Nat)
    {settled getless : Prop}
    (hsettled : settled → (getless ∨ 0 < sv.iobufs.free.length + e.1.nLanes) ∧ e.1.queues = []) :
    Inv (Terms.among (heldBy (sv.conns.erase id)) settled getless) cfg (sv.focus id e room) :=
  (h.conn id e hlookup room).regard (fun hno => hno.elim) (fun hno => hno.elim)
    (fun hno => hno.elim)
    (fun hno => hno.elim) ⟨fun _ hothers => Option.some.inj hothers, hsettled⟩

theorem Sound.update (h : Sound cfg sv) (hs : Inv A cfg s)
    (hothers : A.others = some (heldBy (sv.conns.erase id))) (before : List St) :
    Sound cfg (sv.update id before s) :=
  have hput := h.put hs hothers
  { hput with }

/-- A connection when it has been accepted. -/
theorem Sound.accepted (h : Sound cfg sv) (id room : Nat) (p : P) (net : Transport P)
    (commands : Loop P → List (Command P)) :
    Inv (Terms.among (heldBy (sv.conns.erase id)) False False) cfg
      ((Seams.of cfg net commands).onConnection (sv.focus id (Conn.create, p) room)) :=
  (Seams.of_sound cfg net fun s => Terms.among_calm _ (commands s)).onConnection _
    (Still.create h.residency h.chunk (h.nodup_erase id)
      ⟨fun _ hothers => Option.some.inj hothers, fun hno => hno.elim⟩) rfl

/-- What one event does to the connections, if the terms are those of the event. -/
theorem Sound.completed (h : Sound cfg sv) (hlookup : sv.conns.lookup id = some e)
    {settled getless : Prop}
    (hsettled : settled → (getless ∨ 0 < sv.iobufs.free.length + e.1.nLanes) ∧ e.1.queues = [])
    (net : Transport P) {commands : Loop P → List (Command P)}
    (hcalm : ∀ s, Calm (Terms.among (heldBy (sv.conns.erase id)) settled getless) (commands s))
    (k : Nat) (res : Int) (room : Nat) (data : Nat → UInt8) :
    Inv (Terms.among (heldBy (sv.conns.erase id)) settled getless) cfg
      ((sv.focus id e room).complete cfg k res room data (Seams.of cfg net commands)) :=
  (h.among hlookup room hsettled).complete (Seams.of_sound cfg net hcalm) k res room data
    (fun hno => hno.elim)
    (fun hno => hno.elim) fun hno => hno.elim

/-- One event. -/
theorem Sound.step (h : Sound cfg sv) (net : Transport P) (event : ServerEvent P) :
    Sound cfg (sv.step cfg net event) := by
  have hstep := step_stepped cfg net sv event
  have hcalm : ∀ (others : List Nat) (commands : Loop P → List (Command P)) (s : Loop P),
      Calm (Terms.among others False False) (commands s) := fun others commands s =>
    Terms.among_calm others (commands s)
  generalize sv.step cfg net event = sv' at hstep ⊢
  cases hstep with
  | same => exact h
  | dangling => exact { h with }
  | leftGets => exact { h with }
  | leftSets => exact { h with }
  | accepted room p commands =>
      have hnew := h.update (h.accepted sv.next room p net commands) rfl []
      exact { hnew with }
  | completed found _ res room data commands =>
      exact (h.update (h.completed found (fun hno => hno.elim) net (hcalm _ commands)
        _ res room data) rfl _).reap _
  | @retriedGet id rest e first found opened room framing commands =>
      have hpopped : Sound cfg { sv with getWaiters := rest } := { h with }
      exact hpopped.update ((h.among found room fun hno => hno.elim).wake_get
        (Seams.of_sound cfg net (hcalm _ commands)) False.elim framing) rfl _
  | @retriedSet id rest e first found opened room sh commands =>
      have hpopped : Sound cfg { sv with setWaiters := rest } := { h with }
      exact hpopped.update ((h.among found room fun hno => hno.elim).wake_set
        (Seams.of_sound cfg net (hcalm _ commands)) sh) rfl _
  | swept found =>
      exact h.update (h.among found 0 fun (hno : False) => (hno.elim : (False ∨ _) ∧ _)).sweep rfl _
  | disk op =>
      have hres := Residency.apply h.residency op
      exact ⟨hres, h.chunk, h.nodup, fun id e hlookup room =>
        refocus (h.conn id e hlookup room) hlookup hres h.chunk h.nodup room⟩

/-- Connections are numbered in the order of their acceptance. -/
def Numbered (sv : Server P) : Prop := ∀ id e, sv.conns.lookup id = some e → id < sv.next

theorem Numbered.unknown (h : Numbered sv) : sv.conns.lookup sv.next = none := by
  cases hlookup : sv.conns.lookup sv.next with
  | none => rfl
  | some e => exact absurd (h _ e hlookup) (Nat.lt_irrefl _)

theorem Numbered.insert (h : Numbered sv) {next : Nat}
    (hconns : conns = sv.conns.insert id e) (hid : id < next) (hnext : sv.next ≤ next) :
    ∀ id' e', conns.lookup id' = some e' → id' < next := by
  intro id' e' hlookup
  rw [hconns, Table.lookup_insert] at hlookup
  split_ifs at hlookup with heq
  · rw [heq]
    exact hid
  · exact (h id' e' hlookup).trans_le hnext

theorem Numbered.update (h : Numbered sv) (hlookup : sv.conns.lookup id = some e)
    (before : List St) (s : Loop P) : Numbered (sv.update id before s) :=
  h.insert rfl (h id e hlookup) le_rfl

theorem Numbered.reap (h : Numbered sv) (id : Nat) : Numbered (sv.reap id) := by
  unfold Server.reap
  split
  · exact h
  · split_ifs
    · intro id' e hlookup
      change (sv.conns.erase id).lookup id' = some e at hlookup
      rw [Table.lookup_erase] at hlookup
      split_ifs at hlookup
      exact h id' e hlookup
    · exact h

theorem Numbered.step (h : Numbered sv) (cfg : Config) (net : Transport P) (event : ServerEvent P) :
    Numbered (sv.step cfg net event) := by
  have hstep := step_stepped cfg net sv event
  generalize sv.step cfg net event = sv' at hstep ⊢
  cases hstep with
  | same | dangling | leftGets | leftSets | disk => exact h
  | accepted => exact h.insert rfl (Nat.lt_succ_self _) (Nat.le_succ _)
  | completed found => exact (h.update found _ _).reap _
  | retriedGet _ found | retriedSet _ found | swept found => exact h.insert rfl (h _ _ found) le_rfl

/-- Every connection that was accepted is in `conns_` or has been freed, with nothing left that it
held. -/
structure Counted (sv : Server P) : Prop where
  numbered : Numbered sv
  curr : sv.currConns = sv.conns.values.length
  total : sv.next = sv.conns.values.length + sv.retired.length
  released : ∀ e ∈ sv.retired, e.1.nLanes = 0 ∧ e.1.headPin = none ∧ e.1.tls = none

/-- A connection that has been freed holds nothing. -/
theorem retire_released (h : s.retire.c.closing = true ∧ s.retire.c.inflight = 0) :
    s.retire.c.nLanes = 0 ∧ s.retire.c.headPin = none ∧ s.retire.c.tls = none := by
  unfold Loop.retire at h ⊢
  split_ifs at h ⊢ with hdone
  · unfold Loop.dropGet Loop.unpinIfHeld
    rw [release_lanes_eq]
    dsimp only
    cases hpin : s.c.headPin with
    | none => exact ⟨rfl, rfl, rfl⟩
    | some pin => exact ⟨rfl, rfl, rfl⟩
  · exact absurd h hdone

theorem values_length_insert {e' : Conn × P}
    (h : conns.lookup id = some e) : (conns.insert id e').values.length = conns.values.length := by
  rw [Table.values_insert, (Table.values_perm h).length_eq]
  rfl

/-- A connection takes a step. -/
theorem Counted.update (h : Counted sv) (hlookup : sv.conns.lookup id = some e)
    (before : List St) (s : Loop P) : Counted (sv.update id before s) where
  numbered := h.numbered.update hlookup before s
  curr := by
    show sv.currConns = (sv.conns.insert id (s.c, s.proto)).values.length
    rw [values_length_insert hlookup, h.curr]
  total := by
    show sv.next = (sv.conns.insert id (s.c, s.proto)).values.length + sv.retired.length
    rw [values_length_insert hlookup, h.total]
  released := h.released

theorem Counted.reap (h : Counted sv) (hreleased : ∀ e, sv.conns.lookup id = some e →
      e.1.closing = true ∧ e.1.inflight = 0 → e.1.nLanes = 0 ∧ e.1.headPin = none ∧
      e.1.tls = none) :
    Counted (sv.reap id) := by
  have hnumbered := h.numbered.reap id
  unfold Server.reap at hnumbered ⊢
  split
  · exact h
  · rename_i e hlookup
    have hlength : sv.conns.values.length = (sv.conns.erase id).values.length + 1 :=
      (Table.values_perm hlookup).length_eq
    split_ifs with hdone
    · rw [hlookup] at hnumbered
      dsimp only at hnumbered
      rw [if_pos hdone] at hnumbered
      refine ⟨hnumbered, ?_, ?_, fun e' he' => ?_⟩
      · show sv.currConns - 1 = (sv.conns.erase id).values.length
        rw [h.curr, hlength, Nat.add_sub_cancel]
      · show sv.next = (sv.conns.erase id).values.length + (sv.retired ++ [e]).length
        rw [h.total, hlength, List.length_append, List.length_singleton]
        omega
      · rcases List.mem_append.1 he' with hold | hnew
        · exact h.released e' hold
        · rw [List.mem_singleton.1 hnew]
          exact hreleased e hlookup hdone
    · exact h

theorem Counted.step (h : Counted sv) (cfg : Config) (net : Transport P) (event : ServerEvent P) :
    Counted (sv.step cfg net event) := by
  have hstep := step_stepped cfg net sv event
  have hnumbered := h.numbered.step cfg net event
  generalize sv.step cfg net event = sv' at hstep hnumbered ⊢
  cases hstep with
  | same => exact h
  | dangling | leftGets | leftSets | disk => exact { h with }
  | accepted room p commands =>
      have hlength : ∀ e, (sv.conns.insert sv.next e).values.length = sv.conns.values.length + 1 :=
        fun e => by
        rw [Table.values_insert, Table.erase_of_not_mem (Table.lookup_eq_none.1 h.numbered.unknown),
          List.length_cons]
      refine ⟨hnumbered, ?_, ?_, h.released⟩
      · show sv.currConns + 1 = (sv.conns.insert sv.next _).values.length
        rw [hlength, h.curr]
      · show sv.next + 1 = (sv.conns.insert sv.next _).values.length + sv.retired.length
        rw [hlength, h.total]
        omega
  | @completed id e k found outstanding res room data commands =>
      refine (h.update found _ _).reap fun e' hlookup' hdone => ?_
      change (sv.conns.insert id _).lookup id = some e' at hlookup'
      rw [Table.lookup_insert_self] at hlookup'
      cases hlookup'
      have hpending : (sv.focus id e room).c.pending[k]? = some (e.1.pending[k]) :=
        List.getElem?_eq_getElem outstanding
      unfold Loop.complete at hdone ⊢
      rw [hpending] at hdone ⊢
      exact retire_released hdone
  | @retriedGet _ rest _ _ found =>
      have hpopped : Counted { sv with getWaiters := rest } := { h with }
      exact hpopped.update found _ _
  | @retriedSet _ rest _ _ found =>
      have hpopped : Counted { sv with setWaiters := rest } := { h with }
      exact hpopped.update found _ _
  | swept found => exact h.update found _ _

end Server

/-- A loop over a store that has been in use. -/
structure Service (P : Type) where
  cfg : Config
  ops : List Op
  chunkBytes : Nat
  chunk_pos : 0 < chunkBytes
  count : Nat
  readAhead : Bool
  net : Transport P

namespace Service

/-- The loop before its first connection. -/
def start (env : Service P) : Server P :=
  ⟨State.after env.cfg env.ops, BlockPool.create env.chunkBytes env.count, fun _ _ => 0,
    env.readAhead, ∅, [], [], 0, 0, [], false⟩

/-- The loop after some events. -/
def after (env : Service P) (events : List (ServerEvent P)) : Server P :=
  run (Server.step env.cfg env.net) env.start events

/-- Every event of the run is permitted. -/
def Allows (env : Service P) (ok : Server P → ServerEvent P → Prop)
    (events : List (ServerEvent P)) : Prop :=
  Allowed (Server.step env.cfg env.net) ok env.start events

theorem start_sound (env : Service P) : env.start.Sound env.cfg :=
  ⟨(reachable_bounded env.cfg env.ops).1, env.chunk_pos, BlockPool.create_nodup _ _,
    fun _ _ hlookup => by cases hlookup⟩

theorem start_counted (env : Service P) : env.start.Counted :=
  ⟨fun _ _ hlookup => (by cases hlookup), rfl, rfl, fun _ he => by cases he⟩

end Service

end GoblinStore.Net
