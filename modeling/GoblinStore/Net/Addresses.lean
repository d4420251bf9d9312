import GoblinStore.Net.Holdings

/-!
# Connections by their addresses

The queues of waiters hold pointers. `drain_get_waiters` and `drain_set_waiters` follow the first of
them without a look at the connection's state, and the allocator may place a new connection where
one has been freed. `Server.step` numbers the connections instead and retries only those that are
parked; `Server.stepAt` does what the source does. As long as nothing parks a connection that is
closing, the queues hold parked connections only, the two machines take the same steps
(`step_at_event`), and read buffers and pins are conserved (`buffers_and_pins_conserved`). A
connection that is parked and then freed leaves its address in the queue, where it may come to stand
for another connection (`reused_address_leaks`).
-/

namespace GoblinStore.Net

open GoblinStore.Lib GoblinStore.Core

variable {P : Type} {cfg : Config}

/-- What happens in the loop: a connection is accepted at the address of one that has been freed;
anything else, where a connection that is accepted has an address that was never in use. -/
inductive AddressEvent (P : Type) where
  | reuse (addr room : Nat) (p : P) (commands : Loop P → List (Command P))
  | event (event : ServerEvent P)

namespace Server

variable {sv : Server P}

/-- One event. Addresses are numbered in the order of their first use. -/
def stepAt (cfg : Config) (net : Transport P) (sv : Server P) : AddressEvent P → Server P
  | .reuse addr room p commands =>
      if addr < sv.next ∧ sv.conns.lookup addr = none then
        let s := (Seams.of cfg net commands).onConnection (sv.focus addr (Conn.create, p) room)
        { sv.update addr [] s with currConns := sv.currConns + 1 }
      else sv
  | .event (.wakeGet room framing commands) =>
      sv.drainGets room fun s => s.drainGet cfg framing (Seams.of cfg net commands)
  | .event (.wakeSet room sh commands) =>
      sv.drainSets room fun s => s.drainSet sh (Seams.of cfg net commands)
  | .event event => sv.step cfg net event

/-- Nobody else pins heads. -/
def NoPinnersAt : AddressEvent P → Prop
  | .reuse _ _ _ commands => ∀ s, Pinless (commands s)
  | .event event => NoPinners event

/-- Nothing parks a connection that is closing. -/
def SettlesAt (sv : Server P) : AddressEvent P → Prop
  | .reuse .. => True
  | .event event => sv.Settles event

/-- While all waiters are parked and open, it makes no difference that their state is not tested. -/
theorem step_at_event (h : Queued sv) (hlines : Lines sv) (hsound : Sound cfg sv)
    (net : Transport P) (event : ServerEvent P) :
    sv.stepAt cfg net (.event event) = sv.step cfg net event := by
  cases event with
  | wakeGet room framing commands =>
      rw [stepAt, Server.step, drainGets, drainGets]
      split
      · rfl
      · rename_i id rest hfirst
        have hmem : id ∈ sv.getWaiters := hfirst ▸ List.mem_cons_self
        obtain ⟨e, hlookup, hstate, -, hopen, -⟩ :=
          h.waiter hsound hlines.1 hmem (h.present id (Or.inl hmem))
        have hparked : e.1.state = .getWait ∧ ¬ e.1.closing = true :=
          ⟨hstate, by rw [hopen]; decide⟩
        have hwake : (sv.focus id e room).wakeGet cfg framing (Seams.of cfg net commands) = _ :=
          if_pos hparked
        rw [hlookup]
        dsimp only
        rw [hwake]
  | wakeSet room sh commands =>
      rw [stepAt, Server.step, drainSets, drainSets]
      split
      · rfl
      · rename_i id rest hfirst
        have hmem : id ∈ sv.setWaiters := hfirst ▸ List.mem_cons_self
        obtain ⟨e, hlookup, hstate, -, hopen, -⟩ :=
          h.waiter hsound hlines.2 hmem (h.present id (Or.inr hmem))
        have hparked : e.1.state = .setWait ∧ ¬ e.1.closing = true :=
          ⟨hstate, by rw [hopen]; decide⟩
        have hwake : (sv.focus id e room).wakeSet sh (Seams.of cfg net commands) = _ :=
          if_pos hparked
        rw [hlookup]
        dsimp only
        rw [hwake]
  | _ => rfl

/-- What a run keeps in which nothing parks a connection that is closing and nobody else pins
heads. -/
structure Kept (cfg : Config) (all : List Nat) (sv : Server P) : Prop where
  sound : Sound cfg sv
  numbered : Numbered sv
  lines : Lines sv
  queued : Queued sv
  conserved : Conserved all sv

variable {all : List Nat}

/-- An event of the machine that numbers its connections. -/
theorem Kept.step (h : Kept cfg all sv) (net : Transport P) {event : ServerEvent P}
    (hpinners : NoPinners event) (hsettles : sv.Settles event) :
    Kept cfg all (sv.step cfg net event) where
  sound := h.sound.step net event
  numbered := h.numbered.step cfg net event
  lines := h.lines.step h.sound h.numbered net event
  queued := h.queued.step h.lines h.sound h.numbered net hsettles
  conserved := h.conserved.step h.sound h.numbered net hpinners

/-- A connection at an address that has been freed: no waiter is left there. -/
theorem Kept.reuse (h : Kept cfg all sv) (net : Transport P) {addr : Nat} (haddr : addr < sv.next)
    (hnone : sv.conns.lookup addr = none) (room : Nat) (p : P)
    {commands : Loop P → List (Command P)} (hpinless : ∀ s, Pinless (commands s)) :
    Kept cfg all (sv.update addr []
      ((Seams.of cfg net commands).onConnection (sv.focus addr (Conn.create, p) room))) := by
  have habsent : addr ∉ sv.conns := Table.lookup_eq_none.1 hnone
  refine ⟨h.sound.update (h.sound.accepted addr room p net commands) rfl [],
    h.numbered.insert rfl haddr le_rfl, h.lines.enter haddr ⟨?_, ?_⟩ _, ?_,
    h.conserved.accept hnone net hpinless room p⟩
  · exact List.count_eq_zero.2 fun hmem => habsent (h.queued.present addr (Or.inl hmem))
  · exact List.count_eq_zero.2 fun hmem => habsent (h.queued.present addr (Or.inr hmem))
  · exact h.queued.update ((Seams.of_meek cfg net commands).onConnection _ ⟨rfl, rfl⟩)
      (List.Subset.refl _) (List.Subset.refl _)

theorem Kept.step_at (h : Kept cfg all sv) (net : Transport P) {event : AddressEvent P}
    (hpinners : NoPinnersAt event) (hsettles : sv.SettlesAt event) :
    Kept cfg all (sv.stepAt cfg net event) := by
  cases event with
  | event event =>
      -- all waiters are parked, so the machine that numbers its connections does the same
      rw [step_at_event h.queued h.lines h.sound]
      exact h.step net hpinners hsettles
  | reuse addr room p commands =>
      rw [stepAt]
      split_ifs with hfree
      · have hnew := h.reuse net hfree.1 hfree.2 room p hpinners
        exact ⟨{ hnew.sound with }, hnew.numbered, hnew.lines, { hnew.queued with },
          { hnew.conserved with }⟩
      · exact h

end Server

namespace Service

/-- The loop after some events. -/
def afterAt (env : Service P) (events : List (AddressEvent P)) : Server P :=
  run (Server.stepAt env.cfg env.net) env.start events

/-- Every event of the run is permitted. -/
def AllowsAt (env : Service P) (ok : Server P → AddressEvent P → Prop)
    (events : List (AddressEvent P)) : Prop :=
  Allowed (Server.stepAt env.cfg env.net) ok env.start events

end Service

/-- Whatever completes in whatever order, whatever is swept and wherever connections are placed: if
nothing parks a connection that is closing, and nobody but the connections pins heads, then every
buffer is free or in one lane of one connection, and the count of a pinned region is the number of
connections that have it pinned. When all connections are gone, all buffers are free and nothing is
pinned. -/
theorem buffers_and_pins_conserved (env : Service P) (hops : ∀ op ∈ env.ops, op.pins = false)
    (events : List (AddressEvent P))
    (h : env.AllowsAt (fun sv event => Server.NoPinnersAt event ∧ sv.SettlesAt event) events) :
    ((env.afterAt events).iobufs.free ++ heldBy (env.afterAt events).conns).Perm
        (List.range env.count) ∧
      (∀ k, refcount (env.afterAt events).σ.pins k = pinnedBy (env.afterAt events).conns k) ∧
      ((env.afterAt events).conns.values = [] →
        (env.afterAt events).iobufs.free.Perm (List.range env.count) ∧
          ∀ k, (env.afterAt events).σ.pins.lookup k = none) := by
  have hkept : (env.afterAt events).Kept env.cfg (List.range env.count) :=
    invariant_run (I := fun sv => sv.Kept env.cfg (List.range env.count))
      (fun sv event hok hs => hs.step_at env.net hok.1 hok.2)
      ⟨env.start_sound, env.start_counted.numbered, env.start_orderly.lines, env.start_queued,
        env.start_conserved hops⟩ h
  have hconserved := hkept.conserved
  generalize env.afterAt events = sv at hconserved
  refine ⟨hconserved.bufs, fun k => ?_, fun hgone => ?_⟩
  · rw [hconserved.counts.counted, Table.values_eq, List.countP_map, ← hconserved.pins.countP_eq]
    exact count_to_list _ _ _
  · have hbufs := hconserved.bufs
    have hpins := hconserved.pins
    rw [heldBy, hgone, List.flatMap_nil, List.append_nil] at hbufs
    rw [pinsOf, hgone, List.flatMap_nil] at hpins
    refine ⟨hbufs, hconserved.counts.none_held ?_⟩
    rw [Table.values_eq, hpins.symm.eq_nil]
    rfl

/-- A connection goes with its client: an operation of it completes with nothing. -/
def goes (id : Nat) : AddressEvent Unit := .event (.complete id 0 0 256 (fun _ => 0) fun _ => [])

/-- The client of the first connection goes, and the next connection is placed at its address: its
GET takes the buffer. A second GET waits for it. -/
def secondGetReuses : List (AddressEvent Unit) :=
  [.event (accepts 256), goes 0, .reuse 0 256 () fun _ => [], .event (receives 0 [getObject]),
    .event (accepts 256), .event (receives 1 [getObject])]

/-- One GET streams from the only buffer and a pinned head, and a second one is parked without
either. -/
theorem buffers_and_pins_conserved_parked :
    ((oneBuffer.afterAt secondGetReuses).iobufs.free ++
      heldBy (oneBuffer.afterAt secondGetReuses).conns).Perm [0] ∧
      (oneBuffer.afterAt secondGetReuses).iobufs.free = [] ∧
      (oneBuffer.afterAt secondGetReuses).getWaiters = [1] ∧
      refcount (oneBuffer.afterAt secondGetReuses).σ.pins (regionId 0 0) = 1 ∧
      pinnedBy (oneBuffer.afterAt secondGetReuses).conns (regionId 0 0) = 1 := by
  have hpinless : Pinless [getObject] := fun op hop => by
    rcases List.mem_singleton.1 hop with ⟨⟩
  have hnone : Pinless ([] : List (Command Unit)) := fun _ hop => by cases hop
  have hopen : ∀ id, id < 2 →
      ((oneBuffer.afterAt (secondGetReuses.take (2 * id + 3))).conns.lookup id).any
        (fun e => e.1.closing) = false := by
    decide +kernel
  have hsettles : ∀ id, id < 2 →
      (oneBuffer.afterAt (secondGetReuses.take (2 * id + 3))).SettlesAt
        (.event (receives id [getObject])) := by
    intro id hid e hlookup hclosing
    have hany := (congrArg (Option.any fun e => e.1.closing) hlookup).symm.trans (hopen id hid)
    cases hany.symm.trans hclosing
  have hallows : oneBuffer.AllowsAt (fun sv event => Server.NoPinnersAt event ∧ sv.SettlesAt event)
      secondGetReuses :=
    ⟨⟨fun _ => hnone, trivial⟩, ⟨fun _ => hnone, fun _ _ _ _ _ hcommand => by cases hcommand⟩,
      ⟨fun _ => hnone, trivial⟩, ⟨fun _ => hpinless, hsettles 0 (by decide)⟩,
      ⟨fun _ => hnone, trivial⟩, ⟨fun _ => hpinless, hsettles 1 (by decide)⟩, trivial⟩
  obtain ⟨hbufs, hcounts, -⟩ := buffers_and_pins_conserved oneBuffer (by decide)
    secondGetReuses hallows
  have hcount : pinnedBy (oneBuffer.afterAt secondGetReuses).conns (regionId 0 0) = 1 := by
    decide +kernel
  exact ⟨hbufs, by decide +kernel, by decide +kernel, (hcounts _).trans hcount, hcount⟩

/-- Two read buffers and no read-ahead, over the store of `oneBuffer`. -/
def twoBuffers : Service Unit := { oneBuffer with count := 2, readAhead := false }

/-- One iteration of `drain_get_waiters`. -/
def drains : AddressEvent Unit := .event (.wakeGet 256 bareFraming fun _ => [])

/-- Two GETs take the buffers, and a third waits. A connection that receives a store is swept; its
receive completes all the same, with the end of the store and a GET behind it, which is parked, and
it is freed. The next connection is placed at its address, and its GET waits too. The first two go:
the buffers are taken by the GET at that address and by the third one, and the GET is begun once
more, which parks it. When the third one goes, it is begun a second time. Then it goes as well, with
its two sends. -/
def reusedAddress : List (AddressEvent Unit) :=
  [.event (accepts 256), .event (receives 0 [getObject]), .event (accepts 256),
    .event (receives 1 [getObject]), .event (accepts 256), .event (receives 2 [getObject]),
    .event (accepts 256), .event (receives 3 [.store true]), .event (.sweep 3),
    .event (receives 3 [.stored, getObject]), .reuse 3 256 () fun _ => [], drains,
    .event (receives 3 [getObject]), goes 0, goes 1, drains, drains, drains, goes 2,
    drains, goes 3, goes 3]

/-- All connections are gone; one of the two buffers is not free, and the head of the object is
pinned. -/
theorem reused_address_leaks :
    (twoBuffers.afterAt reusedAddress).conns.values.length = 0 ∧
      (twoBuffers.afterAt reusedAddress).iobufs.free = [0] ∧
      refcount (twoBuffers.afterAt reusedAddress).σ.pins (regionId 0 0) = 1 := by
  decide +kernel

end GoblinStore.Net
