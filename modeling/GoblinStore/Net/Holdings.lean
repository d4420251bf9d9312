import GoblinStore.Net.Waiters
import GoblinStore.Storage.PinCounts

/-!
# What connections hold

`Holds` says for one connection that no read buffer and no pin is lost on the way of a GET; it is in
the custody of the GET. `Server.Conserved` says so for all connections of a loop, and every event
keeps it.
-/

namespace GoblinStore.Net

open GoblinStore.Lib GoblinStore.Core

variable {P : Type} {cfg : Config} {s t u : Loop P} {v : Seams P} {all others : List Nat}
  {pins : List (Nat × Region)}

/-- Of the buffers in `all`, each is free, in a lane of the connection or held by others; of the
pins that are held, the connection has its own and others have the rest; a connection without a GET
holds nothing. -/
structure Holds (all others : List Nat) (pins : List (Nat × Region)) (s : Loop P) : Prop where
  bufs : (s.iobufs.free ++ (heldBufs s.c.lane ++ others)).Perm all
  pins : (s.c.headPin.toList ++ pins).Perm s.σ.held.pairs
  fresh : Fresh s.σ
  counts : PinCounts s.σ.pins s.σ.held
  rest : s.c.state.resting = true → heldBufs s.c.lane = [] ∧ s.c.headPin = none

/-- The holdings depend on the buffers and pins only. -/
theorem Holds.untouched (h : Holds all others pins s) (hsame : Untouched s t) :
    Holds all others pins t := by
  obtain ⟨hcustody, hrests⟩ := hsame
  simp only [Loop.custody, Prod.mk.injEq] at hcustody
  obtain ⟨hstore, hiobufs, hbufs, hpin⟩ := hcustody
  refine ⟨?_, ?_, ?_, ?_, fun hresting => ?_⟩
  · rw [hiobufs, hbufs]
    exact h.bufs
  · rw [hpin, hstore]
    exact h.pins
  · rw [hstore]
    exact h.fresh
  · rw [hstore]
    exact h.counts
  · rw [hbufs, hpin]
    exact h.rest (hrests hresting)

/-! ## Giving back -/

/-- `release_lanes` gives the buffers of the lanes back. -/
theorem Holds.release_lanes (h : Holds all others pins s) :
    Holds all others pins s.releaseLanes ∧ heldBufs s.releaseLanes.c.lane = [] := by
  rw [release_lanes_eq]
  refine ⟨{ h with bufs := ?_, rest := fun hresting => ⟨rfl, (h.rest hresting).2⟩ }, rfl⟩
  show ((s.iobufs.free ++ heldBufs s.c.lane) ++ ([] ++ others)).Perm all
  rw [List.nil_append, List.append_assoc]
  exact h.bufs

/-- `unpin_if_held` gives the pin back. -/
theorem Holds.unpin (h : Holds all others pins s) :
    Holds all others pins s.unpinIfHeld ∧ s.unpinIfHeld.c.headPin = none ∧
      heldBufs s.unpinIfHeld.c.lane = heldBufs s.c.lane := by
  unfold Loop.unpinIfHeld
  split
  · rename_i hpin
    exact ⟨h, hpin, rfl⟩
  · rename_i pin r hpin
    have hperm := h.pins
    rw [hpin] at hperm
    have hheld : s.σ.held.lookup pin = some r := Table.mem_pairs.1 (hperm.subset List.mem_cons_self)
    obtain ⟨herase, hcounts⟩ := h.counts.unpin_head hheld
    refine ⟨⟨h.bufs, ?_, @Fresh.apply oneDriveConfig _ h.fresh (.unpinHead pin), hcounts,
      fun hresting => ⟨(h.rest hresting).1, rfl⟩⟩, rfl, rfl⟩
    show pins.Perm (s.σ.unpinHead pin).held.pairs
    rw [herase]
    exact (hperm.trans (Table.pairs_perm hheld)).cons_inv

/-- The GET is over, or given up. -/
theorem Holds.drop_get (h : Holds all others pins s) :
    Holds all others pins s.dropGet ∧ heldBufs s.dropGet.c.lane = [] ∧
      s.dropGet.c.headPin = none := by
  obtain ⟨hreleased, hlanes⟩ := h.release_lanes
  obtain ⟨hunpinned, hpin, hlanes'⟩ := hreleased.unpin
  exact ⟨{ hunpinned with }, hlanes'.trans hlanes, hpin⟩

/-- The holdings are in custody. -/
theorem holds_custody (all others : List Nat) (pins : List (Nat × Region)) :
    Custody (P := P) (Holds all others pins) where
  untouched h hsame := h.untouched hsame
  unpin _ h := h.unpin.1
  drop _ h := h.drop_get.1
  finish _ h := by
    obtain ⟨hdrop, hlanes, hpin⟩ := h.drop_get
    exact { hdrop with rest := fun _ => ⟨hlanes, hpin⟩ }

/-! ## Taking -/

/-- A snapshot pins the head of its object, if it has one. -/
theorem open_snapshot_pins {σ σ' : State} {d : Digest} {faults : Faults}
    {snap : Option State.Snapshot} (hcounts : PinCounts σ.pins σ.held) (hfresh : Fresh σ)
    (hsnap : State.openSnapshot cfg σ d faults = (snap, σ')) :
    PinCounts σ'.pins σ'.held ∧ Fresh σ' ∧
      σ'.held.pairs = ((snap.bind (·.pin)).map fun r => (σ.pinSeq, r)).toList ++ σ.held.pairs := by
  have hfresh' : Fresh (State.openSnapshot cfg σ d faults).2 :=
    @Fresh.apply cfg σ hfresh (.openSnapshot d faults)
  rw [hsnap] at hfresh'
  refine ⟨?_, hfresh', ?_⟩ <;> unfold State.openSnapshot at hsnap <;> split at hsnap
  · cases hsnap
    exact hcounts
  · split_ifs at hsnap
    · cases hsnap
      exact hcounts
    · dsimp only at hsnap
      split at hsnap
      · cases hsnap
        exact hcounts
      · split at hsnap <;> cases hsnap
        · exact hcounts
        · exact (PinCounts.pin_region (σ := { σ with objectPolicy := _, policy := _ }) hcounts
            ⟨hfresh.handle_lt, hfresh.pin_lt⟩ _).2
  · cases hsnap
    rfl
  · split_ifs at hsnap
    · cases hsnap
      rfl
    · dsimp only at hsnap
      split at hsnap
      · cases hsnap
        rfl
      · split at hsnap <;> cases hsnap
        · rfl
        · exact (PinCounts.pin_region (σ := { σ with objectPolicy := _, policy := _ }) hcounts
            ⟨hfresh.handle_lt, hfresh.pin_lt⟩ _).1

/-- The buffer of the first lane is held alone. -/
theorem held_bufs_first {lane : Fin 2 → Lane} {l : Lane} (hone : (lane 1).haveBuf = false)
    (hhave : l.haveBuf = true) :
    heldBufs (Function.update lane 0 l) = [l.buf] := by
  simp [heldBufs, hone, hhave]

/-- The buffers of both lanes are held. -/
theorem held_bufs_second {lane : Fin 2 → Lane} {l : Lane} (hzero : (lane 0).haveBuf = true)
    (hhave : l.haveBuf = true) :
    heldBufs (Function.update lane 1 l) = [(lane 0).buf, l.buf] := by
  simp [heldBufs, hzero, hhave]

/-- The lanes take their buffers from the free ones. -/
theorem hold_lanes_bufs (h : s.holdLanes = some t) (hnone : heldBufs s.c.lane = [])
    (hbufs : (s.iobufs.free ++ others).Perm all) :
    (t.iobufs.free ++ (heldBufs t.c.lane ++ others)).Perm all := by
  have hone : (s.c.lane 1).haveBuf = false := by
    rw [heldBufs, List.append_eq_nil_iff] at hnone
    have hsecond := hnone.2
    by_contra hhave
    rw [if_pos (by simpa using hhave)] at hsecond
    cases hsecond
  unfold Loop.holdLanes at h
  split at h
  · cases h
  · rename_i buf iobufs hacquire
    obtain ⟨hfree, -⟩ := acquire_some hacquire
    rw [hfree, List.append_assoc] at hbufs
    rw [hold_lane_eq, Option.some.injEq] at h
    split at h
    · cases h
      dsimp only
      rw [held_bufs_first hone rfl]
      exact hbufs
    · rename_i buf' iobufs' hacquire'
      cases h
      split_ifs at hacquire'
      obtain ⟨hfree', -⟩ := acquire_some hacquire'
      rw [hfree', List.append_assoc] at hbufs
      refine List.Perm.trans (List.Perm.append_left _ ?_) hbufs
      rw [hold_lane_eq]
      dsimp only
      rw [held_bufs_second rfl rfl]
      exact List.Perm.swap buf' buf others

/-- `begin_get` for a connection that holds nothing. -/
theorem Holds.begin_get (h : Holds all others pins s) (hresting : s.c.state.resting = true)
    (framing : Framing) :
    Holds all others pins (s.beginGet cfg framing).2 := by
  obtain ⟨hlanes, hpin⟩ := h.rest hresting
  have hbufs := h.bufs
  have hpins := h.pins
  rw [hlanes, List.nil_append] at hbufs
  rw [hpin, Option.toList_none, List.nil_append] at hpins
  unfold Loop.beginGet
  split
  · rename_i σ hsnap
    obtain ⟨hcounts, hfresh, hheld⟩ := open_snapshot_pins h.counts h.fresh hsnap
    refine ⟨h.bufs, ?_, hfresh, hcounts, fun _ => ⟨hlanes, hpin⟩⟩
    show (s.c.headPin.toList ++ pins).Perm σ.held.pairs
    rw [hheld]
    exact h.pins
  · rename_i snap σ hsnap
    obtain ⟨hcounts, hfresh, hheld⟩ := open_snapshot_pins h.counts h.fresh hsnap
    rw [Option.bind_some] at hheld
    have hpinned : ((snap.pin.map fun r => (s.σ.pinSeq, r)).toList ++ pins).Perm σ.held.pairs := by
      rw [hheld]
      exact List.Perm.append_left _ hpins
    have hframe : ∀ t : Loop P, t.σ = σ →
        (t.iobufs.free ++ (heldBufs t.c.lane ++ others)).Perm all →
        Holds all others pins (t.frameHit snap.info (snap.pin.map fun r => (s.σ.pinSeq, r))
          framing) := by
      rintro t rfl htaken
      exact ⟨htaken, hpinned, hfresh, hcounts, nofun⟩
    dsimp only
    split_ifs
    · split
      · -- no buffer: the pin is given back
        cases hsnapPin : snap.pin with
        | none =>
            rw [hsnapPin] at hpinned
            refine ⟨h.bufs, ?_, hfresh, hcounts, fun _ => ⟨hlanes, hpin⟩⟩
            show (s.c.headPin.toList ++ pins).Perm σ.held.pairs
            rw [hpin]
            exact hpinned
        | some r =>
            rw [hsnapPin] at hpinned
            have hlookup : σ.held.lookup s.σ.pinSeq = some r :=
              Table.mem_pairs.1 (hpinned.subset List.mem_cons_self)
            obtain ⟨herase, hcounts'⟩ := hcounts.unpin_head hlookup
            refine ⟨h.bufs, ?_, @Fresh.apply cfg _ hfresh (.unpinHead _), hcounts',
              fun _ => ⟨hlanes, hpin⟩⟩
            show (s.c.headPin.toList ++ pins).Perm (σ.unpinHead s.σ.pinSeq).held.pairs
            rw [hpin, herase]
            exact (hpinned.trans (Table.pairs_perm hlookup)).cons_inv
      · rename_i s' hhold
        have htaken := hold_lanes_bufs hhold hlanes hbufs
        obtain ⟨iobufs, lane, n, rfl⟩ := hold_lanes_eq hhold
        exact hframe _ rfl htaken
    · exact hframe _ rfl h.bufs

/-! ## Protocols -/

/-- No command pins a head. -/
def Pinless (commands : List (Command P)) : Prop := ∀ op, .act op ∈ commands → op.pins = false

variable {commands : List (Command P)}

/-- The commands behind the first. -/
theorem Pinless.tail {command : Command P} (h : Pinless (command :: commands)) :
    Pinless commands := fun op hop => h op (List.mem_cons_of_mem _ hop)

/-- Another step of the store. -/
theorem Holds.act (h : Holds all others pins s) {op : Op} (hop : op.pins = false) :
    Holds all others pins { s with σ := s.σ.apply cfg op } := by
  obtain ⟨hheld, hcounts⟩ := @PinCounts.apply cfg s.σ h.counts h.fresh op hop
  refine ⟨h.bufs, ?_, Fresh.apply h.fresh op, hcounts, h.rest⟩
  show (s.c.headPin.toList ++ pins).Perm (s.σ.apply cfg op).held.pairs
  rw [hheld]
  exact h.pins

/-- The loop of `process` conserves the buffers and the pins. -/
theorem Holds.process_loop (h : Holds all others pins s) (hresting : s.c.state.resting = true)
    (https : Bool) (hpinless : Pinless commands) :
    Holds all others pins (s.processLoop cfg https commands) := by
  induction commands generalizing s with
  | nil => exact h.untouched (flush_untouched https s)
  | cons command rest ih =>
      have hnothing := h.rest hresting
      cases command with
      | put p => exact ih { h with } hresting hpinless.tail
      | reply bytes => exact ih { h with } hresting hpinless.tail
      | act op => exact ih (h.act (hpinless op List.mem_cons_self)) hresting hpinless.tail
      | store sh => exact ih { h with rest := fun _ => hnothing } rfl hpinless.tail
      | park => exact { h with rest := fun _ => hnothing }
      | stored => exact ih { h with rest := fun _ => hnothing } rfl hpinless.tail
      | keepAlive on => exact ih { h with } hresting hpinless.tail
      | get key reqRange framing =>
          have hasked : Holds all others pins { s with c := { s.c with
              getKey := key, reqRange := reqRange, sh := false } } := { h with }
          have hopened := @Holds.begin_get P cfg _ all others pins hasked hresting framing
          have hbegun := begin_get_begun cfg { s with c := { s.c with
              getKey := key, reqRange := reqRange, sh := false } } framing
          rw [Loop.processLoop]
          split
          · rename_i s' heq
            rw [heq] at hopened
            exact hopened
          · rename_i s' heq
            rw [heq] at hopened hbegun
            split_ifs with hheader
            · exact hopened.untouched (flush_untouched https s')
            · -- a miss leaves the connection idle
              rcases hbegun.ends with ⟨-, -, hidle, -⟩ | ⟨-, -, hstate, -⟩ | ⟨hfalse, -⟩
              · exact ih hopened (by rw [hidle]; rfl) hpinless.tail
              · exact absurd hstate hheader
              · cases hfalse
      | quit =>
          refine Holds.untouched ?_ (flush_untouched https _)
          exact { h with }
      | tooLong => exact { h with }
      | more =>
          rw [Loop.processLoop]
          split_ifs
          · exact ih h hresting hpinless.tail
          · exact h.untouched (flush_untouched https s)
      | sslError =>
          rw [Loop.processLoop]
          split_ifs
          · exact h.untouched ⟨rfl, id⟩
          · exact h.untouched (flush_untouched https s)
      | handshake => exact h.untouched (flush_untouched https s)

/-- The same of a call of `process`. -/
theorem Holds.process (h : Holds all others pins s) (https : Bool)
    (hpinless : Pinless commands) : Holds all others pins (s.process cfg https commands) := by
  unfold Loop.process
  split_ifs with hstate
  · refine h.process_loop ?_ https hpinless
    rcases hstate with hstate | hstate <;> rw [hstate] <;> rfl
  · exact h

/-- The same of `ssl_read_step`. -/
theorem Holds.ssl_read_step (h : Holds all others pins s) (hpinless : Pinless commands) :
    Holds all others pins (s.sslReadStep cfg commands) := by
  unfold Loop.sslReadStep
  split_ifs
  · exact h
  · split
    · exact h.process true hpinless.tail
    · exact h.untouched ⟨rfl, id⟩
    · exact h.untouched (start_untouched s _)

/-- The same of `drive_handshake`. -/
theorem Holds.drive_handshake (h : Holds all others pins s)
    (hpinless : Pinless commands) : Holds all others pins (s.driveHandshake cfg commands) := by
  unfold Loop.driveHandshake
  split_ifs
  · exact h
  · split
    · refine Holds.ssl_read_step ?_ hpinless.tail
      exact { h with }
    · exact h.untouched ⟨rfl, id⟩
    · exact h.untouched (start_untouched s _)

/-- What the protocols override keeps the invariant. -/
structure Seams.Conserves (v : Seams P) (I : Loop P → Prop) : Prop where
  process : ∀ s, I s → I (v.process s)
  startRecv : ∀ s, I s → I (v.startRecv s)
  onConnection : ∀ s, I s → I (v.onConnection s)
  onPoll : ∀ s, I s → I (v.onPoll s)

/-- Both transports conserve the buffers and the pins. -/
theorem Seams.of_conserves (cfg : Config) (net : Transport P) {commands : Loop P → List (Command P)}
    (hpinless : ∀ s, Pinless (commands s)) :
    (Seams.of cfg net commands).Conserves (Holds all others pins) where
  process s h := h.process net.https (hpinless s)
  startRecv s h := by
    show Holds all others pins (if net.https then s.sslReadStep cfg (commands s) else s.startRecv)
    split_ifs
    · exact h.ssl_read_step (hpinless s)
    · exact h.untouched (start_untouched s _)
  onConnection s h := by
    show Holds all others pins (if net.https then
      { s with c := { s.c with tls := some true } }.driveHandshake cfg
        (commands s) else s.startRecv)
    split_ifs
    · refine Holds.drive_handshake ?_ (hpinless s)
      exact { h with }
    · exact h.untouched (start_untouched s _)
  onPoll s h := by
    unfold Seams.of
    dsimp only
    split_ifs
    · exact h
    · split
      · exact h.untouched ⟨rfl, id⟩
      · exact h.drive_handshake (hpinless s)
      · exact h.ssl_read_step (hpinless s)
    · exact h.untouched ⟨rfl, id⟩

/-! ## Nothing is left -/

/-- Nothing is left of a GET that is over, or given up. -/
theorem drop_get_releases (s : Loop P) :
    heldBufs s.dropGet.c.lane = [] ∧ s.dropGet.c.headPin = none ∧ s.dropGet.c.rs = none := by
  unfold Loop.dropGet Loop.unpinIfHeld
  rw [release_lanes_eq]
  split
  · rename_i hpin
    exact ⟨rfl, hpin, rfl⟩
  · exact ⟨rfl, rfl, rfl⟩

/-- Nothing is left of a connection that is freed. -/
theorem retire_releases (hdone : s.retire.c.closing = true ∧ s.retire.c.inflight = 0) :
    heldBufs s.retire.c.lane = [] ∧ s.retire.c.headPin = none := by
  unfold Loop.retire at hdone ⊢
  split_ifs at hdone ⊢ with hretires
  · exact ⟨(drop_get_releases s).1, (drop_get_releases s).2.1⟩
  · exact absurd hdone hretires

/-- A completion that frees the connection leaves nothing. -/
theorem complete_releases {k : Nat} {res : Int} {room : Nat} {data : Nat → UInt8}
    (hk : k < s.c.pending.length) (hdone : (s.complete cfg k res room data v).c.closing = true ∧
      (s.complete cfg k res room data v).c.inflight = 0) :
    heldBufs (s.complete cfg k res room data v).c.lane = [] ∧
      (s.complete cfg k res room data v).c.headPin = none := by
  unfold Loop.complete at hdone ⊢
  split at hdone
  · rename_i hnone
    exact absurd (List.getElem?_eq_none_iff.1 hnone) (Nat.not_le.2 hk)
  · exact retire_releases hdone

/-! ## Handlers -/

namespace Custody

variable {A : Terms} {I : Loop P → Prop}

/-- A sweep takes nothing from a GET that it closes. -/
theorem sweep (hI : Custody I) (h : I s) : I s.sweep := by
  unfold Loop.sweep
  split_ifs
  · exact hI.untouched h ⟨rfl, id⟩
  · exact h

section

variable (hI : Custody I) (hv : v.Conserves I)
include hI hv

/-- Whatever the handler of a completion comes to. -/
theorem handled {io : Io} {bytes : List UInt8} (h : I s) (hhandled : Handled v io bytes s t) :
    I t := by
  cases hhandled with
  | stays _ _ _ _ _ _ passes => exact passes I hI h
  | streams _ _ streamed =>
      cases streamed with
      | goes _ _ _ _ passes => exact passes I hI h
      | resumes t _ _ _ _ passes => exact hv.process t (passes I hI h)
  | input => exact hv.process _ (hI.untouched h ⟨rfl, id⟩)
  | flushed t _ _ _ _ _ _ _ passes => exact hv.startRecv t (passes I hI h)
  | polled => exact hv.onPoll s h

/-- A completion. -/
theorem complete (hinv : Inv A cfg s) (h : I s) (k : Nat) (res : Int) (room : Nat)
    (data : Nat → UInt8) :
    I (s.complete cfg k res room data v) := by
  cases hk : s.c.pending[k]? with
  | none =>
      unfold Loop.complete
      rw [hk]
      exact h
  | some io =>
      obtain ⟨t, heq, hhandled⟩ := @complete_handled _ cfg s v io k hk
        (hinv.streams_of_read (List.mem_of_getElem? hk)) res room data
      have htaken : I (s.taken k room) := hI.untouched h ⟨rfl, id⟩
      rw [heq]
      refine (retire_carried t).passes I hI (handled hI hv ?_ hhandled)
      exact (transferred_carried _ io _).passes I hI htaken

/-- A parked GET is retried. -/
theorem wake_get (h : I s) {framing : Framing}
    (hbegin : s.c.state = .getWait → ∀ t, Untouched s t → t.c.getKey = s.c.getKey →
      t.c.reqRange = s.c.reqRange →
      t.c.state = s.c.state → I (t.beginGet cfg framing).2) : I (s.wakeGet cfg framing v) := by
  unfold Loop.wakeGet Loop.drainGet
  split_ifs with hparked
  · have hbegun := hbegin hparked.1 { s with c := { s.c with queues := s.c.queues.erase .getWait } }
      ⟨rfl, id⟩ rfl rfl rfl
    split
    · rename_i s' heq
      rw [heq] at hbegun
      exact hbegun
    · rename_i s' heq
      rw [heq] at hbegun
      split_ifs
      · exact hI.untouched hbegun (start_untouched _ _)
      · exact hv.process _ hbegun
  · exact h

/-- A parked store is retried. -/
theorem wake_set (h : I s) (sh : Bool) : I (s.wakeSet sh v) := by
  unfold Loop.wakeSet Loop.drainSet
  split_ifs with hparked
  · refine hv.process _ (hI.untouched h ⟨rfl, fun _ => ?_⟩)
    rw [hparked.1]
    rfl
  · exact h

end

end Custody

/-! ## All connections -/

/-- The pins of these connections. -/
def pinsOf (conns : Table Nat (Conn × P)) : List (Nat × Region) :=
  conns.values.flatMap fun e => e.1.headPin.toList

namespace Server

variable {sv : Server P} {id : Nat} {e : Conn × P}

/-- Every buffer is free or in one lane of one connection, and every pin that is held is that of one
connection. -/
structure Conserved (all : List Nat) (sv : Server P) : Prop where
  bufs : (sv.iobufs.free ++ heldBy sv.conns).Perm all
  pins : (pinsOf sv.conns).Perm sv.σ.held.pairs
  fresh : Fresh sv.σ
  counts : PinCounts sv.σ.pins sv.σ.held
  rest : ∀ id e, sv.conns.lookup id = some e → e.1.state.resting = true →
    heldBufs e.1.lane = [] ∧ e.1.headPin = none

/-- The pins of the connections, one of them first. -/
theorem pins_of_perm {conns : Table Nat (Conn × P)} (h : conns.lookup id = some e) :
    (pinsOf conns).Perm (e.1.headPin.toList ++ pinsOf (conns.erase id)) :=
  (Table.values_perm h).flatMap_right _

/-- One connection. -/
theorem Conserved.focus (h : Conserved all sv) (hlookup : sv.conns.lookup id = some e)
    (room : Nat) :
    Holds all (heldBy (sv.conns.erase id)) (pinsOf (sv.conns.erase id)) (sv.focus id e room) :=
  ⟨((held_by_perm hlookup).symm.append_left _).trans h.bufs,
    (pins_of_perm hlookup).symm.trans h.pins, h.fresh, h.counts, h.rest id e hlookup⟩

/-- A connection takes a step, or is new. -/
theorem Conserved.update (h : Conserved all sv)
    (hs : Holds all (heldBy (sv.conns.erase id)) (pinsOf (sv.conns.erase id)) s)
    (before : List St) :
    Conserved all (sv.update id before s) := by
  refine { hs with rest := fun id' e hlookup => ?_ }
  change (sv.conns.insert id (s.c, s.proto)).lookup id' = some e at hlookup
  rw [Table.lookup_insert] at hlookup
  split_ifs at hlookup
  · cases hlookup
    exact hs.rest
  · exact h.rest id' e hlookup

/-- A connection that holds nothing is freed. -/
theorem Conserved.reap (h : Conserved all sv) (hreleased : ∀ e, sv.conns.lookup id = some e →
      e.1.closing = true ∧ e.1.inflight = 0 → heldBufs e.1.lane = [] ∧ e.1.headPin = none) :
    Conserved all (sv.reap id) := by
  unfold Server.reap
  split
  · exact h
  · rename_i e hlookup
    split_ifs with hdone
    · obtain ⟨hlanes, hpin⟩ := hreleased e hlookup hdone
      have hbufs := held_by_perm hlookup
      have hpins := pins_of_perm hlookup
      rw [hlanes, List.nil_append] at hbufs
      rw [hpin, Option.toList_none, List.nil_append] at hpins
      refine ⟨(hbufs.symm.append_left _).trans h.bufs, hpins.symm.trans h.pins, h.fresh, h.counts,
        fun id' e' hlookup' => ?_⟩
      change (sv.conns.erase id).lookup id' = some e' at hlookup'
      rw [Table.lookup_erase] at hlookup'
      split_ifs at hlookup'
      exact h.rest id' e' hlookup'
    · exact h

/-- Nobody else pins heads. -/
def NoPinners : ServerEvent P → Prop
  | .accept _ _ commands | .complete _ _ _ _ _ commands | .wakeGet _ _ commands
  | .wakeSet _ _ commands =>
      ∀ s, Pinless (commands s)
  | .sweep _ => True
  | .disk op => op.pins = false

/-- A connection is accepted. -/
theorem Conserved.accept (h : Conserved all sv) (hnone : sv.conns.lookup id = none)
    (net : Transport P) {commands : Loop P → List (Command P)}
    (hpinless : ∀ s, Pinless (commands s)) (room : Nat) (p : P) :
    Conserved all (sv.update id []
      ((Seams.of cfg net commands).onConnection (sv.focus id (Conn.create, p) room))) := by
  have hcreated : Holds all (heldBy (sv.conns.erase id)) (pinsOf (sv.conns.erase id))
      (sv.focus id (Conn.create, p) room) := by
    rw [Table.erase_of_not_mem (Table.lookup_eq_none.1 hnone)]
    exact { h with rest := fun _ => ⟨rfl, rfl⟩ }
  exact h.update ((Seams.of_conserves cfg net hpinless).onConnection _ hcreated) []

/-- An event of the server conserves the buffers and the pins. -/
theorem Conserved.step (h : Conserved all sv) (hsound : Sound cfg sv) (hnumbered : Numbered sv)
    (net : Transport P) {event : ServerEvent P} (hpinners : NoPinners event) :
    Conserved all (sv.step cfg net event) := by
  have hstep := step_stepped cfg net sv event
  generalize sv.step cfg net event = sv' at hstep ⊢
  cases hstep with
  | same => exact h
  | dangling | leftGets | leftSets => exact { h with }
  | accepted room p =>
      have hnew := @Conserved.accept _ cfg _ _ _ h hnumbered.unknown net _ hpinners room p
      exact { hnew with }
  | @completed id e k found outstanding res room data commands =>
      have hdone := (holds_custody all _ _).complete (Seams.of_conserves cfg net hpinners)
        (hsound.conn id e found room) (h.focus found room) k res room data
      refine (h.update hdone _).reap fun e' hlookup' hfreed => ?_
      change (sv.conns.insert id _).lookup id = some e' at hlookup'
      rw [Table.lookup_insert_self] at hlookup'
      cases hlookup'
      exact complete_releases outstanding hfreed
  | @retriedGet id rest e first found opened room framing =>
      have hpopped : Conserved all { sv with getWaiters := rest } := { h with }
      have hfocus := h.focus found room
      exact hpopped.update ((holds_custody all _ _).wake_get
        (Seams.of_conserves cfg net hpinners) hfocus
        fun hparked t hsame _ _ hstate =>
        (hfocus.untouched hsame).begin_get (by rw [hstate, hparked]; rfl) framing) _
  | @retriedSet id rest e first found opened room sh =>
      have hpopped : Conserved all { sv with setWaiters := rest } := { h with }
      exact hpopped.update ((holds_custody all _ _).wake_set (Seams.of_conserves cfg net hpinners)
        (h.focus found room) sh) _
  | swept found => exact h.update ((holds_custody all _ _).sweep (h.focus found 0)) _
  | disk op =>
      obtain ⟨hheld, hcounts⟩ := @PinCounts.apply cfg sv.σ h.counts h.fresh op hpinners
      refine ⟨h.bufs, ?_, Fresh.apply h.fresh op, hcounts, h.rest⟩
      show (pinsOf sv.conns).Perm (sv.σ.apply cfg op).held.pairs
      rw [hheld]
      exact h.pins

end Server

/-- The connections whose pin is on the region with this key. -/
def pinnedBy (conns : Table Nat (Conn × P)) (k : Nat) : Nat :=
  conns.values.countP fun e => e.1.headPin.any fun pin => pin.2.id = k

/-- Counting in the options of a list. -/
theorem count_to_list {α β : Type} (l : List α) (f : α → Option β) (p : β → Bool) :
    (l.flatMap fun a => (f a).toList).countP p = l.countP fun a => (f a).any p := by
  induction l with
  | nil => rfl
  | cons a rest ih =>
      rw [List.flatMap_cons, List.countP_append, ih, List.countP_cons, Nat.add_comm]
      cases f a with
      | none => rfl
      | some b => simp [List.countP_cons]

/-- A store that nobody has pinned anything in. -/
theorem unpinned_store (cfg : Config) {ops : List Op} (hops : ∀ op ∈ ops, op.pins = false) :
    Fresh (State.after cfg ops) ∧ PinCounts (State.after cfg ops).pins (State.after cfg ops).held ∧
      (State.after cfg ops).held.pairs = [] := by
  have hallowed : Allowed (State.apply cfg) (fun _ op => op.pins = false) (State.init cfg) ops :=
    allowed_of_forall (fun op hop _ => hops op hop) _
  refine invariant_run (I := fun σ => Fresh σ ∧ PinCounts σ.pins σ.held ∧ σ.held.pairs = [])
    (fun σ op hop hσ => ?_) ?_ hallowed
  · obtain ⟨hfresh, hcounts, hnone⟩ := hσ
    obtain ⟨hheld, hcounts'⟩ := @PinCounts.apply cfg σ hcounts hfresh op hop
    exact ⟨Fresh.apply hfresh op, hcounts', by rw [hheld]; exact hnone⟩
  · exact ⟨⟨nofun, nofun⟩, PinCounts.init cfg, rfl⟩

/-- At the start every buffer is free and nothing is pinned. -/
theorem Service.start_conserved (env : Service P) (hops : ∀ op ∈ env.ops, op.pins = false) :
    env.start.Conserved (List.range env.count) := by
  obtain ⟨hfresh, hcounts, hnone⟩ := unpinned_store env.cfg hops
  refine ⟨?_, ?_, hfresh, hcounts, fun _ _ hlookup => (by cases hlookup)⟩
  · show ((List.range env.count).reverse ++ []).Perm _
    rw [List.append_nil]
    exact List.reverse_perm _
  · show List.Perm [] (State.after env.cfg env.ops).held.pairs
    rw [hnone]

end GoblinStore.Net
