import GoblinStore.Net.StreamLoop

/-!
# What holds between the events of a connection

`Inv` relates the outstanding operations of a connection to its lanes, the lanes to the pool, and
the lanes' pieces to the cursors. It holds in every run, with one exception that it names:
`abort_get` releases the lanes whatever is outstanding (`Aborted`). `Terms` are the assumptions on
the environment under which a run shows more than that; each is used only where it is needed:

* `roomy`: no read fails and no submission is refused in a way that makes `abort_get` release a lane
  in use;
* `whole`: a read that succeeds brings all bytes that are needed from it;
* `succeed`: reads succeed, which is one way to be roomy;
* `intact`: nobody else writes into the buffers that the connection holds;
* `settled`: `process` does not park the connection, because it finds no store that waits, and the
  pool has a buffer for a GET or no GET is found (`getless`);
* `others`: the buffers that other connections hold.
-/

namespace GoblinStore.Net

open GoblinStore.Lib GoblinStore.Core

variable {P : Type}

/-- The assumptions that a run meets. -/
structure Terms where
  roomy : Prop
  whole : Prop
  succeed : Prop
  intact : Prop
  settled : Prop
  getless : Prop
  others : Option (List Nat)

/-- No assumptions. -/
def Terms.bare : Terms where
  roomy := False
  whole := False
  succeed := False
  intact := False
  settled := False
  getless := False
  others := none

theorem window_length (object : Nat → UInt8) (lo hi : Nat) :
    (window object lo hi).length = hi - lo := by
  unfold window
  rw [List.length_map, List.length_range]

variable {lo : Nat}

theorem window_nil (object : Nat → UInt8) {hi : Nat} (h : hi ≤ lo) : window object lo hi = [] :=
  List.eq_nil_of_length_eq_zero (by rw [window_length]; omega)

theorem window_self (object : Nat → UInt8) (lo : Nat) : window object lo lo = [] := by
  unfold window
  rw [Nat.sub_self]
  rfl

theorem window_append (object : Nat → UInt8) {mid : Nat} (h : lo ≤ mid) (n : Nat) :
    window object lo mid ++ (List.range n).map (fun i => object (mid + i)) =
      window object lo (mid + n) := by
  unfold window
  rw [show mid + n - lo = (mid - lo) + n by omega, List.range_add, List.map_append, List.map_map]
  congr 1
  refine List.map_congr_left fun i _ => ?_
  show object (mid + i) = object (lo + (mid - lo + i))
  congr 1
  omega

/-- The first bytes of a window, and the rest of it. -/
theorem window_split (object : Nat → UInt8) {n hi : Nat} (h : lo + n ≤ max lo hi) :
    window object lo hi = (List.range n).map (fun i => object (lo + i)) ++
      window object (lo + n) hi := by
  unfold window
  rw [show hi - lo = n + (hi - (lo + n)) by omega, List.range_add, List.map_append, List.map_map]
  congr 1
  refine List.map_congr_left fun i _ => ?_
  show object (lo + (n + i)) = object (lo + n + i)
  rw [Nat.add_assoc]

/-! ## Buffers -/

/-- The buffers that the lanes hold. -/
def heldBufs (lane : Fin 2 → Lane) : List Nat :=
  (if (lane 0).haveBuf then [(lane 0).buf] else []) ++
    (if (lane 1).haveBuf then [(lane 1).buf] else [])

/-- The first lanes hold buffers, and every buffer is free or held once. -/
structure Bufs (free others : List Nat) (lane : Fin 2 → Lane) (nLanes : Nat) : Prop where
  lanes : nLanes ≤ 2
  held : ∀ i, (lane i).haveBuf = true ↔ i.val < nLanes
  nodup : (free ++ (others ++ heldBufs lane)).Nodup

namespace Bufs

variable {free others : List Nat} {lane lane' : Fin 2 → Lane} {nLanes : Nat}

/-- Lanes whose buffers are the same. -/
theorem congr (h : Bufs free others lane nLanes)
    (hlane : ∀ i, (lane' i).haveBuf = (lane i).haveBuf ∧ (lane' i).buf = (lane i).buf) :
    Bufs free others lane' nLanes where
  lanes := h.lanes
  held i := by rw [(hlane i).1]; exact h.held i
  nodup := by
    unfold heldBufs
    rw [(hlane 0).1, (hlane 0).2, (hlane 1).1, (hlane 1).2]
    exact h.nodup

variable {i : Fin 2} {l : Lane}

/-- A change of one lane that leaves its buffer alone. -/
theorem set (h : Bufs free others lane nLanes)
    (hhave : l.haveBuf = (lane i).haveBuf) (hbuf : l.buf = (lane i).buf) :
    Bufs free others (Function.update lane i l) nLanes := by
  refine h.congr fun j => ?_
  rcases eq_or_ne j i with rfl | hne
  · rw [Function.update_self]
    exact ⟨hhave, hbuf⟩
  · rw [Function.update_of_ne hne]
    exact ⟨rfl, rfl⟩

theorem mem_held (h : (lane i).haveBuf = true) : (lane i).buf ∈ heldBufs lane := by
  unfold heldBufs
  match i, h with
  | 0, h => simp [h]
  | 1, h => simp [h]

/-- A held buffer is not free. -/
theorem not_free (h : Bufs free others lane nLanes) (hi : (lane i).haveBuf = true) :
    (lane i).buf ∉ free := by
  intro hfree
  exact (List.nodup_append.1 h.nodup).2.2 _ hfree _ (List.mem_append_right _ (mem_held hi)) rfl

/-- The lanes hold different buffers. -/
theorem ne (h : Bufs free others lane nLanes) {j : Fin 2} (hi : (lane i).haveBuf = true)
    (hj : (lane j).haveBuf = true) (hne : i ≠ j) : (lane i).buf ≠ (lane j).buf := by
  have hnodup := (List.nodup_append.1 (List.nodup_append.1 h.nodup).2.1).2.1
  unfold heldBufs at hnodup
  match i, j, hi, hj, hne with
  | 0, 0, _, _, hne => exact absurd rfl hne
  | 1, 1, _, _, hne => exact absurd rfl hne
  | 0, 1, hi, hj, _ =>
      rw [hi, hj] at hnodup
      simpa using hnodup
  | 1, 0, hi, hj, _ =>
      rw [hi, hj] at hnodup
      have hne : (lane 0).buf ≠ (lane 1).buf := by simpa using hnodup
      exact hne.symm

/-- Without lanes no buffer is held. -/
theorem held_nil (h : Bufs free others lane 0) : heldBufs lane = [] := by
  have hnone : ∀ i, (lane i).haveBuf = false := fun i =>
    Bool.eq_false_iff.2 fun hi => absurd ((h.held i).1 hi) (Nat.not_lt_zero _)
  unfold heldBufs
  rw [hnone 0, hnone 1]
  rfl

theorem held_length (h : Bufs free others lane nLanes) : (heldBufs lane).length = nLanes := by
  have hlanes := h.lanes
  have hzero : (lane 0).haveBuf = true ↔ 0 < nLanes := h.held 0
  have hone : (lane 1).haveBuf = true ↔ 1 < nLanes := h.held 1
  unfold heldBufs
  rw [List.length_append]
  split_ifs <;> simp_all <;> omega

/-- All lanes are released. -/
theorem release (h : Bufs free others lane nLanes)
    (hlane : ∀ i, (lane' i).haveBuf = false) : Bufs (free ++ heldBufs lane) others lane' 0 where
  lanes := Nat.zero_le _
  held i := by
    rw [hlane i]
    exact ⟨fun hfalse => absurd hfalse (by decide), fun hlt => absurd hlt (Nat.not_lt_zero _)⟩
  nodup := by
    have hnone : heldBufs lane' = [] := by
      unfold heldBufs
      rw [hlane 0, hlane 1]
      rfl
    rw [hnone, List.append_nil, List.append_assoc]
    exact (List.Perm.append_left free List.perm_append_comm).nodup_iff.1 h.nodup

/-- The first lane takes a buffer. -/
theorem hold_first (h : Bufs free others lane 0) {buf : Nat} {rest : List Nat}
    (hfree : free = rest ++ [buf]) (hhave : l.haveBuf = true) (hbuf : l.buf = buf) :
    Bufs rest others (Function.update lane 0 l) 1 where
  lanes := by decide
  held i := by
    match i with
    | 0 => simp [hhave]
    | 1 =>
        have hnone := h.held 1
        simpa using hnone
  nodup := by
    have hone : (lane 1).haveBuf = false :=
      Bool.eq_false_iff.2 fun hi => absurd ((h.held 1).1 hi) (Nat.not_lt_zero _)
    have hheld : heldBufs (Function.update lane 0 l) = [buf] := by
      simp [heldBufs, hhave, hbuf, hone]
    have hnodup := h.nodup
    rw [held_nil h, List.append_nil, hfree, List.append_assoc] at hnodup
    rw [hheld]
    exact (List.Perm.append_left rest List.perm_append_comm).nodup_iff.1 hnodup

/-- The second lane takes a buffer. -/
theorem hold_second (h : Bufs free others lane 1) {buf : Nat} {rest : List Nat}
    (hfree : free = rest ++ [buf]) (hhave : l.haveBuf = true) (hbuf : l.buf = buf) :
    Bufs rest others (Function.update lane 1 l) 2 where
  lanes := le_rfl
  held i := by
    match i with
    | 0 =>
        have hzero := h.held 0
        simpa using hzero
    | 1 => simp [hhave]
  nodup := by
    have hzero : (lane 0).haveBuf = true := (h.held 0).2 (by decide)
    have hone : (lane 1).haveBuf = false :=
      Bool.eq_false_iff.2 fun hi => absurd ((h.held 1).1 hi) (by decide)
    have hheld : heldBufs (Function.update lane 1 l) = heldBufs lane ++ [buf] := by
      simp [heldBufs, hhave, hbuf, hone, hzero]
    have hnodup := h.nodup
    rw [hfree, List.append_assoc] at hnodup
    rw [hheld, ← List.append_assoc others]
    exact (List.Perm.append_left rest List.perm_append_comm).nodup_iff.1 hnodup

end Bufs

theorem acquire_some {iobufs rest : BlockPool} {buf : Nat} (h : iobufs.acquire = some (buf, rest)) :
    iobufs.free = rest.free ++ [buf] ∧ rest.blockBytes = iobufs.blockBytes := by
  unfold BlockPool.acquire at h
  cases hlast : iobufs.free.getLast? with
  | none =>
      rw [hlast] at h
      cases h
  | some index =>
      rw [hlast] at h
      cases h
      exact ⟨(List.dropLast_append_getLast? _ hlast).symm, rfl⟩

/-! ## Operations and lanes -/

/-- The states in which `process` reads commands. -/
def St.reading : St → Bool
  | .idle | .setBody => true
  | _ => false

variable {st : St}

theorem St.reading_iff : st.reading = true ↔ st = .idle ∨ st = .setBody := by
  cases st <;> simp [St.reading]

def Io.isRead : Io → Bool
  | .read _ _ _ => true
  | _ => false

/-- An operation of the stream. -/
def Io.onLane : Io → Bool
  | .read _ _ _ | .sendLane _ _ _ _ _ _ => true
  | _ => false

/-- The lane has the next piece to be sent, which is complete. -/
def Conn.Sending (c : Conn) (i : Fin 2) : Prop :=
  (c.lane i).ready = true ∧ (c.lane i).off = c.sendPos ∧ c.sendPos + (c.lane i).len ≤ c.planPos ∧
    c.readLane ≠ some i

/-- The operation is one that the connection keeps track of; an operation on a lane has the lane's
buffer, which the connection holds. -/
def Owns (c : Conn) : Io → Prop
  | .recv | .poll => c.state.reading = true
  | .sendOut bytes => (c.state.reading = true ∨ c.state = .getHeader ∨ c.state = .getTrailer) ∧
      bytes = c.out.drop c.outSent
  | .sendHead sent n => c.state = .getSendHead ∧ sent = c.headSent ∧ n = c.headHi - c.headSent
  | .sendLane i buf sent n _ _ => c.state = .getStream ∧ c.sendLane = some i ∧
      (c.lane i).haveBuf = true ∧ buf = (c.lane i).buf ∧ sent = (c.lane i).sent ∧
      n = (c.lane i).len - (c.lane i).sent ∧ c.Sending i
  | .read i buf _ => c.readLane = some i ∧ (c.lane i).haveBuf = true ∧ buf = (c.lane i).buf

/-- The reads behind a send from a lane have all brought what is needed from them. -/
def Io.Covered : Io → Prop
  | .sendLane _ _ _ _ segs done => ∀ seg ∈ segs, ∃ res, (seg, res) ∈ done ∧ (seg.len : Int) ≤ res
  | _ => True

/-- The results of the reads of a lane's piece. -/
structure Results (A : Terms) (i : Fin 2) (lane : Lane) (readLane : Option (Fin 2))
    (pending : List Io) :
    Prop where
  complete : lane.ready = true → ∀ seg ∈ lane.segs, ∃ res, (seg, res) ∈ lane.done ∧ 0 < res
  awaited : readLane = some i → ∀ seg ∈ lane.segs, (∃ res, (seg, res) ∈ lane.done) ∨
    ∃ buf, .read i buf seg ∈ pending
  positive : readLane = some i → lane.err = false → ∀ e ∈ lane.done, 0 < e.2
  whole : A.whole → ∀ e ∈ lane.done, e.2 ≤ 0 ∨ (e.1.len : Int) ≤ e.2
  fine : A.succeed → readLane = some i → lane.err = false
  reading : readLane = some i → lane.ready = false

/-! ## Pieces and cursors -/

/-- The lane has no piece. -/
def Free (lane : Fin 2 → Lane) (readLane : Option (Fin 2)) (i : Fin 2) : Prop :=
  (lane i).ready = false ∧ readLane ≠ some i

/-- The lane has the piece at `off`: it is being read or it is ready. -/
structure Filled (lane : Fin 2 → Lane) (readLane : Option (Fin 2)) (i : Fin 2)
    (off : Nat) : Prop where
  off_eq : (lane i).off = off
  len_pos : 0 < (lane i).len
  either : (lane i).ready = true ∧ readLane ≠ some i ∨ (lane i).ready = false ∧ readLane = some i

/-- The planned pieces that are not sent yet, in order: none, one, or one in each lane. -/
inductive Queue (lane : Fin 2 → Lane) (nLanes : Nat) (readLane sendLane : Option (Fin 2))
    (fillI sendI : Fin 2) (planPos sendPos : Nat) : Prop where
  | empty (pos : planPos = sendPos) (fill : fillI = sendI) (free : ∀ i, Free lane readLane i)
      (send : sendLane = none)
  | one (filled : Filled lane readLane sendI sendPos) (pos : planPos = sendPos + (lane sendI).len)
      (fill : fillI.val = (sendI.val + 1) % nLanes) (free : ∀ i, i ≠ sendI → Free lane readLane i)
      (send : ∀ i, sendLane = some i → i = sendI ∧ (lane i).ready = true)
  | two (lanes : nLanes = 2) (first : Filled lane readLane sendI sendPos)
      (ready : (lane sendI).ready = true)
      (filled : Filled lane readLane (sendI + 1) (sendPos + (lane sendI).len))
      (pos : planPos = sendPos + (lane sendI).len + (lane (sendI + 1)).len) (fill : fillI = sendI)
      (send : ∀ i, sendLane = some i → i = sendI)

/-- The lanes' pieces. -/
def Conn.Queued (c : Conn) : Prop :=
  c.sendI.val < c.nLanes ∧
    Queue c.lane c.nLanes c.readLane c.sendLane c.fillI c.sendI c.planPos c.sendPos

/-- No piece has been planned. -/
def Conn.Fresh (c : Conn) : Prop := (∀ i, (c.lane i).ready = false) ∧ c.fillI = 0 ∧ c.sendI = 0

/-! ## A GET -/

/-- The states in which no GET has buffers. -/
def St.resting : St → Bool
  | .idle | .setBody | .setWait | .getWait => true
  | _ => false

/-- The states in which a value is sent. -/
def St.valuing : St → Bool
  | .getHeader | .getSendHead | .getStream => true
  | _ => false

/-- A GET with lanes has a stream that reaches the end of the window; one without is over with the
head. -/
def Conn.Getting (cfg : Config) (c : Conn) : Prop :=
  (0 < c.nLanes → (∃ rs, c.rs = some rs ∧ Maps cfg rs ∧ c.getSize ≤ rs.size) ∧
      (c.state ≠ .getStream → c.Fresh)) ∧
    (c.nLanes = 0 → c.getSize ≤ if c.state = .getStream then c.sendPos else c.pinLen)

/-- The next byte of the window to be sent. -/
def Conn.cursor (c : Conn) : Nat :=
  match c.state with
  | .getHeader => c.getPos
  | .getSendHead => c.headSent
  | .getStream => c.sendPos + (c.sendLane.map fun i => (c.lane i).sent).getD 0
  | _ => 0

/-- The bytes that are still to be sent for the replies so far. -/
def Conn.todo (c : Conn) : List UInt8 :=
  match c.state with
  | .getHeader => c.out.drop c.outSent ++ window c.object c.first c.getSize
  | .getSendHead | .getStream => window c.object c.cursor c.getSize
  | _ => c.out.drop c.outSent

/-- Every hit but the current one has been served once, and the cursors are in the window. -/
def Conn.Placed (c : Conn) : Prop :=
  c.served.length + (if c.state.valuing then 1 else 0) = c.hits ∧
    (c.state.valuing = true → c.first ≤ c.cursor) ∧
    (c.state = .getHeader → c.getPos = c.first) ∧
    (c.state = .getSendHead → c.headSent ≤ c.headHi) ∧
    (c.state = .getStream → c.sendPos ≤ c.planPos ∧ c.planPos ≤ max c.first c.getSize ∧
      ∀ i, c.sendLane = some i → (c.lane i).sent ≤ (c.lane i).len)

/-- `out` is sent before a value, and what has been sent and what has not are as long as the
replies. -/
def Conn.Flushed (c : Conn) : Prop :=
  c.outSent ≤ c.out.length ∧ (c.state = .getSendHead ∨ c.state = .getStream → c.out = [] ∧
    c.outSent = 0) ∧
    c.sent.length + c.todo.length = c.owed.length

/-- What has been sent of the value is the window up to the cursor, and what has been sent at all
are the replies up to what is still to be sent. -/
def Conn.Exact (c : Conn) : Prop :=
  (c.state.valuing = true → c.wire = window c.object c.first c.cursor) ∧ c.sent ++ c.todo = c.owed

/-- The bytes of the replies. -/
def Data (A : Terms) (c : Conn) : Prop :=
  c.Placed ∧ c.Flushed ∧ (A.intact → c.stale = false → c.Exact)

/-- The values that were sent are those of their windows. -/
def Conn.Truthful (c : Conn) : Prop := ∀ r ∈ c.served, r.bytes = window r.object r.first r.stop

/-- The pieces that are complete hold their bytes, if they did when they were completed. -/
def Windows (mem : Nat → Nat → UInt8) (c : Conn) : Prop :=
  c.stale = false → c.state = .getStream → ∀ i, (c.lane i).haveBuf = true →
    (c.lane i).ready = true → ∀ p < (c.lane i).len, mem (c.lane i).buf p =
    c.object ((c.lane i).off + p)

/-- The queues of waiters that a connection in this state stands in. -/
def St.waits : St → List St
  | .getWait => [.getWait]
  | .setWait => [.setWait]
  | _ => []

/-- Only a connection that receives a store has a handle, and one that is not in a GET has no
pin. -/
def Conn.Tidy (c : Conn) : Prop :=
  c.queues = c.state.waits ∧ (c.sh = true → c.state = .setBody) ∧
    (c.state.resting = true → c.headPin = none)

/-- The connection waits for nothing and receives no store. -/
def Conn.Alone (c : Conn) : Prop := c.queues = [] ∧ c.sh = false

variable {c : Conn}

theorem Conn.tidy (hqueues : c.queues = []) (hsh : c.sh = false) (hwaits : c.state.waits = [])
    (hpin : c.state.resting = true → c.headPin = none) : c.Tidy :=
  ⟨hqueues.trans hwaits.symm, fun hopen => absurd (hsh.symm.trans hopen) Bool.false_ne_true, hpin⟩

theorem Conn.Tidy.alone (h : c.Tidy) (hwaits : c.state.waits = []) (hstate : c.state ≠ .setBody) :
    c.Alone :=
  ⟨h.1.trans hwaits, Bool.eq_false_iff.2 fun hsh => hstate (h.2.1 hsh)⟩

theorem Conn.Tidy.alone_of_valuing (h : c.Tidy) (hstate : c.state.valuing = true) : c.Alone := by
  refine h.alone ?_ fun heq => ?_
  · cases hs : c.state <;> rw [hs] at hstate <;> first | rfl | cases hstate
  · rw [heq] at hstate
    cases hstate

/-- A connection that was closed had sent all its replies, unless some were in `out` when a line was
too long. -/
def Conn.Parted (A : Terms) (c : Conn) : Prop :=
  ∀ e, c.farewell = some e → c.dropped = false →
    e.sent.length = e.owed.length ∧ (A.intact → e.stale = false → e.sent = e.owed)

/-- What the terms say about the other connections and the pool. -/
def Around (A : Terms) (s : Loop P) : Prop :=
  (∀ o, A.others = some o → s.others = o) ∧
    (A.settled → (A.getless ∨ 0 < s.iobufs.free.length + s.c.nLanes) ∧ s.c.queues = [])

/-- The terms say nothing about other connections. -/
def Terms.Open (A : Terms) : Prop := A.others = none ∧ ¬ A.settled

theorem Terms.Open.around {A : Terms} (h : A.Open) (s : Loop P) : Around A s :=
  ⟨fun _ ho => absurd (h.1.symm.trans ho) nofun, fun hsettled => absurd hsettled h.2⟩

/-! ## The invariant -/

/-- What holds whatever is outstanding. -/
structure Base (A : Terms) (cfg : Config) (s : Loop P) : Prop where
  residency : Residency cfg s.σ
  chunk : 0 < s.iobufs.blockBytes
  bufs : Bufs s.iobufs.free s.others s.c.lane s.c.nLanes
  count : s.c.inflight = s.c.pending.length
  sane : A.roomy → s.c.undefined = false
  results : ∀ i, Results A i (s.c.lane i) s.c.readLane s.c.pending
  sends : A.whole → ∀ io ∈ s.c.pending, io.Covered
  windows : A.intact → Windows s.mem s.c
  served : A.intact → s.c.stale = false → s.c.Truthful
  parted : s.c.Parted A
  around : Around A s

/-- The outstanding operations are those of the lanes and of the state. -/
structure Phase (cfg : Config) (s : Loop P) : Prop where
  owns : ∀ io ∈ s.c.pending, Owns s.c io
  single : (s.c.pending.filter fun io => !io.isRead).length ≤ 1
  reads : ∀ i, s.c.readLane = some i → (s.c.lane i).reads = (s.c.pending.filter Io.isRead).length
  outside : s.c.state ≠ .getStream → s.c.readLane = none ∧ s.c.sendLane = none
  rest : s.c.state.resting = true → s.c.nLanes = 0
  get : s.c.state.valuing = true → s.c.Getting cfg
  queue : s.c.closing = false → s.c.state = .getStream → 0 < s.c.nLanes → s.c.Queued
  waits : s.c.Tidy

/-- A lane is being sent from, or read into, only while such an operation is outstanding. -/
def Tracked (c : Conn) : Prop :=
  c.closing = false → (c.sendLane ≠ none → ∃ io ∈ c.pending, io.isRead = false) ∧
    (c.readLane ≠ none → ∃ io ∈ c.pending, io.isRead = true)

/-- A connection that is not parked waits for something. -/
def Busy (c : Conn) : Prop := c.closing = false → c.state.waits = [] → c.pending ≠ []

/-- `abort_get` or `retire` has released the lanes. -/
structure Aborted (c : Conn) : Prop where
  state : c.pending ≠ [] → c.state = .getStream
  closing : c.closing = true
  lanes : c.nLanes = 0
  readLane : c.readLane = none
  sendLane : c.sendLane = none
  ready : ∀ i, (c.lane i).ready = false
  kinds : ∀ io ∈ c.pending, io.onLane = true
  waits : c.Tidy

/-- Between two events. -/
structure Inv (A : Terms) (cfg : Config) (s : Loop P) : Prop where
  base : Base A cfg s
  phase : (Phase cfg s ∧ Tracked s.c ∧ Busy s.c ∧ Data A s.c) ∨
    (Aborted s.c ∧ (A.roomy → s.c.pending = []))

/-- Outside of the stream, with nothing outstanding. -/
structure Still (A : Terms) (cfg : Config) (s : Loop P) : Prop where
  base : Base A cfg s
  pending : s.c.pending = []
  state : s.c.state ≠ .getStream
  readLane : s.c.readLane = none
  sendLane : s.c.sendLane = none
  rest : s.c.state.resting = true → s.c.nLanes = 0
  get : s.c.state.valuing = true → s.c.Getting cfg
  waits : s.c.Tidy
  data : Data A s.c

variable {A : Terms} {cfg : Config} {s : Loop P}

/-! ## Outside of a value -/

/-- All hits have been served and only `out` is to be sent. -/
def Conn.Settled (A : Terms) (c : Conn) : Prop :=
  c.served.length = c.hits ∧ c.outSent ≤ c.out.length ∧
    c.sent.length + (c.out.drop c.outSent).length = c.owed.length ∧
    (A.intact → c.stale = false → c.sent ++ c.out.drop c.outSent = c.owed)

theorem data_iff_settled (h : c.state.valuing = false) : Data A c ↔ c.Settled A := by
  have htodo : c.todo = c.out.drop c.outSent := by
    unfold Conn.todo
    cases hs : c.state <;> rw [hs] at h <;> first | rfl | cases h
  have hnot : ∀ st : St, st.valuing = true → c.state ≠ st := by
    rintro st hst rfl
    cases h.symm.trans hst
  unfold Data Conn.Placed Conn.Flushed Conn.Exact Conn.Settled
  rw [htodo, h]
  constructor
  · rintro ⟨⟨hhits, -⟩, ⟨hout, -, hlength⟩, hexact⟩
    exact ⟨hhits, hout, hlength, fun hintact hstale => (hexact hintact hstale).2⟩
  · rintro ⟨hhits, hout, hlength, howed⟩
    exact ⟨⟨hhits, nofun, fun hs => absurd hs (hnot _ rfl), fun hs => absurd hs (hnot _ rfl),
      fun hs => absurd hs (hnot _ rfl)⟩,
      ⟨hout, fun hs => (hs.elim (hnot _ rfl) (hnot _ rfl)).elim, hlength⟩,
      fun hintact hstale => ⟨nofun, howed hintact hstale⟩⟩

/-- Bytes of a reply are queued behind the others. -/
theorem Conn.Settled.reply (h : s.c.Settled A) (bytes : List UInt8) :
    (s.reply bytes).c.Settled A := by
  obtain ⟨hhits, hout, hlength, howed⟩ := h
  have hdrop : (s.c.out ++ bytes).drop s.c.outSent = s.c.out.drop s.c.outSent ++ bytes :=
    List.drop_append_of_le_length hout
  refine ⟨hhits, ?_, ?_, fun hintact hstale => ?_⟩
  · show s.c.outSent ≤ (s.c.out ++ bytes).length
    rw [List.length_append]
    exact Nat.le_add_right_of_le hout
  · show s.c.sent.length + ((s.c.out ++ bytes).drop s.c.outSent).length = (s.c.owed ++ bytes).length
    rw [hdrop, List.length_append, List.length_append, ← Nat.add_assoc, hlength]
  · show s.c.sent ++ (s.c.out ++ bytes).drop s.c.outSent = s.c.owed ++ bytes
    rw [hdrop, ← List.append_assoc, howed hintact hstale]

/-- `Data` in the stream. -/
def Conn.Streaming (A : Terms) (c : Conn) : Prop :=
  c.served.length + 1 = c.hits ∧ c.first ≤ c.cursor ∧
    (c.sendPos ≤ c.planPos ∧ c.planPos ≤ max c.first c.getSize ∧
      ∀ i, c.sendLane = some i → (c.lane i).sent ≤ (c.lane i).len) ∧
    c.out = [] ∧ c.outSent = 0 ∧ c.sent.length + (window c.object c.cursor c.getSize).length =
    c.owed.length ∧ (A.intact → c.stale = false → c.wire = window c.object c.first c.cursor ∧
      c.sent ++ window c.object c.cursor c.getSize = c.owed)

theorem data_iff_streaming (h : c.state = .getStream) : Data A c ↔ c.Streaming A := by
  have htodo : c.todo = window c.object c.cursor c.getSize := by
    unfold Conn.todo
    rw [h]
  have hvalue : c.state.valuing = true := by
    rw [h]
    rfl
  unfold Data Conn.Placed Conn.Flushed Conn.Exact Conn.Streaming
  rw [htodo, hvalue]
  constructor
  · rintro ⟨⟨hhits, hfirst, -, -, hstream⟩, ⟨-, hout, hlength⟩, hexact⟩
    exact ⟨hhits, hfirst rfl, hstream h, (hout (Or.inr h)).1, (hout (Or.inr h)).2, hlength,
      fun hintact hstale => ⟨(hexact hintact hstale).1 rfl, (hexact hintact hstale).2⟩⟩
  · rintro ⟨hhits, hfirst, hstream, hout, hsent, hlength, hexact⟩
    refine ⟨⟨hhits, fun _ => hfirst, fun hs => ?_, fun hs => ?_, fun _ => hstream⟩,
      ⟨by rw [hout, hsent]; exact Nat.zero_le _, fun _ => ⟨hout, hsent⟩, hlength⟩,
      fun hintact hstale => ⟨fun _ => (hexact hintact hstale).1, (hexact hintact hstale).2⟩⟩
    · cases h.symm.trans hs
    · cases h.symm.trans hs

theorem St.valuing_of_resting (h : st.resting = true) : st.valuing = false := by
  cases st <;> first | rfl | cases h

theorem St.resting_of_reading (h : st.reading = true) : st.resting = true := by
  cases st <;> first | rfl | cases h

theorem St.ne_stream_of_reading (h : st.reading = true) : st ≠ .getStream := by
  rintro rfl
  cases h

theorem St.waits_of_reading (h : st.reading = true) : st.waits = [] := by
  cases st <;> first | rfl | cases h

/-! ## Operations of the socket -/

/-- An operation is submitted. -/
theorem Base.submit (h : Base A cfg s) {io : Io} (hcovered : A.whole → io.Covered) (room : Nat) :
    Base A cfg { s with
      room := room
      c := { s.c with inflight := s.c.inflight + 1, pending := s.c.pending ++ [io] } } where
  __ := h
  count := by
    show s.c.inflight + 1 = (s.c.pending ++ [io]).length
    rw [h.count, List.length_append]
    rfl
  results i := by
    refine ⟨(h.results i).complete, fun hread seg hseg => ?_, (h.results i).positive,
      (h.results i).whole, (h.results i).fine, (h.results i).reading⟩
    rcases (h.results i).awaited hread seg hseg with hdone | ⟨buf, hpending⟩
    · exact Or.inl hdone
    · exact Or.inr ⟨buf, List.mem_append_left _ hpending⟩
  sends hwhole io' hio' := by
    rcases List.mem_append.1 hio' with hold | hnew
    · exact h.sends hwhole io' hold
    · rw [List.mem_singleton.1 hnew]
      exact hcovered hwhole

/-- The operation of the socket is submitted. -/
theorem Phase.send (h : Phase cfg s) {io : Io} (howns : Owns s.c io) (hsend : io.isRead = false)
    (hnone : ∀ io' ∈ s.c.pending, io'.isRead = true) (room : Nat) :
    Phase cfg { s with
      room := room
      c := { s.c with inflight := s.c.inflight + 1, pending := s.c.pending ++ [io] } } where
  __ := h
  owns io' hio' := by
    rcases List.mem_append.1 hio' with hold | hnew
    · exact h.owns io' hold
    · rw [List.mem_singleton.1 hnew]
      exact howns
  single := by
    show ((s.c.pending ++ [io]).filter fun io => !io.isRead).length ≤ 1
    have hempty : s.c.pending.filter (fun io => !io.isRead) = [] := by
      rw [List.filter_eq_nil_iff]
      intro io' hio'
      simp [hnone io' hio']
    rw [List.filter_append, hempty]
    exact List.length_filter_le _ _
  reads i hread := by
    show (s.c.lane i).reads = ((s.c.pending ++ [io]).filter Io.isRead).length
    rw [h.reads i hread, List.filter_append, List.length_append,
      List.filter_cons_of_neg (by simp [hsend])]
    rfl

namespace Still

theorem phase (h : Still A cfg s) : Phase cfg s where
  __ := h
  owns io hio := by
    rw [h.pending] at hio
    exact absurd hio List.not_mem_nil
  single := by
    rw [h.pending]
    exact Nat.zero_le _
  reads i hread := by
    rw [h.readLane] at hread
    cases hread
  outside _ := ⟨h.readLane, h.sendLane⟩
  queue _ hstream := absurd hstream h.state

theorem settled (h : Still A cfg s) (hstate : s.c.state.valuing = false) : s.c.Settled A :=
  (data_iff_settled hstate).1 h.data

/-- A connection that is closing or parked. -/
theorem inv (h : Still A cfg s) (hquiet : s.c.closing = true ∨ s.c.state.waits ≠ []) :
    Inv A cfg s := by
  refine ⟨h.base, Or.inl ⟨h.phase,
    fun _ => ⟨fun hsend => absurd h.sendLane hsend, fun hread => absurd h.readLane hread⟩,
    fun hopen hnone => ?_, h.data⟩⟩
  rcases hquiet with hclosing | hwaits
  · cases hclosing.symm.trans hopen
  · exact absurd hnone hwaits

theorem close (h : Still A cfg s) : Inv A cfg s.closeConn :=
  inv { h with base := { h.base with } }
    (Or.inl rfl)

theorem parted (h : Still A cfg s) (hstate : s.c.state.valuing = false) :
    s.closeOrderly.c.Parted A := by
  intro e he hdropped
  change (if s.c.closing then s.c.farewell else some ⟨s.c.sent, s.c.owed, s.c.stale⟩) = some e at he
  change (!s.c.out.isEmpty && !s.c.closing || s.c.dropped) = false at hdropped
  obtain ⟨hkept, hbefore⟩ := Bool.or_eq_false_iff.1 hdropped
  split_ifs at he with hclosing
  · exact h.base.parted e he hbefore
  · cases he
    obtain ⟨-, -, hlength, howed⟩ := h.settled hstate
    have hout : s.c.out = [] := by
      rw [Bool.eq_false_iff.2 hclosing, Bool.not_false, Bool.and_true, Bool.not_eq_false'] at hkept
      exact List.isEmpty_iff.1 hkept
    rw [hout, List.drop_nil] at hlength howed
    exact ⟨hlength, fun hintact hstale => (List.append_nil _).symm.trans (howed hintact hstale)⟩

theorem close_orderly (h : Still A cfg s) (hstate : s.c.state.valuing = false) :
    Inv A cfg s.closeOrderly :=
  inv { h with base := { h.base with parted := h.parted hstate } } (Or.inl rfl)

/-- An operation of the socket is started. -/
theorem start (h : Still A cfg s) {io : Io} (howns : Owns s.c io) (hsend : io.isRead = false)
    (hcovered : io.Covered) : Inv A cfg (s.start io) := by
  unfold Loop.start Loop.submit
  split_ifs with hclosing hfull
  · exact h.inv (Or.inl hclosing)
  · exact h.close
  · have hnone : ∀ io' ∈ s.c.pending, io'.isRead = true := fun io' hio' => by
      rw [h.pending] at hio'
      exact absurd hio' List.not_mem_nil
    refine ⟨h.base.submit (fun _ => hcovered) _, Or.inl ⟨h.phase.send howns hsend hnone _,
      fun _ => ⟨fun hsend => absurd h.sendLane hsend, fun hread => absurd h.readLane hread⟩,
      fun _ _ hnil => ?_, h.data⟩⟩
    exact List.append_ne_nil_of_right_ne_nil _ (List.cons_ne_nil _ _) hnil

theorem start_send (h : Still A cfg s)
    (hstate : s.c.state.reading = true ∨ s.c.state = .getHeader ∨ s.c.state = .getTrailer) :
    Inv A cfg s.startSend := by
  have howns : Owns s.c (.sendOut (s.c.out.drop s.c.outSent)) := ⟨hstate, rfl⟩
  exact h.start howns rfl trivial

theorem await (h : Still A cfg s) (hstate : s.c.state.reading = true) (https : Bool) :
    Inv A cfg (s.await https) := by
  unfold Loop.await
  cases https with
  | false =>
      have howns : Owns s.c .recv := hstate
      exact h.start howns rfl trivial
  | true =>
      have howns : Owns s.c .poll := hstate
      exact h.start howns rfl trivial

end Still

/-! ## Releasing a GET -/

theorem release_lanes_eq (s : Loop P) : s.releaseLanes =
    { s with
      iobufs := { s.iobufs with free := s.iobufs.free ++ heldBufs s.c.lane }
      c := { s.c with
        lane := fun i => { (s.c.lane i).clear with haveBuf := false }
        nLanes := 0
        readLane := none
        sendLane := none
        fillI := 0
        sendI := 0 } } := by
  have hlane : Function.update (Function.update s.c.lane 0
      { (s.c.lane 0).clear with haveBuf := false }) 1
      { (s.c.lane 1).clear with haveBuf := false } =
      fun i => { (s.c.lane i).clear with haveBuf := false } := by
    funext i
    match i with
    | 0 => rfl
    | 1 => rfl
  have hfree : (if (s.c.lane 1).haveBuf = true then
      (if (s.c.lane 0).haveBuf = true then s.iobufs.release (s.c.lane 0).buf else s.iobufs).release
        (s.c.lane 1).buf
      else (if (s.c.lane 0).haveBuf = true then s.iobufs.release (s.c.lane 0).buf else s.iobufs)) =
      { s.iobufs with free := s.iobufs.free ++ heldBufs s.c.lane } := by
    unfold heldBufs BlockPool.release
    split_ifs <;> simp
  show Loop.mk s.σ _ s.mem s.others s.room s.readAhead _ s.proto = _
  rw [← hlane, ← hfree]
  rfl

/-- What `finish_get`, `abort_get` and `retire` leave. -/
theorem drop_get_eq (cfg : Config) (s : Loop P) : ∃ σ, (Residency cfg s.σ → Residency cfg σ) ∧
    s.dropGet = { s with
      σ := σ
      iobufs := { s.iobufs with free := s.iobufs.free ++ heldBufs s.c.lane }
      c := { s.c with
        lane := fun i => { (s.c.lane i).clear with haveBuf := false }
        nLanes := 0
        readLane := none
        sendLane := none
        fillI := 0
        sendI := 0
        headPin := none
        rs := none } } := by
  unfold Loop.dropGet Loop.unpinIfHeld
  rw [release_lanes_eq]
  dsimp only
  cases hpin : s.c.headPin with
  | none => exact ⟨s.σ, id, rfl⟩
  | some pin => exact ⟨s.σ.unpinHead pin.1, fun h => Residency.apply h (.unpinHead pin.1), rfl⟩

theorem Base.drop_get (h : Base A cfg s) : Base A cfg s.dropGet := by
  obtain ⟨σ, hσ, heq⟩ := drop_get_eq cfg s
  rw [heq]
  have haround : A.settled →
      (A.getless ∨ 0 < (s.iobufs.free ++ heldBufs s.c.lane).length + 0) ∧ s.c.queues = [] := by
    rw [List.length_append, h.bufs.held_length]
    exact h.around.2
  refine ⟨hσ h.residency, h.chunk, h.bufs.release fun _ => rfl, h.count, h.sane, fun i => ?_,
    h.sends, nofun, h.served, h.parted, h.around.1, haround⟩
  exact ⟨nofun, nofun, nofun, (h.results i).whole, nofun, fun _ => rfl⟩

/-- A GET is over: nothing is outstanding and every hit has been served. -/
theorem Base.dropped (h : Base A cfg s) (hpending : s.c.pending = []) (hqueues : s.c.Alone)
    (hdata : s.c.Settled A) : Still A cfg
      { s.dropGet with c := { s.dropGet.c with state := .idle } } := by
  have hbase := h.drop_get
  obtain ⟨σ, hσ, heq⟩ := drop_get_eq cfg s
  rw [heq] at hbase ⊢
  exact ⟨{ hbase with windows := nofun }, hpending,
    nofun, rfl, rfl, fun _ => rfl, nofun,
    Conn.tidy hqueues.1 hqueues.2 rfl fun _ => rfl, (data_iff_settled rfl).2 hdata⟩

/-- `abort_get` with operations outstanding. -/
theorem Base.abort (h : Base A cfg s) (hstate : s.c.state = .getStream)
    (hkinds : ∀ io ∈ s.c.pending, io.onLane = true) (hqueues : s.c.Alone)
    (hpending : A.roomy → s.c.pending = []) : Inv A cfg s.abortGet := by
  have hbase := h.drop_get
  unfold Loop.abortGet Loop.closeConn
  obtain ⟨σ, hσ, heq⟩ := drop_get_eq cfg s
  rw [heq] at hbase ⊢
  exact ⟨{ hbase with },
    Or.inr ⟨⟨fun _ => hstate, rfl, rfl, rfl, rfl, fun _ => rfl, hkinds,
      Conn.tidy hqueues.1 hqueues.2 (congrArg St.waits hstate) fun _ => rfl⟩, hpending⟩⟩

/-! ## Opening a GET -/

/-- A snapshot of an object with a disk tail has a stream. -/
theorem open_snapshot_maps {σ : State} (hres : Residency cfg σ) {d : Digest} {faults : Faults}
    {snap : State.Snapshot} (h : (State.openSnapshot cfg σ d faults).1 = some snap)
    (htail : snap.info.headLen < snap.info.size) :
    ∃ rs, snap.rs = some rs ∧ Maps cfg rs ∧ rs.size = snap.info.size := by
  obtain ⟨hm, -, -⟩ := State.open_snapshot_spec h
  have hfits := hres.indexed _ _ hm
  have hdisk : cfg.tiers.ramHead < snap.info.size := by
    by_contra hram
    obtain ⟨r, hr⟩ := Option.ne_none_iff_exists'.1 (hfits.resident (by omega) (by omega))
    have hlen := hfits.len_eq r hr
    simp only [ObjectMeta.headLen, hr, Option.map_some, Option.getD_some] at htail
    omega
  unfold State.openSnapshot at h
  simp only [hm] at h
  split_ifs at h
  cases hfiles : State.snapshotFiles cfg
    { σ with objectPolicy := σ.objectPolicy.touch d } d snap.info
      faults with
  | none => simp [hfiles] at h
  | some rs? =>
      have hrs : snap.rs = rs? := by
        cases hr : snap.info.head with
        | none =>
            simp only [hfiles, hr, Option.some.injEq] at h
            rw [← h]
        | some r =>
            simp only [hfiles, hr, Option.some.injEq] at h
            rw [← h]
      unfold State.snapshotFiles at hfiles
      rw [if_pos (show (snap.info.head.map (·.len)).getD 0 < snap.info.size from htail)] at hfiles
      split at hfiles
      · cases hfiles
      · rename_i ssd hdd hopen
        cases hfiles
        refine ⟨_, hrs, ⟨hdisk, rfl, fun hpos => ?_⟩, rfl⟩
        -- an HDD tail has its files opened
        obtain ⟨pool, hpool⟩ := Option.ne_none_iff_exists'.1 ((cfg.layout_tiers hdisk).2 hpos).2
        unfold State.openFiles at hopen
        split at hopen
        · cases hopen
        · simp only [hpool, if_neg (Nat.ne_of_gt hpos)] at hopen
          split at hopen
          · cases hopen
          · cases hopen
            simp

theorem hold_lane_eq (s : Loop P) (i : Fin 2) (buf : Nat) (iobufs : BlockPool) :
    s.holdLane i buf iobufs = { s with
      iobufs := iobufs
      c := { s.c with
        lane := Function.update s.c.lane i { s.c.lane i with buf := buf, haveBuf := true }
        nLanes := i.val + 1 } } := rfl

theorem hold_lanes_none (h : s.holdLanes = none) : s.iobufs.free = [] := by
  unfold Loop.holdLanes at h
  split at h
  · rename_i hacquire
    unfold BlockPool.acquire at hacquire
    cases hlast : s.iobufs.free.getLast? with
    | none => exact List.getLast?_eq_none_iff.1 hlast
    | some index =>
        rw [hlast] at hacquire
        cases hacquire
  · cases h

/-- The buffers of a GET. -/
theorem hold_lanes_spec (hbufs : Bufs s.iobufs.free s.others s.c.lane s.c.nLanes)
    (hnone : s.c.nLanes = 0) {s' : Loop P} (h : s.holdLanes = some s') :
    ∃ iobufs lane n, s' = { s with iobufs := iobufs, c := { s.c with lane := lane, nLanes := n } } ∧
      iobufs.blockBytes = s.iobufs.blockBytes ∧ 0 < n ∧ Bufs iobufs.free s.others lane n ∧
      ∀ i, (lane i).done = (s.c.lane i).done := by
  unfold Loop.holdLanes at h
  rw [hnone] at hbufs
  split at h
  · cases h
  · rename_i buf iobufs hacquire
    obtain ⟨hfree, hbytes⟩ := acquire_some hacquire
    have hfirst := hbufs.hold_first
      (l := { s.c.lane 0 with buf := buf, haveBuf := true }) hfree rfl rfl
    have hdone : ∀ i, (Function.update s.c.lane 0 { s.c.lane 0 with
        buf := buf, haveBuf := true } i).done =
        (s.c.lane i).done := fun i => by
      match i with
      | 0 => rfl
      | 1 => rfl
    rw [hold_lane_eq, Option.some.injEq] at h
    generalize Function.update s.c.lane 0
      { s.c.lane 0 with buf := buf, haveBuf := true } = lane at *
    dsimp only at h
    split at h
    · exact ⟨iobufs, lane, 1, h.symm, hbytes, Nat.one_pos, hfirst, hdone⟩
    · rename_i buf2 iobufs2 hacquire2
      split_ifs at hacquire2
      obtain ⟨hfree2, hbytes2⟩ := acquire_some hacquire2
      rw [hold_lane_eq] at h
      refine ⟨iobufs2, _, 2, h.symm, hbytes2.trans hbytes, Nat.two_pos,
        hfirst.hold_second hfree2 rfl rfl, ?_⟩
      intro i
      rw [← hdone i]
      match i with
      | 0 => rfl
      | 1 => rfl

/-- The end of `begin_get`. -/
theorem Still.frame_hit (h : Still A cfg s) (hstate : s.c.state.valuing = false) {info : ObjectMeta}
    {pin : Option (Nat × Region)} {framing : Framing} (hqueues : s.c.Alone)
    (hlanes : 0 < s.c.nLanes →
      (∃ rs, s.c.rs = some rs ∧ Maps cfg rs ∧ info.size ≤ rs.size) ∧ s.c.Fresh)
    (hhead : s.c.nLanes = 0 → info.size ≤ (pin.map fun pin => pin.2.len).getD 0) :
    Still A cfg (s.frameHit info pin framing) := by
  have hrange := get_window_le info.size s.c.reqRange (framing.unmodified info)
  let range := getWindow s.c.reqRange (framing.unmodified info) info.size
  obtain ⟨hhits, hout, hlength, howed⟩ := h.settled hstate
  have hdrop : (s.c.out ++ framing.header info).drop s.c.outSent =
      s.c.out.drop s.c.outSent ++ framing.header info := List.drop_append_of_le_length hout
  refine ⟨{ h.base with windows := nofun }, h.pending, nofun,
    h.readLane, h.sendLane, nofun, fun _ => ⟨fun hpos => ?_, fun hzero => ?_⟩,
    Conn.tidy hqueues.1 hqueues.2 rfl nofun,
    ⟨congrArg (· + 1) hhits, fun _ => le_rfl, fun _ => rfl, nofun, nofun⟩, ⟨?_, fun hs => ?_, ?_⟩,
    fun hintact hstale => ⟨fun _ => (window_self _ _).symm, ?_⟩⟩
  · obtain ⟨⟨rs, hrs, hmaps, hsize⟩, hfresh⟩ := hlanes hpos
    exact ⟨⟨rs, hrs, hmaps, Nat.le_trans hrange hsize⟩, fun _ => hfresh⟩
  · exact Nat.le_trans hrange (hhead hzero)
  · show s.c.outSent ≤ (s.c.out ++ framing.header info).length
    rw [List.length_append]
    exact Nat.le_add_right_of_le hout
  · rcases hs with hs | hs <;> cases hs
  · show s.c.sent.length + ((s.c.out ++ framing.header info).drop s.c.outSent ++
        window (framing.object info) range.1 range.2).length =
      (s.c.owed ++ framing.header info ++ window (framing.object info) range.1 range.2).length
    rw [hdrop]
    simp only [List.length_append] at hlength ⊢
    omega
  · show s.c.sent ++ ((s.c.out ++ framing.header info).drop s.c.outSent ++
        window (framing.object info) range.1 range.2) =
      s.c.owed ++ framing.header info ++ window (framing.object info) range.1 range.2
    rw [hdrop, ← howed hintact hstale]
    simp only [List.append_assoc]

/-- No buffer is free: the connection is parked. -/
theorem Still.parked (h : Still A cfg { s with c := { s.c with state := .idle } }) {σ' : State}
    (hres : Residency cfg σ') (hempty : s.iobufs.free = [])
    (hfree : A.settled → 0 < s.iobufs.free.length) :
    Still A cfg { s with
      σ := σ', c := { s.c with state := .getWait, queues := s.c.queues ++ [.getWait] } } := by
  have hqueues : s.c.Alone := h.waits.alone rfl nofun
  refine { h with
    base := ⟨hres, h.base.chunk, h.base.bufs, h.base.count, h.base.sane, h.base.results,
      h.base.sends, nofun, h.base.served, h.base.parted, h.base.around.1, fun hsettled => ?_⟩
    state := nofun
    rest := fun _ => h.rest rfl
    get := nofun
    waits := ⟨?_, fun hsh => ?_, fun _ => h.waits.2.2 rfl⟩
    data := (data_iff_settled rfl).2 (h.settled rfl) }
  · exact absurd (hfree hsettled) (by rw [hempty]; exact Nat.lt_irrefl 0)
  · show s.c.queues ++ [.getWait] = [.getWait]
    rw [hqueues.1]
    rfl
  · cases hqueues.2.symm.trans hsh

/-- Lanes are taken for a value. -/
theorem Still.laned (h : Still A cfg { s with c := { s.c with state := .idle } }) {σ' : State}
    (hres : Residency cfg σ') (rs : Option State.ReadStream) {iobufs : BlockPool}
    {lane : Fin 2 → Lane} {n : Nat} (hbytes : iobufs.blockBytes = s.iobufs.blockBytes)
    (hpos : 0 < n) (hbufs : Bufs iobufs.free s.others lane n)
    (hdone : ∀ i, (lane i).done = (s.c.lane i).done) :
    Still A cfg { s with
      σ := σ'
      iobufs := iobufs
      c := { s.c with
        lane := fun i => (lane i).clear
        nLanes := n
        rs := rs
        readLane := none
        sendLane := none
        fillI := 0
        sendI := 0
        state := .getTrailer } } := by
  have hqueues : s.c.Alone := h.waits.alone rfl nofun
  refine ⟨⟨hres, by rw [hbytes]; exact h.base.chunk, hbufs.congr fun _ => ⟨rfl, rfl⟩, h.base.count,
    h.base.sane, fun i => ?_, h.base.sends, nofun, h.base.served, h.base.parted, h.base.around.1,
    fun _ => ⟨Or.inr (Nat.add_pos_right _ hpos), hqueues.1⟩⟩, h.pending, nofun, rfl, rfl, nofun,
    nofun, Conn.tidy hqueues.1 hqueues.2 rfl nofun, (data_iff_settled rfl).2 (h.settled rfl)⟩
  refine ⟨nofun, nofun, nofun, fun hwhole e he => ?_, nofun, fun _ => rfl⟩
  change e ∈ (lane i).done at he
  rw [hdone i] at he
  exact (h.base.results i).whole hwhole e he

/-- `begin_get` on a connection that is idle but for its state. -/
theorem Still.begin_get (h : Still A cfg { s with c := { s.c with state := .idle } })
    (hfree : A.settled → 0 < s.iobufs.free.length) (framing : Framing) :
    Still A cfg (s.beginGet cfg framing).2 ∧ (s.beginGet cfg framing).2.room = s.room ∧
      (s.beginGet cfg framing).2.c.closing = s.c.closing ∧
      ((s.beginGet cfg framing).1 = false → (s.beginGet cfg framing).2.c.state = .getWait) ∧
      ((s.beginGet cfg framing).1 = true → (s.beginGet cfg framing).2.c.state = .idle ∨
        (s.beginGet cfg framing).2.c.state = .getHeader ∧
        (s.beginGet cfg framing).2.c.out ≠ []) := by
  have hnone : s.c.nLanes = 0 := h.rest rfl
  have hqueues : s.c.Alone := h.waits.alone rfl nofun
  have hsettled : s.c.Settled A := h.settled rfl
  have hres := Residency.apply h.base.residency (.openSnapshot s.c.getKey framing.faults)
  change Residency cfg (State.openSnapshot cfg s.σ s.c.getKey framing.faults).2 at hres
  unfold Loop.beginGet
  split
  · -- a miss
    rename_i σ hsnap
    rw [hsnap] at hres
    refine ⟨{ h with
      base := { h.base with residency := hres, windows := nofun }, state := nofun,
      rest := fun _ => hnone, get := nofun, data := ?_ }, rfl, rfl, nofun, fun _ => Or.inl rfl⟩
    exact (data_iff_settled rfl).2 (hsettled.reply framing.miss)
  · rename_i snap σ hsnap
    have hsome : (State.openSnapshot cfg s.σ s.c.getKey framing.faults).1 =
        some snap := by rw [hsnap]
    rw [hsnap] at hres
    obtain ⟨-, hpin, -⟩ := State.open_snapshot_spec hsome
    have hout : s.c.out ++ framing.header snap.info ≠ [] :=
      List.append_ne_nil_of_right_ne_nil _ (framing.header_ne snap.info)
    dsimp only
    split_ifs with htail
    · split
      · -- parked; the pin is given back
        rename_i hhold
        have hempty : s.iobufs.free = [] := hold_lanes_none (s := { s with σ := σ }) hhold
        cases snap.pin with
        | none => exact ⟨h.parked hres hempty hfree, rfl, rfl, fun _ => rfl, nofun⟩
        | some r =>
            have hunpin := Residency.apply hres (.unpinHead s.σ.pinSeq)
            exact ⟨h.parked hunpin hempty hfree, rfl, rfl, fun _ => rfl, nofun⟩
      · rename_i s' hhold
        obtain ⟨iobufs, lane, n, rfl, hbytes, hpos, hbufs, hdone⟩ :=
          hold_lanes_spec (s := { s with σ := σ }) h.base.bufs hnone hhold
        obtain ⟨rs, hrs, hmaps, hsize⟩ := open_snapshot_maps h.base.residency hsome htail
        have hstill := h.laned hres snap.rs hbytes hpos hbufs hdone
        refine ⟨hstill.frame_hit rfl hqueues
          (fun _ => ⟨⟨rs, hrs, hmaps, hsize.ge⟩, fun _ => rfl, rfl, rfl⟩)
          (fun hzero => ?_), rfl, rfl, nofun, fun _ => Or.inr ⟨rfl, hout⟩⟩
        change n = 0 at hzero
        omega
    · have hstill : Still A cfg { s with σ := σ, c := { s.c with state := .idle } } :=
        { h with base := { h.base with residency := hres } }
      refine ⟨hstill.frame_hit rfl hqueues (fun hpos => ?_) (fun _ => ?_), rfl, rfl,
        nofun, fun _ => Or.inr ⟨rfl, hout⟩⟩
      · exact absurd hpos (by rw [hnone]; exact Nat.lt_irrefl 0)
      · rw [Nat.not_lt, ObjectMeta.headLen, ← hpin] at htail
        rwa [Option.map_map]

/-! ## Commands -/

/-- The command parks the connection. -/
def Command.parks : Command P → Bool
  | .park => true
  | _ => false

def Command.gets : Command P → Bool
  | .get _ _ _ => true
  | _ => false

/-- The commands park nothing if the terms say so. -/
def Calm (A : Terms) (commands : List (Command P)) : Prop :=
  A.settled → ∀ command ∈ commands, command.parks = false ∧ (A.getless → command.gets = false)

theorem Terms.Open.calm {A : Terms} (h : A.Open) (commands : List (Command P)) : Calm A commands :=
  fun hsettled => absurd hsettled h.2

theorem Calm.tail {command : Command P} {commands : List (Command P)}
    (h : Calm A (command :: commands)) :
    Calm A commands := fun hsettled c hc => h hsettled c (List.mem_cons_of_mem _ hc)

namespace Still

theorem flush (h : Still A cfg s)
    (hstate : s.c.state.reading = true ∨ s.c.state = .getHeader ∧ s.c.out ≠ []) (https : Bool) :
    Inv A cfg (s.flush https) := by
  unfold Loop.flush
  split_ifs with hout hquit
  · exact h.start_send (hstate.imp_right fun hheader => Or.inl hheader.1)
  · rcases hstate with hread | ⟨-, hne⟩
    · exact h.close_orderly (St.valuing_of_resting (St.resting_of_reading hread))
    · exact absurd hne hout
  · rcases hstate with hread | ⟨-, hne⟩
    · exact h.await hread https
    · exact absurd hne hout

/-- A change of the parts of a resting connection that only `process` looks at. -/
theorem change (h : Still A cfg s) (hstate : s.c.state.resting = true) {st : St}
    (hst : st.resting = true) {queues : List St} (hwaits : queues = st.waits)
    (hsettled : A.settled → queues = []) {sh : Bool} (hsh : sh = true → st = .setBody)
    (quitAfter : Bool) (getKey : Digest) (reqRange : Option ByteRange) (tls : Option Bool) :
    Still A cfg { s with c := { s.c with
      state := st, queues := queues, quitAfter := quitAfter, sh := sh, getKey := getKey,
      reqRange := reqRange, tls := tls } } := by
  have hnone : s.c.nLanes = 0 := h.rest hstate
  have hvalue := St.valuing_of_resting hst
  have hstream : st ≠ .getStream := fun heq => by
    rw [heq] at hst
    cases hst
  refine ⟨⟨h.base.residency, h.base.chunk, h.base.bufs, h.base.count, h.base.sane, h.base.results,
    h.base.sends, fun _ _ hs => absurd hs hstream, h.base.served, h.base.parted, h.base.around.1,
    fun hquiet => ⟨(h.base.around.2 hquiet).1, hsettled hquiet⟩⟩, h.pending, hstream, h.readLane,
    h.sendLane, fun _ => hnone, fun hval => ?_, ⟨hwaits, hsh, fun _ => h.waits.2.2 hstate⟩,
    (data_iff_settled hvalue).2 (h.settled (St.valuing_of_resting hstate))⟩
  cases hvalue.symm.trans hval

theorem reply (h : Still A cfg s) (hstate : s.c.state.resting = true) (bytes : List UInt8) :
    Still A cfg (s.reply bytes) := by
  have hvalue : (s.reply bytes).c.state.valuing = false := St.valuing_of_resting hstate
  refine { h with
    base := { h.base with }, get := fun hval => ?_,
    data := (data_iff_settled hvalue).2 ((h.settled hvalue).reply bytes) }
  cases hvalue.symm.trans hval

/-- The store does something, and the protocol goes on with other state. -/
theorem act (h : Still A cfg s) {σ : State} (hres : Residency cfg σ) (p : P) :
    Still A cfg { s with σ := σ, proto := p } :=
  { h with base := { h.base with residency := hres } }

variable {commands : List (Command P)}

theorem process_loop (h : Still A cfg s) (hstate : s.c.state.reading = true) (https : Bool)
    (hcalm : Calm A commands) : Inv A cfg (Loop.processLoop cfg https commands s) := by
  induction commands generalizing s with
  | nil => exact h.flush (Or.inl hstate) https
  | cons command rest ih =>
      have hresting := St.resting_of_reading hstate
      have hrest : Calm A rest := hcalm.tail
      have hqueues : s.c.queues = [] := h.waits.1.trans (St.waits_of_reading hstate)
      cases command with
      | put p => exact ih (h.act h.base.residency p) hstate hrest
      | reply bytes => exact ih (h.reply hresting bytes) hstate hrest
      | act op => exact ih (h.act (Residency.apply h.base.residency op) s.proto) hstate hrest
      | store sh =>
          exact ih (h.change hresting rfl hqueues (fun _ => hqueues) (fun _ => rfl) _ _ _ _)
            rfl hrest
      | park =>
          have hparked : St.setWait.resting = true := rfl
          refine (h.change hresting hparked ?_ (fun hsettled => ?_)
            (fun hsh => (by cases hsh)) _ _ _ _).inv
            (Or.inr (List.cons_ne_nil _ _))
          · rw [hqueues]
            rfl
          · exact absurd (hcalm hsettled _ List.mem_cons_self).1 Bool.false_ne_true.symm
      | stored =>
          exact ih (h.change hresting rfl hqueues (fun _ => hqueues) (fun hsh => (by cases hsh))
            _ _ _ _) rfl hrest
      | keepAlive on =>
          exact ih (h.change hresting hresting h.waits.1 (fun _ => hqueues) h.waits.2.1
            (!on) _ _ _) hstate hrest
      | quit =>
          exact (h.change hresting hresting h.waits.1 (fun _ => hqueues)
            h.waits.2.1 true _ _ _).flush
            (Or.inl hstate) https
      | tooLong => exact h.close_orderly (St.valuing_of_resting hresting)
      | more =>
          rw [Loop.processLoop]
          split_ifs
          · exact ih h hstate hrest
          · exact h.flush (Or.inl hstate) https
      | sslError =>
          rw [Loop.processLoop]
          split_ifs
          · exact h.close
          · exact h.flush (Or.inl hstate) https
      | handshake => exact h.flush (Or.inl hstate) https
      | get key reqRange framing =>
          have hrests : St.idle.resting = true := rfl
          have hidle := h.change hresting hrests hqueues (fun _ => hqueues)
            (fun hsh : false = true => (by cases hsh)) s.c.quitAfter key reqRange s.c.tls
          -- where nothing may be parked, a buffer is free
          have hfree : A.settled → 0 < s.iobufs.free.length := by
            intro hsettled
            rcases (h.base.around.2 hsettled).1 with hgetless | hpos
            · exact absurd ((hcalm hsettled _ List.mem_cons_self).2 hgetless)
                Bool.false_ne_true.symm
            · rwa [h.rest hresting] at hpos
          obtain ⟨hstill, -, -, hparked, hends⟩ :=
            begin_get (s := { s with c := { s.c with
              getKey := key, reqRange := reqRange, sh := false } }) hidle
              hfree framing
          rw [Loop.processLoop]
          split
          · rename_i s' hbegin
            rw [hbegin] at hstill hparked
            refine hstill.inv (Or.inr ?_)
            rw [hparked rfl]
            exact List.cons_ne_nil _ _
          · rename_i s' hbegin
            rw [hbegin] at hstill hends
            dsimp only at hstill hends
            rcases hends rfl with hidle | ⟨hheader, hout⟩
            · -- a miss: its reply is queued, and the commands go on
              rw [if_neg (by rw [hidle]; exact fun heq => by cases heq)]
              exact ih hstill (St.reading_iff.2 (Or.inl hidle)) hrest
            · rw [if_pos hheader]
              exact hstill.flush (Or.inr ⟨hheader, hout⟩) https

theorem process (h : Still A cfg s) (hstate : s.c.state.reading = true) (https : Bool)
    (hcalm : Calm A commands) : Inv A cfg (s.process cfg https commands) := by
  unfold Loop.process
  rw [if_pos (St.reading_iff.1 hstate)]
  exact h.process_loop hstate https hcalm

theorem ssl_read_step (h : Still A cfg s) (hstate : s.c.state.reading = true)
    (hcalm : Calm A commands) : Inv A cfg (s.sslReadStep cfg commands) := by
  unfold Loop.sslReadStep
  split_ifs with hclosing
  · exact h.inv (Or.inl hclosing)
  · split
    · exact h.process hstate true hcalm.tail
    · exact h.close
    · exact h.await hstate true

theorem drive_handshake (h : Still A cfg s) (hstate : s.c.state.reading = true)
    (hcalm : Calm A commands) : Inv A cfg (s.driveHandshake cfg commands) := by
  have hresting := St.resting_of_reading hstate
  unfold Loop.driveHandshake
  split_ifs with hclosing
  · exact h.inv (Or.inl hclosing)
  · split
    · exact (h.change hresting hresting h.waits.1 (fun hsettled => (h.base.around.2 hsettled).2)
        h.waits.2.1 _ _ _
        (some false)).ssl_read_step hstate hcalm.tail
    · exact h.close
    · exact h.await hstate true

end Still

/-- What the invariant asks of a protocol. -/
structure Seams.Sound (A : Terms) (cfg : Config) (v : Seams P) : Prop where
  process : ∀ s : Loop P, Still A cfg s → s.c.state.reading = true → Inv A cfg (v.process s)
  startRecv : ∀ s : Loop P, Still A cfg s → s.c.state.reading = true → Inv A cfg (v.startRecv s)
  onConnection : ∀ s : Loop P, Still A cfg s → s.c.state.reading = true →
    Inv A cfg (v.onConnection s)
  onPoll : ∀ s : Loop P, Still A cfg s → s.c.state.reading = true → Inv A cfg (v.onPoll s)

/-- Protocols that find commands meet it. -/
theorem Seams.of_sound (cfg : Config) (net : Transport P) {commands : Loop P → List (Command P)}
    (hcalm : ∀ s, Calm A (commands s)) : (Seams.of cfg net commands).Sound A cfg where
  process s h hstate := h.process hstate net.https (hcalm s)
  startRecv s h hstate := by
    show Inv A cfg (if net.https then s.sslReadStep cfg (commands s) else s.startRecv)
    split_ifs
    · exact h.ssl_read_step hstate (hcalm s)
    · exact h.await hstate false
  onConnection s h hstate := by
    have hresting := St.resting_of_reading hstate
    show Inv A cfg (if net.https then _ else s.startRecv)
    split_ifs
    · exact (h.change hresting hresting h.waits.1 (fun hsettled => (h.base.around.2 hsettled).2)
        h.waits.2.1 _ _ _
        (some true)).drive_handshake hstate (hcalm s)
    · exact h.await hstate false
  onPoll s h hstate := by
    show Inv A cfg (if net.https then _ else s.closeConn)
    split_ifs with hhttps hclosing
    · exact h.inv (Or.inl hclosing)
    · split
      · exact h.close
      · exact h.drive_handshake hstate (hcalm s)
      · exact h.ssl_read_step hstate (hcalm s)
    · exact h.close

variable {v : Seams P}

/-- `finish_get`. -/
theorem Base.finish_get (h : Base A cfg s) (hv : v.Sound A cfg) (hpending : s.c.pending = [])
    (hqueues : s.c.Alone) (hdata : s.c.Settled A) : Inv A cfg (s.finishGet v) := by
  unfold Loop.finishGet
  exact hv.process _ (h.dropped hpending hqueues hdata) rfl

/-- `on_value_sent`. -/
theorem Base.value_sent (h : Base A cfg s) (hv : v.Sound A cfg) (hpending : s.c.pending = [])
    (hqueues : s.c.Alone) (hread : s.c.readLane = none) (hsend : s.c.sendLane = none)
    (hdata : Conn.Settled A { s.c with
      served := s.c.served ++ [Served.mk s.c.object s.c.first s.c.getSize s.c.wire] })
    (hwire : A.intact → s.c.stale = false → s.c.wire = window s.c.object s.c.first s.c.getSize) :
    Inv A cfg (s.onValueSent v) := by
  have hserved : A.intact → s.c.stale = false →
      ∀ r ∈ s.c.served ++ [Served.mk s.c.object s.c.first s.c.getSize s.c.wire],
        r.bytes = window r.object r.first r.stop := by
    intro hintact hstale r hr
    rcases List.mem_append.1 hr with hold | hnew
    · exact h.served hintact hstale r hold
    · rw [List.mem_singleton.1 hnew]
      exact hwire hintact hstale
  have hbase : Base A cfg { s with c := { s.c with
      served := s.c.served ++ [Served.mk s.c.object s.c.first s.c.getSize s.c.wire] } } :=
    { h with served := hserved }
  unfold Loop.onValueSent
  dsimp only
  split
  · rename_i bytes htrailer
    refine Still.start_send ?_ (Or.inr (Or.inr rfl))
    exact ⟨{ h with windows := nofun, served := hserved }, hpending, nofun,
      hread, hsend, nofun, nofun,
      Conn.tidy hqueues.1 hqueues.2 rfl nofun,
      (data_iff_settled rfl).2 (Conn.Settled.reply (s := { s with c := _ }) hdata bytes)⟩
  · exact hbase.finish_get hv hpending hqueues hdata

end GoblinStore.Net
