import GoblinStore.Net.LaneReads

/-!
# A connection of the stream loop

`StreamLoop` runs one thread over one ring. Each completion calls a handler of the connection it
belongs to; the handler changes the connection and submits new operations, each of which is refused
if the submission queue is full. A GET streams the part of its window beyond the pinned head through
one or two lanes: while a piece is sent from one lane, the next one is read into the other.

The machine here is one connection. Other connections of the loop take and return buffers of the
pool, other threads change the store, and the kernel completes outstanding operations in any order
with any result. The protocols override `process` and some other functions of the loop (`Seams`).
For what holds of every protocol, what `process` finds in the input is a list of commands from
outside (`Seams.of`). A step that would index a lane `-1`, divide by zero or follow an empty stream
sets `undefined`.
-/

namespace GoblinStore.Net

open GoblinStore.Lib GoblinStore.Core

/-- The states of a connection. -/
inductive St where
  | idle
  | setBody
  | setWait
  | getWait
  | getHeader
  | getSendHead
  | getStream
  | getTrailer
  deriving DecidableEq, Repr

/-- Lanes are counted modulo two. -/
instance lanes_ne_zero : NeZero 2 := ⟨by decide⟩

/-- A lane of the pipeline, with the pool buffer it holds and the piece in it. -/
structure Lane where
  buf : Nat
  haveBuf : Bool
  len : Nat
  sent : Nat
  reads : Nat
  err : Bool
  ready : Bool
  /-- ghost: where the piece starts in the object -/
  off : Nat
  /-- ghost: the planned segments of the piece -/
  segs : List Seg
  /-- ghost: the completed reads of the piece with their results -/
  done : List (Seg × Int)

/-- A lane without a buffer. -/
def Lane.empty : Lane := ⟨0, false, 0, 0, 0, false, false, 0, [], []⟩

/-- A lane without a piece. -/
def Lane.clear (lane : Lane) : Lane :=
  { lane with len := 0, sent := 0, reads := 0, err := false, ready := false }

/-- An operation that the kernel has not completed. A send from `out` carries its bytes; a send from
a lane carries its buffer, its span of the piece, and as ghosts the reads of the piece with their
results. -/
inductive Io where
  | recv
  | poll
  | sendOut (bytes : List UInt8)
  | sendHead (sent n : Nat)
  | sendLane (lane : Fin 2) (buf sent n : Nat) (segs : List Seg) (done : List (Seg × Int))
  | read (lane : Fin 2) (buf : Nat) (seg : Seg)

/-- The size of a connection's receive buffer. -/
def kRecvBuf : Nat := 16 * 1024

/-- The kernel transfers no more bytes than it was asked for. -/
def Io.clamp (res : Int) : Io → Int
  | .recv => min res kRecvBuf
  | .sendOut bytes => min res bytes.length
  | .sendHead _ n | .sendLane _ _ _ n _ _ => min res n
  | _ => res

/-- The bytes `[lo, hi)` of an object. -/
def window (object : Nat → UInt8) (lo hi : Nat) : List UInt8 :=
  (List.range (hi - lo)).map fun i => object (lo + i)

/-- How the protocol frames one attempt at a GET: the header of a hit, the trailer if it has one,
the reply to a miss, and whether the client has the object already. -/
structure Framing where
  header : ObjectMeta → List UInt8
  header_ne : ∀ info, header info ≠ []
  trailer : Option (List UInt8)
  miss : List UInt8
  unmodified : ObjectMeta → Bool
  faults : Faults
  /-- ghost: the bytes of the object -/
  object : ObjectMeta → Nat → UInt8

/-- A value that has been handed over to `on_value_sent`: its window and the bytes sent. -/
structure Served where
  object : Nat → UInt8
  first : Nat
  stop : Nat
  bytes : List UInt8

/-- What the kernel had taken and what the replies were when a connection was closed. -/
structure Farewell where
  sent : List UInt8
  owed : List UInt8
  stale : Bool
  deriving DecidableEq

/-- A connection, without what only its protocol reads. -/
structure Conn where
  inflight : Nat
  closing : Bool
  quitAfter : Bool
  state : St
  out : List UInt8
  outSent : Nat
  getKey : Digest
  reqRange : Option ByteRange
  trailer : Option (List UInt8)
  rs : Option State.ReadStream
  getSize : Nat
  getPos : Nat
  /-- the number of the pin and the pinned region, while it is valid -/
  headPin : Option (Nat × Region)
  headSent : Nat
  lane : Fin 2 → Lane
  nLanes : Nat
  readLane : Option (Fin 2)
  sendLane : Option (Fin 2)
  fillI : Fin 2
  sendI : Fin 2
  planPos : Nat
  sendPos : Nat
  /-- a store handle is open -/
  sh : Bool
  /-- the TLS state of an HTTPS connection: whether the handshake is going on -/
  tls : Option Bool
  /-- ghost: the operations that the kernel has not completed -/
  pending : List Io
  /-- ghost: a step was taken that C++ leaves undefined -/
  undefined : Bool
  /-- ghost: the queues of waiters that the connection stands in -/
  queues : List St
  /-- ghost: how `process`, or the end of its reply, has closed the connection -/
  farewell : Option Farewell
  /-- ghost: replies were in `out` then -/
  dropped : Bool
  /-- ghost: the object and the first byte of the window of the current GET -/
  object : Nat → UInt8
  first : Nat
  /-- ghost: the bytes of the window that have been sent -/
  wire : List UInt8
  /-- ghost: a piece was complete, or a part of the head was sent, without the object's bytes in
  it -/
  stale : Bool
  /-- ghost: the number of hits, and the values that were sent -/
  hits : Nat
  served : List Served
  /-- ghost: all bytes that the kernel has taken, and all bytes of the replies so far -/
  sent : List UInt8
  owed : List UInt8

/-- A connection just accepted. -/
def Conn.create : Conn where
  inflight := 0
  closing := false
  quitAfter := false
  state := .idle
  out := []
  outSent := 0
  getKey := Digest.replicate 0
  reqRange := none
  trailer := none
  rs := none
  getSize := 0
  getPos := 0
  headPin := none
  headSent := 0
  lane := fun _ => Lane.empty
  nLanes := 0
  readLane := none
  sendLane := none
  fillI := 0
  sendI := 0
  planPos := 0
  sendPos := 0
  sh := false
  tls := none
  pending := []
  undefined := false
  queues := []
  farewell := none
  dropped := false
  object := fun _ => 0
  first := 0
  wire := []
  stale := false
  hits := 0
  served := []
  sent := []
  owed := []

/-- The loop with one of its connections; `P` is what the protocol keeps for the connection. -/
structure Loop (P : Type) where
  σ : State
  iobufs : BlockPool
  /-- the bytes of the pool's buffers -/
  mem : Nat → Nat → UInt8
  /-- ghost: the buffers that other connections hold -/
  others : List Nat
  /-- the free entries of the submission queue -/
  room : Nat
  readAhead : Bool
  c : Conn
  proto : P

/-- What the protocols override. -/
structure Seams (P : Type) where
  /-- the input with the bytes that were received -/
  input : P → List UInt8 → P
  process : Loop P → Loop P
  startRecv : Loop P → Loop P
  onConnection : Loop P → Loop P
  onPoll : Loop P → Loop P

variable {P : Type}

namespace Conn

/-- These bytes are the object's at `off`. -/
def agrees (c : Conn) (bytes : Nat → UInt8) (off n : Nat) : Bool :=
  decide (∀ p < n, bytes p = c.object (off + p))

/-- Replace a lane. -/
def setLane (c : Conn) (i : Fin 2) (lane : Lane) : Conn :=
  { c with lane := Function.update c.lane i lane }

/-- The lane after `i`, round-robin over the lanes. -/
def next (c : Conn) (i : Fin 2) : Fin 2 := Fin.ofNat 2 ((i.val + 1) % c.nLanes)

/-- The length of the pinned head. -/
def pinLen (c : Conn) : Nat := (c.headPin.map fun pin => pin.2.len).getD 0

/-- The end of the head's part of the window. -/
def headHi (c : Conn) : Nat := min c.pinLen c.getSize

end Conn

namespace Loop

-- the functions below are methods of the loop `s`
variable (s : Loop P)

/-- Take an entry of the submission queue for an operation. -/
def submit (io : Io) : Bool × Loop P :=
  if s.room = 0 then (false, s)
  else
    (true, { s with
      room := s.room - 1
      c := { s.c with inflight := s.c.inflight + 1, pending := s.c.pending ++ [io] } })

def closeConn : Loop P := { s with c := { s.c with closing := true } }

/-- `close_conn` when all is said; it does nothing to a connection that is closing. -/
def closeOrderly : Loop P :=
  { s with c := { s.c with
    closing := true
    farewell := if s.c.closing then s.c.farewell else some ⟨s.c.sent, s.c.owed, s.c.stale⟩
    dropped := !s.c.out.isEmpty && !s.c.closing || s.c.dropped } }

/-- Queue bytes of a reply. -/
def reply (bytes : List UInt8) : Loop P :=
  { s with c := { s.c with out := s.c.out ++ bytes, owed := s.c.owed ++ bytes } }

/-- Submit an operation of the socket: not when the connection is closing, and a refusal closes
it. -/
def start (io : Io) : Loop P :=
  if s.c.closing then s
  else
    match s.submit io with
    | (true, s) => s
    | (false, s) => s.closeConn

def startRecv : Loop P := s.start .recv

def startSend : Loop P := s.start (.sendOut (s.c.out.drop s.c.outSent))

def startSendHead : Loop P := s.start (.sendHead s.c.headSent (s.c.headHi - s.c.headSent))

def startLaneSend : Loop P :=
  if s.c.closing then s
  else
    match s.c.sendLane with
    | none => { s with c := { s.c with undefined := true } }
    | some i =>
        let lane := s.c.lane i
        s.start (.sendLane i lane.buf lane.sent (lane.len - lane.sent) lane.segs lane.done)

/-- Give the buffer of a lane back. -/
def releaseLane (i : Fin 2) : Loop P :=
  let lane := s.c.lane i
  { s with
    iobufs := if lane.haveBuf then s.iobufs.release lane.buf else s.iobufs
    c := s.c.setLane i { lane.clear with haveBuf := false } }

def releaseLanes : Loop P :=
  let s := (s.releaseLane 0).releaseLane 1
  { s with c := { s.c with
    nLanes := 0, readLane := none, sendLane := none, fillI := 0, sendI := 0 } }

def unpinIfHeld : Loop P :=
  match s.c.headPin with
  | none => s
  | some (pin, _) => { s with σ := s.σ.unpinHead pin, c := { s.c with headPin := none } }

/-- What `finish_get`, `abort_get` and `retire` have in common. -/
def dropGet : Loop P :=
  let s := s.releaseLanes.unpinIfHeld
  { s with c := { s.c with rs := none } }

def abortGet : Loop P := s.dropGet.closeConn

end Loop

/-! ## Opening a GET -/

namespace Loop

/-- Put a buffer into a lane. -/
def holdLane (s : Loop P) (i : Fin 2) (buf : Nat) (iobufs : BlockPool) : Loop P :=
  { s with
    iobufs := iobufs
    c := { s.c.setLane i { s.c.lane i with
      buf := buf, haveBuf := true } with nLanes := i.val + 1 } }

/-- The buffers of a GET with a disk tail: one that it needs and, if there is one, a second for
reading ahead. -/
def holdLanes (s : Loop P) : Option (Loop P) :=
  match s.iobufs.acquire with
  | none => none
  | some (buf, iobufs) =>
      let s := s.holdLane 0 buf iobufs
      some <|
        match (if s.readAhead then s.iobufs.acquire else none) with
        | none => s
        | some (buf, iobufs) => s.holdLane 1 buf iobufs

/-- The end of `begin_get`: the pin, the header and the window. -/
def frameHit (s : Loop P) (info : ObjectMeta) (pin : Option (Nat × Region))
    (framing : Framing) : Loop P :=
  let range := getWindow s.c.reqRange (framing.unmodified info) info.size
  { s with
    c := { s.c with
      headPin := pin
      headSent := 0
      out := s.c.out ++ framing.header info
      trailer := framing.trailer
      getPos := range.1
      getSize := range.2
      state := .getHeader
      object := framing.object info
      first := range.1
      wire := []
      hits := s.c.hits + 1
      owed := s.c.owed ++ framing.header info ++ window (framing.object info) range.1 range.2 } }

/-- Open a GET for the key in `get_key`; `false` if the connection is parked for a buffer. -/
def beginGet (cfg : Config) (s : Loop P) (framing : Framing) : Bool × Loop P :=
  match State.openSnapshot cfg s.σ s.c.getKey framing.faults with
  | (none, σ) =>
      let s := { s with σ := σ }.reply framing.miss
      (true, { s with c := { s.c with state := .idle } })
  | (some snap, σ) =>
      let pin := snap.pin.map fun r => (s.σ.pinSeq, r)
      let s' := { s with σ := σ }
      if snap.info.headLen < snap.info.size then
        match s'.holdLanes with
        | none =>
            let s' := match pin with
              | none => s'
              | some (pin, _) => { s' with σ := s'.σ.unpinHead pin }
            (false, { s' with c := { s'.c with
              state := .getWait, queues := s'.c.queues ++ [.getWait] } })
        | some s' =>
            let s' := { s' with c := { s'.c with
              rs := snap.rs
              readLane := none
              sendLane := none
              fillI := 0
              sendI := 0
              lane := fun i => (s'.c.lane i).clear } }
            (true, s'.frameHit snap.info pin framing)
      else (true, s'.frameHit snap.info pin framing)

end Loop

/-! ## The end of a value -/

namespace Loop

def finishGet (v : Seams P) (s : Loop P) : Loop P :=
  let s := s.dropGet
  v.process { s with c := { s.c with state := .idle } }

/-- The value is sent: the trailer follows, or the GET is finished. -/
def onValueSent (v : Seams P) (s : Loop P) : Loop P :=
  let c := s.c
  let s := { s with c := { c with
    served := c.served ++ [⟨c.object, c.first, c.getSize, c.wire⟩] } }
  match c.trailer with
  | some bytes =>
      let s := s.reply bytes
      startSend { s with c := { s.c with state := .getTrailer } }
  | none => finishGet v s

end Loop

/-! ## The pipeline -/

namespace Loop

/-- Submit the reads of a piece into a lane. -/
def submitReads (i : Fin 2) : List Seg → Loop P → Bool × Loop P
  | [], s => (true, { s with c := { s.c with readLane := some i } })
  | seg :: rest, s =>
      match s.submit (.read i (s.c.lane i).buf seg) with
      | (false, s) => (false, s)
      | (true, s) =>
          submitReads i rest { s with
            c := s.c.setLane i { s.c.lane i with reads := (s.c.lane i).reads + 1 } }

variable (cfg : Config) (s : Loop P) (v : Seams P)

/-- Plan the next piece into lane `i` and submit its reads; a piece without disk reads is ready. -/
def planLaneRead (i : Fin 2) : Bool × Loop P :=
  match s.c.rs with
  | none => (false, { s with c := { s.c with undefined := true } })
  | some rs =>
      let lane := s.c.lane i
      match planPiece cfg s.σ rs s.c.planPos s.c.getSize s.iobufs.blockBytes (s.mem lane.buf) with
      | none => (false, s)
      | some piece =>
          let lane := { lane with
            len := piece.len
            sent := 0
            reads := 0
            err := false
            ready := piece.segs.isEmpty
            off := s.c.planPos
            segs := piece.segs
            done := [] }
          let s := { s with
            mem := Function.update s.mem lane.buf piece.buf
            c := { s.c.setLane i lane with
              planPos := s.c.planPos + piece.len
              fillI := s.c.next s.c.fillI
              undefined := s.c.undefined || s.c.nLanes == 0
              stale := s.c.stale || piece.segs.isEmpty &&
                !s.c.agrees piece.buf s.c.planPos piece.len } }
          if piece.segs.isEmpty then (true, s) else submitReads i piece.segs s

/-- The first part of an iteration of `pump_stream` applies. -/
def sendable : Bool :=
  s.c.sendLane.isNone && s.c.sendPos < s.c.getSize && (s.c.lane s.c.sendI).ready

/-- The second part applies. -/
def fillable : Bool :=
  s.c.readLane.isNone && s.c.planPos < s.c.getSize && (s.c.lane s.c.fillI).haveBuf &&
    !(s.c.lane s.c.fillI).ready && s.c.sendLane ≠ some s.c.fillI

/-- Start sending the next piece. -/
def sendNext : Loop P :=
  let i := s.c.sendI
  startLaneSend { s with c :=
    { s.c.setLane i { s.c.lane i with sent := 0 } with sendLane := some i } }

/-- One iteration of `pump_stream`; `true` if it goes round again. -/
def pumpOnce : Bool × Loop P :=
  let sends := s.sendable
  let s := if sends then s.sendNext else s
  if sends && s.c.closing then (false, s)
  else
    let fills := s.fillable
    match (if fills then planLaneRead cfg s s.c.fillI else (true, s)) with
    | (false, s) => (false, s.abortGet)
    | (true, s) =>
        if s.c.sendLane.isNone && s.c.readLane.isNone && s.c.getSize ≤ s.c.sendPos then
          (false, onValueSent v s)
        else (sends || fills, s)

/-- The loop of `pump_stream`. -/
def pumpLoop (cfg : Config) (v : Seams P) : Nat → Loop P → Loop P
  | 0, s => s
  | fuel + 1, s =>
      match pumpOnce cfg s v with
      | (true, s) => pumpLoop cfg v fuel s
      | (false, s) => s

/-- An iteration that goes round again has started the only send or the only batch of reads, or has
made a lane ready, so there are at most four of them (`pump_loop_fuel`). -/
def pumpStream : Loop P := pumpLoop cfg v 5 s

def enterStream : Loop P :=
  pumpStream cfg { s with c := { s.c with
    sendPos := s.c.getPos
    planPos := s.c.getPos
    state := .getStream } } v

end Loop

/-! ## Completions -/

namespace Loop

variable (cfg : Config) (s : Loop P)

/-- Bytes have been received into the connection's buffer. -/
def onRecv (res : Int) (data : Nat → UInt8) (v : Seams P) : Loop P :=
  if res ≤ 0 then s.closeConn
  else v.process { s with proto := v.input s.proto ((List.range res.toNat).map data) }

/-- A disk read has completed with this result. -/
def onRead (seg : Seg) (res : Int) (v : Seams P) : Loop P :=
  match s.c.readLane with
  | none => s
  | some i =>
      let lane := s.c.lane i
      let lane := { lane with
        err := lane.err || decide (res ≤ 0)
        reads := lane.reads - 1
        done := lane.done ++ [(seg, res)] }
      let s := { s with c := s.c.setLane i lane }
      if lane.reads ≠ 0 then s
      else
        let s := { s with c := { s.c with readLane := none } }
        if s.c.closing then s
        else if lane.err then s.abortGet
        else
          pumpStream cfg { s with c := { s.c.setLane i { lane with ready := true } with
            stale := s.c.stale || !s.c.agrees (s.mem lane.buf) lane.off lane.len } } v

/-- Bytes of a lane's piece have been sent. -/
def onLaneSent (n : Nat) (v : Seams P) : Loop P :=
  match s.c.sendLane with
  | none => { s with c := { s.c with undefined := true } }
  | some i =>
      let lane := { s.c.lane i with sent := (s.c.lane i).sent + n }
      if lane.sent < lane.len then startLaneSend { s with c := s.c.setLane i lane }
      else
        pumpStream cfg { s with c := { s.c.setLane i lane.clear with
          sendPos := s.c.sendPos + lane.len
          sendLane := none
          sendI := s.c.next s.c.sendI
          undefined := s.c.undefined || s.c.nLanes == 0 } } v

/-- Bytes of the pinned head have been sent. -/
def onHeadSent (n : Nat) (v : Seams P) : Loop P :=
  let s := { s with c := { s.c with headSent := s.c.headSent + n } }
  if s.c.headSent < s.c.headHi then s.startSendHead
  else
    let headHi := s.c.headHi
    let s := s.unpinIfHeld
    enterStream cfg { s with c := { s.c with getPos := headHi } } v

/-- Bytes of `out` have been sent. -/
def onOutSent (n : Nat) (v : Seams P) : Loop P :=
  let s := { s with c := { s.c with outSent := s.c.outSent + n } }
  if s.c.outSent < s.c.out.length then s.startSend
  else
    let s := { s with c := { s.c with out := [], outSent := 0 } }
    match s.c.state with
    | .getHeader =>
        if s.c.getPos < s.c.headHi then
          startSendHead { s with c := { s.c with headSent := s.c.getPos, state := .getSendHead } }
        else enterStream cfg s.unpinIfHeld v
    | .getTrailer => finishGet v s
    | _ => if s.c.quitAfter then s.closeOrderly else v.startRecv s

/-- `EAGAIN`, which is also `EWOULDBLOCK`. -/
def kAgain : Int := -11

def onSend (res : Int) (v : Seams P) : Loop P :=
  if res < 0 then
    if res = kAgain then
      match s.c.state with
      | .getStream => s.startLaneSend
      | .getSendHead => s.startSendHead
      | _ => s.startSend
    else s.closeConn
  else if res = 0 then s.closeConn
  else
    match s.c.state with
    | .getStream => onLaneSent cfg s res.toNat v
    | .getSendHead => onHeadSent cfg s res.toNat v
    | _ => onOutSent cfg s res.toNat v

/-- A closing connection is freed with its last outstanding operation. -/
def retire : Loop P :=
  if s.c.closing ∧ s.c.inflight = 0 then
    let s := s.dropGet
    { s with c := { s.c with tls := none } }
  else s

/-- What the kernel has done when it reports this result: a read has filled the front of its span, a
send has taken the front of its bytes. -/
def transferred (io : Io) (res : Int) : Loop P :=
  match io with
  | .read _ buf seg =>
      let data : Nat → UInt8 := match seg.fd with
        | none => fun _ => 0
        | some ino => fun i => (s.σ.fs.file ino).data (seg.fileOff + i)
      { s with mem := Function.update s.mem buf (blit (s.mem buf) seg.outOff res.toNat data) }
  | .sendOut bytes => { s with c := { s.c with sent := s.c.sent ++ bytes.take res.toNat } }
  | .sendLane _ buf sent _ _ _ =>
      let bytes := (List.range res.toNat).map fun i => s.mem buf (sent + i)
      { s with c := { s.c with wire := s.c.wire ++ bytes, sent := s.c.sent ++ bytes } }
  | .sendHead sent _ =>
      let head := ((s.c.headPin.map fun pin => s.σ.pinnedBytes pin.2).getD ByteView.empty).data
      let bytes := (List.range res.toNat).map fun i => head (sent + i)
      { s with c := { s.c with
        wire := s.c.wire ++ bytes
        sent := s.c.sent ++ bytes
        stale := s.c.stale || !s.c.agrees (fun i => head (sent + i)) sent res.toNat } }
  | _ => s

/-- The handler of an operation; `data` is what the receive buffer holds. -/
def dispatch (io : Io) (res : Int) (data : Nat → UInt8) (v : Seams P) : Loop P :=
  match io with
  | .recv => onRecv s res data v
  | .poll => v.onPoll s
  | .read _ _ seg => onRead cfg s seg res v
  | _ => onSend cfg s res v

/-- Outstanding operation number `k` completes; the submission queue has `room` free entries. -/
def complete (k : Nat) (res : Int) (room : Nat) (data : Nat → UInt8) (v : Seams P) : Loop P :=
  match s.c.pending[k]? with
  | none => s
  | some io =>
      let res := io.clamp res
      let s := { s with
        room := room
        c := { s.c with inflight := s.c.inflight - 1, pending := s.c.pending.eraseIdx k } }
      (dispatch cfg (s.transferred io res) io res data v).retire

/-- What `drain_get_waiters` does with a connection that is not closing, in whatever state it is. -/
def drainGet (framing : Framing) (v : Seams P) : Loop P :=
  match beginGet cfg { s with c := { s.c with queues := s.c.queues.erase .getWait } } framing with
  | (false, s) => s
  | (true, s) => if s.c.state = .getHeader then s.startSend else v.process s

/-- `drain_get_waiters` for a connection that is parked. The source has no such test: it begins a
GET for whatever stands in the queue. That only parked connections do is `waiters_are_parked`, for
runs in which nothing parks a connection that is closing. -/
def wakeGet (framing : Framing) (v : Seams P) : Loop P :=
  if s.c.state = .getWait ∧ ¬ s.c.closing then s.drainGet cfg framing v else s

/-- What `drain_set_waiters` does with a connection that is not closing and whose store can begin
now, or fails to. -/
def drainSet (sh : Bool) (v : Seams P) : Loop P :=
  v.process { s with c := { s.c with
    state := .setBody, sh := sh, queues := s.c.queues.erase .setWait } }

/-- `drain_set_waiters` for a connection that is parked, which the source does not test either. -/
def wakeSet (sh : Bool) (v : Seams P) : Loop P :=
  if s.c.state = .setWait ∧ ¬ s.c.closing then s.drainSet sh v else s

/-- `sweep_stalled` drops a connection that holds a buffer, a pin or a store handle. -/
def sweep : Loop P :=
  if 0 < s.c.nLanes ∨ s.c.headPin ≠ none ∨ s.c.sh then s.closeConn else s

end Loop

/-! ## Every protocol -/

/-- What a call of `process` finds and does next: it goes on with other protocol state; queues a
reply; has the store do something; starts to receive the body of a store, with a handle or rejecting
it; parks a store that waits for a staging buffer; is done with a store; keeps the connection open
after the reply or not; opens a GET; stops at the end of the connection, or at a line that is too
long. In an HTTPS connection it stops for more input, and `SSL_read` has more or fails; before, the
handshake may be completed. -/
inductive Command (P : Type) where
  | put (p : P)
  | reply (bytes : List UInt8)
  | act (op : Op)
  | store (sh : Bool)
  | park
  | stored
  | keepAlive (on : Bool)
  | get (key : Digest) (reqRange : Option ByteRange) (framing : Framing)
  | quit
  | tooLong
  | more
  | sslError
  | handshake

namespace Loop

/-- Ask for input: the first operation of `start_recv`, or of `arm_poll`. -/
def await (https : Bool) (s : Loop P) : Loop P := s.start (if https then .poll else .recv)

/-- The end of `process`: send the replies, or close, or wait for more input. -/
def flush (https : Bool) (s : Loop P) : Loop P :=
  if s.c.out ≠ [] then s.startSend
  else if s.c.quitAfter then s.closeOrderly
  else s.await https

/-- `process` has nothing to send and goes on to `SSL_read`. -/
def rereads (https : Bool) (s : Loop P) : Bool :=
  https && s.c.out.isEmpty && !s.c.quitAfter && !s.c.closing

/-- The loop of `process`. -/
def processLoop (cfg : Config) (https : Bool) : List (Command P) → Loop P → Loop P
  | [], s => s.flush https
  | .put p :: rest, s => processLoop cfg https rest { s with proto := p }
  | .reply bytes :: rest, s => processLoop cfg https rest (s.reply bytes)
  | .act op :: rest, s => processLoop cfg https rest { s with σ := s.σ.apply cfg op }
  | .store sh :: rest, s =>
      processLoop cfg https rest { s with c := { s.c with state := .setBody, sh := sh } }
  | .park :: _, s =>
      { s with c := { s.c with
        state := .setWait, sh := false, queues := s.c.queues ++ [.setWait] } }
  | .stored :: rest, s =>
      processLoop cfg https rest { s with c := { s.c with state := .idle, sh := false } }
  | .keepAlive on :: rest, s =>
      processLoop cfg https rest { s with c := { s.c with quitAfter := !on } }
  | .get key reqRange framing :: rest, s =>
      -- a GET is only parsed when no store is open
      match beginGet cfg { s with c := { s.c with
        getKey := key, reqRange := reqRange, sh := false } } framing with
      | (false, s) => s
      | (true, s) => if s.c.state = .getHeader then s.flush https else processLoop cfg https rest s
  | .quit :: _, s => flush https { s with c := { s.c with quitAfter := true } }
  | .tooLong :: _, s => s.closeOrderly
  | .more :: rest, s => if s.rereads https then processLoop cfg https rest s else s.flush https
  | .sslError :: _, s => if s.rereads https then s.closeConn else s.flush https
  | .handshake :: _, s => s.flush https

/-- `process` does nothing while a GET is streamed. -/
def process (cfg : Config) (https : Bool) (commands : List (Command P)) (s : Loop P) : Loop P :=
  if s.c.state = .idle ∨ s.c.state = .setBody then processLoop cfg https commands s else s

/-- `ssl_read_step`. -/
def sslReadStep (cfg : Config) (commands : List (Command P)) (s : Loop P) : Loop P :=
  if s.c.closing then s
  else
    match commands with
    | .more :: rest => s.process cfg true rest
    | .sslError :: _ => s.closeConn
    | _ => s.await true

/-- `drive_handshake`. -/
def driveHandshake (cfg : Config) (commands : List (Command P)) (s : Loop P) : Loop P :=
  if s.c.closing then s
  else
    match commands with
    | .handshake :: rest => sslReadStep cfg rest { s with c := { s.c with tls := some false } }
    | .sslError :: _ => s.closeConn
    | _ => s.await true

end Loop

/-- How the input reaches the protocol. -/
structure Transport (P : Type) where
  https : Bool
  input : P → List UInt8 → P

/-- The protocol that finds these commands. A failing `SSL_new` is a handshake that fails. -/
def Seams.of (cfg : Config) (net : Transport P)
    (commands : Loop P → List (Command P)) : Seams P where
  input := net.input
  process s := s.process cfg net.https (commands s)
  startRecv s := if net.https then s.sslReadStep cfg (commands s) else s.startRecv
  onConnection s :=
    if net.https then { s with c := { s.c with tls := some true } }.driveHandshake cfg (commands s)
    else s.startRecv
  onPoll s :=
    if net.https then
      if s.c.closing then s
      else
        match s.c.tls with
        | none => s.closeConn
        | some true => s.driveHandshake cfg (commands s)
        | some false => s.sslReadStep cfg (commands s)
    else s.closeConn

/-- What happens to a connection: a completion; a parked GET or a parked store is retried; it has
made no progress for too long; another connection takes or returns a buffer, or writes into one that
it holds; a step of another thread on the store. -/
inductive LoopEvent (P : Type) where
  | complete (k : Nat) (res : Int) (room : Nat) (data : Nat → UInt8)
      (commands : Loop P → List (Command P))
  | wakeGet (room : Nat) (framing : Framing) (commands : Loop P → List (Command P))
  | wakeSet (room : Nat) (sh : Bool) (commands : Loop P → List (Command P))
  | stalled
  | take
  | give (j : Nat)
  | fill (j : Nat) (bytes : Nat → UInt8)
  | disk (op : Op)

namespace Loop

/-- One event. -/
def step (cfg : Config) (net : Transport P) (s : Loop P) : LoopEvent P → Loop P
  | .complete k res room data commands => s.complete cfg k res room data (Seams.of cfg net commands)
  | .wakeGet room framing commands =>
      wakeGet cfg { s with room := room } framing (Seams.of cfg net commands)
  | .wakeSet room sh commands => wakeSet { s with room := room } sh (Seams.of cfg net commands)
  | .stalled => s.sweep
  | .take =>
      match s.iobufs.acquire with
      | none => s
      | some (buf, iobufs) => { s with iobufs := iobufs, others := buf :: s.others }
  | .give j =>
      match s.others[j]? with
      | none => s
      | some buf => { s with iobufs := s.iobufs.release buf, others := s.others.eraseIdx j }
  | .fill j bytes =>
      match s.others[j]? with
      | none => s
      | some buf => { s with mem := Function.update s.mem buf bytes }
  | .disk op => { s with σ := s.σ.apply cfg op }

/-- A connection is accepted by a loop whose other connections hold no buffer. -/
def accept (σ : State) (chunkBytes count : Nat) (readAhead : Bool) (room : Nat) (p : P)
    (v : Seams P) : Loop P :=
  v.onConnection ⟨σ, BlockPool.create chunkBytes count, fun _ _ => 0, [], room, readAhead,
    Conn.create, p⟩

end Loop

end GoblinStore.Net
