import GoblinStore.Net.Parking
import GoblinStore.Net.Turns

/-!
# Protocols over plain connections

A `Protocol` is an iteration of `process` together with the framing of its GETs. Its runs are runs
of the stream loop whose commands are those of the protocol, so what holds in every run of the loop
holds in them (`Protocol.inv`). `Protocol.Keeps` collects what has to be shown for an invariant of
the protocol itself.
-/

namespace GoblinStore.Net

open GoblinStore.Lib GoblinStore.Core

variable {P : Type} {cfg : Config} {s t : Loop P}

/-- A protocol: its fields at first, its input, the number of iterations that a call of `process`
takes at most, the iteration, the framing of a GET that is retried, and the retry of a store that is
parked: what the store does, and with what the body is then received. `O` is what an event takes
from outside. -/
structure Protocol (P O : Type) where
  start : P
  input : P → List UInt8 → P
  size : P → Nat
  next : O → Nat → State → St → P → Turn P
  framing : O → State → P → Framing
  retry : O → State → P → List Op × Option (Bool × P)

/-- What happens to a connection, as in `LoopEvent`. -/
inductive ConnEvent (O : Type) where
  | complete (k : Nat) (res : Int) (room : Nat) (data : Nat → UInt8) (o : O)
  | wakeGet (room : Nat) (o : O)
  | wakeSet (room : Nat) (o : O)
  | stalled
  | take
  | give (j : Nat)
  | fill (j : Nat) (bytes : Nat → UInt8)
  | disk (op : Op)

/-- A loop that is about to accept a connection, over a store that has been in use. -/
structure Listener where
  cfg : Config
  ops : List Op
  chunkBytes : Nat
  chunk_pos : 0 < chunkBytes
  count : Nat
  readAhead : Bool
  room : Nat

/-- A loop over an empty store. -/
def freshLoop : Listener where
  cfg := twoLanes.cfg
  ops := []
  chunkBytes := 4096
  chunk_pos := device_block_pos
  count := 1
  readAhead := false
  room := 1

namespace Protocol

variable {O : Type}

variable (π : Protocol P O) (l : Listener)

/-- The commands of a call of `process`. -/
def commands (cfg : Config) (o : O) (s : Loop P) : List (Command P) :=
  Loop.turns cfg (π.next o) (π.size s.proto + 1) s

/-- The events of the loop that an event of the protocol stands for. -/
def events (cfg : Config) (s : Loop P) : ConnEvent O → List (LoopEvent P)
  | .complete k res room data o => [.complete k res room data (π.commands cfg o)]
  | .wakeGet room o => [.wakeGet room (π.framing o s.σ s.proto) (π.commands cfg o)]
  | .wakeSet room o =>
      if s.c.state = .setWait ∧ s.c.closing = false then
        let retried := π.retry o s.σ s.proto
        retried.1.map .disk ++
          (retried.2.map fun woken => .wakeSet room woken.1 fun s =>
            .put woken.2 :: π.commands cfg o { s with proto := woken.2 }).toList
      else []
  | .stalled => [.stalled]
  | .take => [.take]
  | .give j => [.give j]
  | .fill j bytes => [.fill j bytes]
  | .disk op => [.disk op]

def net : Transport P := ⟨false, π.input⟩

/-- One event. -/
def step (cfg : Config) (s : Loop P) (event : ConnEvent O) : Loop P :=
  run (Loop.step cfg π.net) s (π.events cfg s event)

/-- The connection that is accepted. -/
def setup : Setup P where
  cfg := l.cfg
  ops := l.ops
  chunkBytes := l.chunkBytes
  chunk_pos := l.chunk_pos
  count := l.count
  readAhead := l.readAhead
  room := l.room
  proto := π.start
  net := π.net
  commands := fun _ => []

/-- A connection that is accepted waits for input. -/
theorem setup_start : (π.setup l).start =
    Loop.startRecv ⟨State.after l.cfg l.ops, BlockPool.create l.chunkBytes l.count, fun _ _ => 0,
      [], l.room, l.readAhead, Conn.create, π.start⟩ := rfl

/-- The connection after some events. -/
def after (events : List (ConnEvent O)) : Loop P :=
  run (π.step l.cfg) (π.setup l).start events

/-- What every event of the loop keeps is kept by the events of a protocol. -/
theorem step_rule {I : Loop P → Prop}
    (hstep : ∀ s event, I s → I (s.step cfg π.net event)) (hs : I s) (event : ConnEvent O) :
    I (π.step cfg s event) :=
  invariant_run (I := I) (fun s event _ hs => hstep s event hs) hs
    (allowed_true _ s (π.events cfg s event))

end Protocol

/-- The terms of an arbitrary run; bytes are as they should be while no piece was found stale. -/
def Terms.plain : Terms := { Terms.bare with intact := True }

theorem Terms.plain_meets (cfg : Config) (s : Loop P) (event : LoopEvent P) :
    Terms.plain.Meets cfg s event :=
  ⟨False.elim, False.elim, False.elim, rfl, not_false⟩

/-- What was sent and what is still to be sent on an open connection are the replies: as many bytes
in any case, and the same bytes in their order as long as no piece was stale. -/
def Conn.InOrder (c : Conn) : Prop :=
  c.closing = false → c.sent.length + c.todo.length = c.owed.length ∧
    (c.stale = false → c.sent ++ c.todo = c.owed)

/-- Whatever completes in whatever order: no byte of a reply is lost, repeated or out of order. -/
theorem replies_sent_in_order (env : Setup P) (events : List (LoopEvent P)) :
    (env.after events).c.InOrder := by
  have hinv := env.inv (A := Terms.plain) ⟨rfl, not_false⟩
    ((allowed_true _ _ events).mono fun s event _ => Terms.plain_meets env.cfg s event)
  intro hopen
  rcases hinv.phase with ⟨-, -, -, -, hflushed, hexact⟩ | ⟨haborted, -⟩
  · exact ⟨hflushed.2.2, fun hstale => (hexact trivial hstale).2⟩
  · cases haborted.closing.symm.trans hopen

variable {O : Type}

theorem Inv.protocol_step (π : Protocol P O) (h : Inv Terms.plain cfg s) (event : ConnEvent O) :
    Inv Terms.plain cfg (π.step cfg s event) :=
  π.step_rule (fun s event hs => hs.step π.net (Terms.plain_meets cfg s event)) h event

theorem Protocol.inv_start (π : Protocol P O) (l : Listener) :
    Inv Terms.plain l.cfg (π.setup l).start :=
  (π.setup l).inv_start ⟨rfl, not_false⟩

/-- The invariant of the lanes holds in every run of a protocol. -/
theorem Protocol.inv (π : Protocol P O) (l : Listener) (events : List (ConnEvent O)) :
    Inv Terms.plain l.cfg (π.after l events) :=
  invariant_run (I := Inv Terms.plain l.cfg) (fun _ event _ hs => hs.protocol_step π event)
    (π.inv_start l)
    (allowed_true _ _ events)

/-! ## What is outstanding -/

variable {A : Terms}

/-- Only a connection that reads commands waits for input. -/
theorem Inv.reading_of_awaits (h : Inv A cfg s) {io : Io} (hio : io ∈ s.c.pending)
    (hawaits : io.awaits = true) :
    s.c.state.reading = true := by
  rcases h.phase with ⟨hphase, -⟩ | ⟨haborted, -⟩
  · have howns := hphase.owns io hio
    cases io with
    | recv | poll => exact howns
    | _ => cases hawaits
  · have hlane := haborted.kinds io hio
    cases io with
    | recv | poll => cases hlane
    | _ => cases hawaits

theorem Inv.awaited_nil (h : Inv A cfg s) (hstate : s.c.state.reading = false) :
    s.view.awaited = [] :=
  List.filter_eq_nil_iff.2 fun _ hio hawaits =>
    absurd (hstate.symm.trans (h.reading_of_awaits hio hawaits)) Bool.false_ne_true

theorem taken_awaited_nil (h : s.view.awaited = []) (k room : Nat) :
    (s.taken k room).view.awaited = [] :=
  List.filter_eq_nil_iff.2 fun io hio => List.filter_eq_nil_iff.1 h io (mem_of_taken room hio)

/-- When an operation of the socket has completed, no other waits for input. -/
theorem Inv.awaited_taken (h : Inv A cfg s) {k : Nat} {io : Io} (hk : s.c.pending[k]? = some io)
    (hio : io.isRead = false) (room : Nat) : (s.taken k room).view.awaited = [] := by
  refine List.filter_eq_nil_iff.2 fun io' hio' hawaits => ?_
  rcases h.phase with ⟨hphase, -⟩ | ⟨haborted, -⟩
  · have hread := hphase.only_taken hk hio room io' hio'
    cases io' with
    | recv | poll => cases hread
    | _ => cases hawaits
  · have hlane := haborted.kinds io' (mem_of_taken room hio')
    cases io' with
    | recv | poll => cases hlane
    | _ => cases hawaits

theorem St.reading_of_not_resting {st : St} (h : st.resting = false) : st.reading = false := by
  cases st <;> first | rfl | cases h

/-! ## Invariants of a protocol -/

/-- `process` is entered with these fields of the protocol and nothing outstanding that waits for
input. -/
def Entered (s t : Loop P) (p : P) : Prop :=
  t.view = { s.view with proto := p, awaited := [] } ∧ t.c.closing = s.c.closing ∧
    t.c.owed = s.c.owed

/-- After a GET was retried. -/
def Retried (Φ J : Loop P → Prop) (begun : Bool × Loop P) : Prop :=
  match begun with
  | (false, t) => J t
  | (true, t) => if t.c.state = .getHeader then J t.startSend else Φ t

section Begun

variable {framing : Framing} {ok : Bool} {Φ Ψ : Loop P → Prop}

/-- The ends of an iteration that opens a GET. -/
theorem Begun.leads (h : Begun s framing ok t) {size : Loop P → Nat} {n : Nat}
    (miss : t.c.state = .idle → t.c.owed = s.c.owed ++ framing.miss → Φ t ∧ size t < n)
    (hit : t.c.state = .getHeader → (∃ info, s.σ.index.lookup s.c.getKey = some info ∧
      info.isExpired s.σ.now = false ∧ t.c.owed = s.c.owed ++ framing.hit s.c.reqRange info) →
      Ψ t.startSend)
    (park : t.c.state = .getWait → t.c.owed = s.c.owed → Ψ t) : Leads false Φ Ψ size n (ok, t) := by
  rcases h.ends with ⟨rfl, -, hidle, -, howed⟩ | ⟨rfl, -, hheader, hout, hinfo⟩ |
    ⟨rfl, -, hwait, howed⟩
  · show if t.c.state = .getHeader then _ else _
    rw [if_neg (by rw [hidle]; exact fun heq => by cases heq)]
    exact miss hidle howed
  · show if t.c.state = .getHeader then Ψ (t.flush false) else _
    unfold Loop.flush
    rw [if_pos hheader, if_pos hout]
    exact hit hheader hinfo
  · exact park hwait howed

/-- The ends of a retry. -/
theorem Begun.retried (h : Begun s framing ok t)
    (miss : t.c.state = .idle → t.c.owed = s.c.owed ++ framing.miss → Φ t)
    (hit : t.c.state = .getHeader → (∃ info, s.σ.index.lookup s.c.getKey = some info ∧
      info.isExpired s.σ.now = false ∧ t.c.owed = s.c.owed ++ framing.hit s.c.reqRange info) →
      Ψ t.startSend)
    (park : t.c.state = .getWait → t.c.owed = s.c.owed → Ψ t) : Retried Φ Ψ (ok, t) := by
  rcases h.ends with ⟨rfl, -, hidle, -, howed⟩ | ⟨rfl, -, hheader, -, hinfo⟩ |
    ⟨rfl, -, hwait, howed⟩
  · show if t.c.state = .getHeader then _ else _
    rw [if_neg (by rw [hidle]; exact fun heq => by cases heq)]
    exact miss hidle howed
  · show if t.c.state = .getHeader then _ else _
    rw [if_pos hheader]
    exact hit hheader hinfo
  · exact park hwait howed

/-- `Φ` is about the protocol and what is outstanding, and gives `Ψ` while a GET is under way. -/
structure Begins (Φ Ψ : Loop P → Prop) : Prop where
  congr : ∀ s t : Loop P, t.proto = s.proto → t.view.awaited = s.view.awaited →
    t.c.quitAfter = s.c.quitAfter →
    Φ s → Φ t
  busy : ∀ s, Φ s → s.c.state.reading = false → Ψ s

/-- A GET that was tried goes on with `Φ`, or with `Ψ` when it was opened or waits for a buffer. -/
theorem Begins.tried (h : Begins Φ Ψ) (hbegun : Begun s framing ok t) (hs : Φ s) :
    Φ t ∧ (t.c.state = .getHeader → Ψ t.startSend) ∧ (t.c.state = .getWait → Ψ t) := by
  have ht : Φ t := h.congr s t hbegun.proto (congrArg (List.filter Io.awaits) hbegun.pending)
    hbegun.quitAfter hs
  obtain ⟨hview, hkeep, -⟩ := start_send_keeps t
  have hsent : Φ t.startSend :=
    h.congr t _ (congrArg View.proto hview) (congrArg View.awaited hview)
      (congrArg View.quitAfter hview) ht
  exact ⟨ht, fun hheader => h.busy _ hsent (by rw [hkeep, hheader]; rfl),
    fun hwait => h.busy _ ht (by rw [hwait]; rfl)⟩

/-- An iteration opens a GET. -/
theorem Begins.opened (h : Begins Φ Ψ) (size : P → Nat) {n : Nat} (hs : Φ s) (hn : size s.proto < n)
    {key : Digest} {reqRange : Option ByteRange} :
    Leads false (fun s => Φ s ∧ s.c.state.reading = true) Ψ (fun s => size s.proto) n
      (s.opened cfg key reqRange framing) := by
  have hbegun := begin_get_begun cfg
    { s with c := { s.c with getKey := key, reqRange := reqRange, sh := false } } framing
  obtain ⟨hmiss, hhit, hpark⟩ := h.tried hbegun (h.congr s _ rfl rfl rfl hs)
  exact hbegun.leads (fun hidle _ => ⟨⟨hmiss, by rw [hidle]; rfl⟩, by rw [hbegun.proto]; exact hn⟩)
    (fun hheader _ => hhit hheader) fun hwait _ => hpark hwait

/-- A parked GET is tried again. -/
theorem Begins.retried (h : Begins Φ Ψ) (hs : Φ s) :
    Retried Φ Ψ (Loop.beginGet cfg { s with c := { s.c with queues := s.c.queues.erase .getWait } }
      framing) := by
  have hbegun := begin_get_begun cfg
    { s with c := { s.c with queues := s.c.queues.erase .getWait } } framing
  obtain ⟨hmiss, hhit, hpark⟩ := h.tried hbegun (h.congr s _ rfl rfl rfl hs)
  exact hbegun.retried (fun _ _ => hmiss) (fun hheader _ => hhit hheader) fun hwait _ => hpark hwait

end Begun

/-- What an invariant `J` of a protocol has to meet; `Φ` holds where `process` is entered, and `Ok`
of the bytes that are received. -/
structure Protocol.Keeps {O : Type} (π : Protocol P O) (cfg : Config)
    (Ok : Loop P → List UInt8 → Prop) (Φ J : Loop P → Prop) : Prop where
  congr : ∀ s t, Same s t → J s → J t
  disk : ∀ s op, J s → J { s with σ := s.σ.apply cfg op }
  taken : ∀ s k room, J s → J (Loop.taken s k room)
  closes : ∀ s t, t.view = s.view → t.c.state = s.c.state → t.c.owed = s.c.owed →
    t.c.closing = true → J s → J t
  goes : ∀ s t, J s → s.c.state.resting = false → t.view = s.view → t.c.state.resting = false →
    (t.c.owed = s.c.owed ∨ ∃ bytes, s.c.trailer = some bytes ∧ t.c.owed = s.c.owed ++ bytes) → J t
  asks : ∀ s t : Loop P, J s → s.c.state.reading = true → s.c.quitAfter = false →
    s.view.awaited = [] → t.view = s.view →
    t.c.state = s.c.state → t.c.owed = s.c.owed → t.c.closing = s.c.closing → t.c.out = [] →
    J (t.start .recv)
  enters : ∀ s t bytes, J s → Ok s bytes → .recv ∈ s.c.pending → s.c.state.reading = true →
    bytes.length ≤ kRecvBuf →
    Entered s t (π.input s.proto bytes) → t.c.state = s.c.state → t.c.out = s.c.out → Φ t
  resumes : ∀ s t, J s → s.c.state.resting = false → Entered s t s.proto → t.c.state = .idle → Φ t
  wakesGet : ∀ o s, J s → s.c.state = .getWait → s.c.closing = false → s.view.awaited = [] →
    Retried Φ J (Loop.beginGet cfg { s with c := { s.c with queues := s.c.queues.erase .getWait } }
      (π.framing o s.σ s.proto))
  wakesSet : ∀ o s sh p, J s → s.c.state = .setWait → s.c.closing = false → s.view.awaited = [] →
    (π.retry o s.σ s.proto).2 = some (sh, p) →
    ∀ t : Loop P, t.proto = p → t.c = { s.c with
      state := .setBody, sh := sh, queues := s.c.queues.erase .setWait } → Φ t
  process : ∀ o s, Φ s → s.c.state.reading = true →
    J (Loop.processLoop cfg false (π.commands cfg o s) s)

/-- What a completed receive brings is allowed. -/
def Receives (Ok : Loop P → List UInt8 → Prop) (s : Loop P) (k : Nat) (res : Int)
    (data : Nat → UInt8) : Prop :=
  s.c.pending[k]? = some .recv → Ok s (received (Io.clamp res .recv) data)

/-- What an event brings is allowed. -/
def Brings {O : Type} (Ok : Loop P → List UInt8 → Prop) (s : Loop P) : ConnEvent O → Prop
  | .complete k res _ data _ => Receives Ok s k res data
  | _ => True

namespace Protocol.Keeps

variable {O : Type} {π : Protocol P O} {Ok : Loop P → List UInt8 → Prop} {Φ J : Loop P → Prop}

/-- `process` with the commands of the protocol. -/
theorem process_of (h : π.Keeps cfg Ok Φ J) (o : O) (hs : Φ s)
    (hreading : s.c.state.reading = true) :
    J ((Seams.of cfg π.net (π.commands cfg o)).process s) := by
  show J (s.process cfg false (π.commands cfg o s))
  unfold Loop.process
  rw [if_pos (St.reading_iff.1 hreading)]
  exact h.process o s hs hreading

/-- A completion. -/
theorem complete (h : π.Keeps cfg Ok Φ J) (hinv : Inv A cfg s) (hs : J s) (k : Nat) (res : Int)
    (room : Nat) (data : Nat → UInt8) (o : O) (hok : Receives Ok s k res data) :
    J (s.complete cfg k res room data (Seams.of cfg π.net (π.commands cfg o))) := by
  cases hk : s.c.pending[k]? with
  | none =>
      unfold Loop.complete
      rw [hk]
      exact hs
  | some io =>
      have hmem : io ∈ s.c.pending := List.mem_of_getElem? hk
      obtain ⟨t, heq, hhandled⟩ :=
        @complete_handled _ cfg s (Seams.of cfg π.net (π.commands cfg o)) io k hk
        (hinv.streams_of_read hmem) res room data
      rw [heq]
      refine h.congr t _ (retire_carried t).same ?_
      have htransfer := (transferred_carried (s.taken k room) io (io.clamp res)).same
      have htaken : J ((s.taken k room).transferred io (io.clamp res)) :=
        h.congr _ _ htransfer (h.taken s k room hs)
      generalize (s.taken k room).transferred io (io.clamp res) = s' at hhandled htransfer htaken
      obtain ⟨hview, hstate, hclosing, howed, hout⟩ := htransfer
      have hread : io.isRead = false → s'.view.awaited = [] := fun hio =>
        (congrArg View.awaited hview).trans (hinv.awaited_taken hk hio room)
      cases hhandled with
      | stays _ view state owed closing out =>
          cases hclosed : t.c.closing with
          | true => exact h.closes s' t view state owed hclosed htaken
          | false =>
              have hopen : s'.c.closing = false := Bool.eq_false_iff.2 fun hyes =>
                absurd (hclosed.symm.trans (closing hyes)) Bool.false_ne_true
              exact h.congr s' t ⟨view, state, hclosed.trans hopen.symm, owed, out hclosed⟩ htaken
      | streams _ state streamed =>
          cases streamed with
          | goes _ view state' owed => exact h.goes s' t htaken state view state' owed
          | resumes t view idle closing owed =>
              -- a value has been sent, during which nothing was awaited from the client
              have hreading : s.c.state.reading = false := by
                rw [hstate] at state
                exact Bool.eq_false_iff.2 fun hyes =>
                  absurd (state.symm.trans (St.resting_of_reading hyes)) Bool.false_ne_true
              have hawaited : s'.view.awaited = [] :=
                (congrArg View.awaited hview).trans
                  (taken_awaited_nil (hinv.awaited_nil hreading) k room)
              refine h.process_of o (h.resumes s' t htaken state ⟨?_, closing, owed⟩ idle) ?_
              · rw [view, ← hawaited]
                rfl
              · rw [idle]
                rfl
      | input recv size =>
          -- what came in was awaited, and it was the only thing
          have hreading : s.c.state.reading = true :=
            hinv.reading_of_awaits hmem (by rw [recv]; rfl)
          have hok' : Ok s (received (Io.clamp res io) data) := by
            rw [recv] at hk ⊢
            exact hok hk
          rw [recv] at hmem
          refine h.process_of o (h.enters s _ _ hs hok' hmem hreading size
            ⟨?_, hclosing, howed⟩ hstate
            (hout hreading)) ?_
          · show { s'.view with proto := π.input s'.proto (received (Io.clamp res io) data) } = _
            have hproto : s'.proto = s.proto := congrArg View.proto hview
            rw [hview, hproto]
            exact congrArg (fun awaited => { s.view with
              proto := π.input s.proto (received (Io.clamp res io) data), awaited := awaited })
              (hinv.awaited_taken hk (by rw [recv]; rfl) room)
          · exact (congrArg St.reading hstate).trans hreading
      | flushed t view state owed closing resting quitAfter out =>
          have hresting : s.c.state.resting = true :=
            (congrArg St.resting hstate).symm.trans resting
          have hio : io.isRead = false := Bool.eq_false_iff.2 fun hyes =>
            absurd ((hinv.streams_of_read hmem hyes).symm.trans hresting) Bool.false_ne_true
          have hreading : s'.c.state.reading = true :=
            (congrArg St.reading hstate).trans (hinv.reading_of_resting hmem hresting)
          exact h.asks s' t htaken hreading quitAfter (hread hio) view state owed closing
            out
      | polled =>
          show J s'.closeConn
          exact h.closes s' _ rfl rfl rfl rfl htaken

theorem wake_get (h : π.Keeps cfg Ok Φ J) (hinv : Inv A cfg s) (hs : J s) (o : O) :
    J (s.wakeGet cfg (π.framing o s.σ s.proto) (Seams.of cfg π.net (π.commands cfg o))) := by
  unfold Loop.wakeGet Loop.drainGet
  split_ifs with hwait
  · obtain ⟨hstate, hopen⟩ := hwait
    have hawaited := hinv.awaited_nil (by rw [hstate]; rfl)
    have hretried := h.wakesGet o s hs hstate (Bool.eq_false_iff.2 hopen) hawaited
    have hbegun := begin_get_begun cfg
      { s with c := { s.c with queues := s.c.queues.erase .getWait } }
      (π.framing o s.σ s.proto)
    split
    · rename_i t heq
      rw [heq] at hretried
      exact hretried
    · rename_i t heq
      rw [heq] at hretried hbegun
      dsimp only [Retried] at hretried
      split_ifs at hretried ⊢ with hheader
      · exact hretried
      · rcases hbegun.ends with ⟨-, -, hidle, -⟩ | ⟨-, -, hno, -⟩ | ⟨hfalse, -⟩
        · exact h.process_of o hretried (by rw [hidle]; rfl)
        · exact absurd hno hheader
        · cases hfalse
  · exact hs

theorem run_disk (net : Transport P) (ops : List Op) (s : Loop P) :
    run (Loop.step cfg net) s (ops.map .disk) = { s with σ := run (State.apply cfg) s.σ ops } := by
  induction ops generalizing s with
  | nil => rfl
  | cons op ops ih => exact ih { s with σ := s.σ.apply cfg op }

theorem disks (h : π.Keeps cfg Ok Φ J) (ops : List Op) (hs : J s) :
    J { s with σ := run (State.apply cfg) s.σ ops } := by
  induction ops generalizing s with
  | nil => exact hs
  | cons op ops ih => exact ih (h.disk s op hs)

theorem wake_set (h : π.Keeps cfg Ok Φ J) (hinv : Inv A cfg s) (hs : J s) (room : Nat) (o : O) :
    J (π.step cfg s (.wakeSet room o)) := by
  unfold Protocol.step Protocol.events
  split_ifs with hwait
  · obtain ⟨hstate, hopen⟩ := hwait
    have hawaited := hinv.awaited_nil (by rw [hstate]; rfl)
    have hwakes := h.wakesSet o s
    dsimp only
    generalize π.retry o s.σ s.proto = retried at hwakes ⊢
    obtain ⟨ops, woken⟩ := retried
    rw [run_append, run_disk]
    cases woken with
    | none => exact h.disks ops hs
    | some woken =>
        show J (Loop.wakeSet _ woken.1 _)
        unfold Loop.wakeSet Loop.drainSet
        rw [if_pos ⟨hstate, Bool.eq_false_iff.1 hopen⟩]
        show J (Loop.processLoop cfg false (π.commands cfg o _) _)
        exact h.process o _ (hwakes woken.1 woken.2 hs hstate hopen hawaited rfl _ rfl rfl) rfl
  · exact hs

/-- One event keeps an invariant of the protocol. -/
theorem step (h : π.Keeps cfg Ok Φ J) (hinv : Inv A cfg s) (hs : J s) {event : ConnEvent O}
    (hok : Brings Ok s event) :
    J (π.step cfg s event) := by
  cases event with
  | complete k res room data o => exact h.complete hinv hs k res room data o hok
  | wakeGet room o =>
      have hroom : Inv A cfg { s with room := room } :=
        hinv.around hinv.base.residency hinv.base.chunk hinv.base.bufs (fun _ _ _ => rfl)
          hinv.base.around
      exact h.wake_get hroom
        (h.congr s { s with room := room } ⟨rfl, rfl, rfl, rfl, fun _ => rfl⟩ hs) o
  | wakeSet room o => exact h.wake_set hinv hs room o
  | stalled =>
      show J s.sweep
      unfold Loop.sweep
      split_ifs
      · exact h.closes s _ rfl rfl rfl rfl hs
      · exact hs
  | take =>
      show J (s.step cfg π.net .take)
      rw [Loop.step]
      split
      · exact hs
      · exact h.congr s _ ⟨rfl, rfl, rfl, rfl, fun _ => rfl⟩ hs
  | give j =>
      show J (s.step cfg π.net (.give j))
      rw [Loop.step]
      split
      · exact hs
      · exact h.congr s _ ⟨rfl, rfl, rfl, rfl, fun _ => rfl⟩ hs
  | fill j bytes =>
      show J (s.step cfg π.net (.fill j bytes))
      rw [Loop.step]
      split
      · exact hs
      · exact h.congr s _ ⟨rfl, rfl, rfl, rfl, fun _ => rfl⟩ hs
  | disk op => exact h.disk s op hs

/-- An invariant of the protocol holds in all its runs. -/
theorem after {l : Listener} (h : π.Keeps l.cfg Ok Φ J) (hstart : J (π.setup l).start)
    {events : List (ConnEvent O)}
    (hok : Allowed (π.step l.cfg) (Brings Ok) (π.setup l).start events) : J (π.after l events) :=
  (invariant_run (I := fun s => Inv Terms.plain l.cfg s ∧ J s)
    (fun _ event hok hs => ⟨hs.1.protocol_step π event, h.step hs.1 hs.2 hok⟩)
    ⟨π.inv_start l, hstart⟩ hok).2

/-- The same if any bytes may be received. -/
theorem after_all {l : Listener} (h : π.Keeps l.cfg (fun _ _ => True) Φ J)
    (hstart : J (π.setup l).start) (events : List (ConnEvent O)) : J (π.after l events) := by
  refine h.after hstart ((allowed_true _ _ events).mono fun s event _ => ?_)
  cases event with
  | complete k res room data o => exact fun _ => trivial
  | _ => trivial

end Protocol.Keeps

end GoblinStore.Net
