import GoblinStore.Net.LoopRuns

/-!
# What a completion means to the protocol

The handlers of the stream loop do most of their work on the lanes and on `out`. What the protocol
looks at they leave alone (`Loop.view`), and they come to the functions that a protocol overrides in
few places: `process` is called with new input and at the end of a GET, `start_recv` when `out` has
been sent. `complete_handled` says so once, for every completion. Nothing here depends on the
invariant of the lanes.

A GET takes a read buffer or two, and a pin on the resident head. The pin goes when the head is
sent, and everything at the end of the value, when the GET is aborted and when the connection is
freed. A handler that does none of this leaves all of it alone (`Untouched`). `Custody` is what an
invariant of these things has to meet; what a handler does on the way to a function of the protocol
then keeps it (`Passes`).
-/

namespace GoblinStore.Net

open GoblinStore.Lib GoblinStore.Core

variable {P : Type} {cfg : Config} {s t u : Loop P} {v : Seams P}

/-- The operation waits for input. -/
def Io.awaits : Io → Bool
  | .recv | .poll => true
  | _ => false

/-- What a protocol looks at, but for the state and the replies. -/
structure View (P : Type) where
  proto : P
  /-- the history of the store -/
  history : List Event
  queues : List St
  quitAfter : Bool
  sh : Bool
  trailer : Option (List UInt8)
  getKey : Digest
  reqRange : Option ByteRange
  /-- the outstanding operations that wait for input -/
  awaited : List Io
  dropped : Bool

/-- What a protocol sees of the loop. -/
def Loop.view (s : Loop P) : View P :=
  ⟨s.proto, s.σ.history, s.c.queues, s.c.quitAfter, s.c.sh, s.c.trailer, s.c.getKey, s.c.reqRange,
    s.c.pending.filter Io.awaits, s.c.dropped⟩

/-- Nothing that a protocol looks at has changed, and the connection has not been closed. -/
structure Same (s t : Loop P) : Prop where
  view : t.view = s.view
  state : t.c.state = s.c.state
  closing : t.c.closing = s.c.closing
  owed : t.c.owed = s.c.owed
  out : s.c.state.reading = true → t.c.out = s.c.out

/-! ## Custody -/

/-- The store, the read buffers and the pin of a connection. -/
def Loop.custody (s : Loop P) : State × BlockPool × List Nat × Option (Nat × Region) :=
  (s.σ, s.iobufs, heldBufs s.c.lane, s.c.headPin)

/-- Nothing is taken or given back, and the GET, if there is one, goes on. -/
def Untouched (s t : Loop P) : Prop :=
  t.custody = s.custody ∧ (t.c.state.resting = true → s.c.state.resting = true)

/-- What an invariant of the things that a GET has must meet. -/
structure Custody (I : Loop P → Prop) : Prop where
  untouched : ∀ {s t}, I s → Untouched s t → I t
  unpin : ∀ s, I s → I s.unpinIfHeld
  drop : ∀ s, I s → I s.dropGet
  finish : ∀ s, I s → I { s.dropGet with c := { s.dropGet.c with state := .idle } }

/-- Such an invariant holds of the second connection if it does of the first. -/
def Passes (s t : Loop P) : Prop := ∀ I : Loop P → Prop, Custody I → I s → I t

/-- One after the other. -/
theorem Untouched.trans (h : Untouched s t) (h' : Untouched t u) : Untouched s u :=
  ⟨h'.1.trans h.1, fun hrest => h.2 (h'.2 hrest)⟩

/-- Custody looks at nothing that was touched. -/
theorem Untouched.passes (h : Untouched s t) : Passes s t := fun _ hI hs => hI.untouched hs h

/-- One after the other. -/
theorem Passes.trans (h : Passes s t) (h' : Passes t u) : Passes s u := fun I hI hs =>
  h' I hI (h I hI hs)

/-- A GET is given up. -/
theorem Passes.abort (h : Passes s t) : Passes s t.abortGet := fun I hI hs =>
  hI.untouched (hI.drop t (h I hI hs)) ⟨rfl, id⟩

/-- A lane that keeps its buffer. -/
theorem held_bufs_set {lane : Fin 2 → Lane} {i : Fin 2} {l : Lane}
    (hhave : l.haveBuf = (lane i).haveBuf) (hbuf : l.buf = (lane i).buf) :
    heldBufs (Function.update lane i l) = heldBufs lane := by
  unfold heldBufs
  match i with
  | 0 => simp [hhave, hbuf]
  | 1 => simp [hhave, hbuf]

/-- Neither the protocol nor an invariant of the GET sees the difference. -/
structure Carried (s t : Loop P) : Prop where
  same : Same s t
  passes : Passes s t

/-- All that `Carried` looks at but for the buffers of the lanes. -/
def Loop.core (s : Loop P) : (View P × St × Bool × List UInt8 × List UInt8) × State × BlockPool ×
    Option (Nat × Region) :=
  ((s.view, s.c.state, s.c.closing, s.c.owed, s.c.out), s.σ, s.iobufs, s.c.headPin)

/-- A handler that changes the lanes only by what they have read or sent. -/
theorem Carried.of_core (h : t.core = s.core) (hbufs : heldBufs t.c.lane = heldBufs s.c.lane) :
    Carried s t := by
  simp only [Loop.core, Prod.mk.injEq] at h
  obtain ⟨⟨hview, hstate, hclosing, howed, hout⟩, hstore, hiobufs, hpin⟩ := h
  refine ⟨⟨hview, hstate, hclosing, howed, fun _ => hout⟩, Untouched.passes ⟨?_, ?_⟩⟩
  · unfold Loop.custody
    rw [hstore, hiobufs, hbufs, hpin]
  · rw [hstate]
    exact id

/-- A handler that does nothing. -/
theorem Carried.refl (s : Loop P) : Carried s s := .of_core rfl rfl

/-- One after the other. -/
theorem Carried.trans (h : Carried s t) (h' : Carried t u) : Carried s u where
  same :=
    { view := h'.same.view.trans h.same.view
      state := h'.same.state.trans h.same.state
      closing := h'.same.closing.trans h.same.closing
      owed := h'.same.owed.trans h.same.owed
      out := fun hreading => (h'.same.out ((congrArg St.reading h.same.state).trans hreading)).trans
        (h.same.out hreading) }
  passes := h.passes.trans h'.passes

/-! ## Operations and lanes -/

/-- An operation that does not wait for input. -/
theorem submit_carried (s : Loop P) {io : Io} (hio : io.awaits = false) :
    Carried s (s.submit io).2 := by
  unfold Loop.submit
  split_ifs
  · exact .refl s
  · have hfilter : (s.c.pending ++ [io]).filter Io.awaits = s.c.pending.filter Io.awaits := by
      rw [List.filter_append, List.filter_cons_of_neg (by rw [hio]; decide), List.filter_nil,
        List.append_nil]
    refine ⟨⟨?_, rfl, rfl, rfl, fun _ => rfl⟩, Untouched.passes ⟨rfl, id⟩⟩
    exact congrArg (fun awaited => { s.view with awaited := awaited }) hfilter

/-- `start` of an operation that does not wait for input. -/
theorem start_keeps (s : Loop P) {io : Io} (hio : io.awaits = false) : (s.start io).view = s.view ∧
    (s.start io).c.state = s.c.state ∧ (s.start io).c.owed = s.c.owed := by
  have hsubmit := (submit_carried s hio).same
  unfold Loop.start
  split_ifs
  · exact ⟨rfl, rfl, rfl⟩
  · split
    · rename_i s' heq
      rw [heq] at hsubmit
      exact ⟨hsubmit.view, hsubmit.state, hsubmit.owed⟩
    · rename_i s' heq
      rw [heq] at hsubmit
      exact ⟨hsubmit.view, hsubmit.state, hsubmit.owed⟩

/-- `start_send`. -/
theorem start_send_keeps (s : Loop P) : s.startSend.view = s.view ∧
    s.startSend.c.state = s.c.state ∧ s.startSend.c.owed = s.c.owed :=
  start_keeps s rfl

/-- `start` of any operation. -/
theorem start_proto (s : Loop P) (io : Io) :
    (s.start io).proto = s.proto ∧ (s.start io).c.state = s.c.state := by
  rcases start_cases s io with ⟨-, heq⟩ | ⟨-, -, heq⟩ | ⟨-, -, heq⟩ <;> rw [heq] <;>
    exact ⟨rfl, rfl⟩

/-- An operation is started, or the connection is closed. -/
theorem start_untouched (s : Loop P) (io : Io) : Untouched s (s.start io) := by
  rcases start_cases s io with ⟨-, heq⟩ | ⟨-, -, heq⟩ | ⟨-, -, heq⟩ <;> rw [heq] <;> exact ⟨rfl, id⟩

/-- `flush` sends what is queued, closes the connection or waits for input. -/
theorem flush_proto (https : Bool) (s : Loop P) :
    (s.flush https).proto = s.proto ∧ (s.flush https).c.state = s.c.state := by
  unfold Loop.flush
  split_ifs
  · exact start_proto s _
  · exact ⟨rfl, rfl⟩
  · exact start_proto s _

/-- `flush` takes nothing. -/
theorem flush_untouched (https : Bool) (s : Loop P) : Untouched s (s.flush https) := by
  unfold Loop.flush
  split_ifs
  · exact start_untouched s _
  · exact ⟨rfl, id⟩
  · exact start_untouched s _

/-- Replies are queued, so that they are sent first. -/
theorem flush_keeps (https : Bool) (hout : s.c.out ≠ []) : (s.flush https).view = s.view ∧
    (s.flush https).c.state = s.c.state ∧ (s.flush https).c.owed = s.c.owed := by
  unfold Loop.flush
  rw [if_pos hout]
  exact start_keeps s rfl

/-- The send from a lane is started, or the connection is closed. -/
theorem start_lane_send_keeps (s : Loop P) : s.startLaneSend.view = s.view ∧
    s.startLaneSend.c.state = s.c.state ∧ s.startLaneSend.c.owed = s.c.owed := by
  unfold Loop.startLaneSend
  split_ifs
  · exact ⟨rfl, rfl, rfl⟩
  · split
    · exact ⟨rfl, rfl, rfl⟩
    · exact start_keeps s rfl

/-- The send from a lane takes nothing. -/
theorem start_lane_send_untouched (s : Loop P) : Untouched s s.startLaneSend := by
  unfold Loop.startLaneSend
  split_ifs
  · exact ⟨rfl, id⟩
  · split
    · exact ⟨rfl, id⟩
    · exact start_untouched s _

/-- The pin is given back. -/
theorem unpin_carried (s : Loop P) : Carried s s.unpinIfHeld := by
  refine ⟨?_, fun _ hI hs => hI.unpin s hs⟩
  unfold Loop.unpinIfHeld
  split
  · exact (Carried.refl s).same
  · rename_i pin _ _
    have hhistory := (State.unpin_head_same s.σ pin).history
    refine ⟨?_, rfl, rfl, rfl, fun _ => rfl⟩
    exact congrArg (fun history => { s.view with history := history }) hhistory

/-- All that a GET has is given back. -/
theorem drop_get_carried (s : Loop P) : Carried s s.dropGet := by
  refine ⟨?_, fun _ hI hs => hI.drop s hs⟩
  have hunpin := (unpin_carried s.releaseLanes).same
  rw [release_lanes_eq] at hunpin
  unfold Loop.dropGet
  rw [release_lanes_eq]
  exact { hunpin with }

/-- The reads of a piece. -/
theorem submit_reads_carried (i : Fin 2) (segs : List Seg) (s : Loop P) :
    Carried s (Loop.submitReads i segs s).2 := by
  induction segs generalizing s with
  | nil => exact .of_core rfl rfl
  | cons seg rest ih =>
      have hsubmit := submit_carried s (rfl : (Io.read i (s.c.lane i).buf seg).awaits = false)
      rw [Loop.submitReads]
      split
      · rename_i s' heq
        rw [heq] at hsubmit
        exact hsubmit
      · rename_i s' heq
        rw [heq] at hsubmit
        have hlane : Carried s' { s' with
            c := s'.c.setLane i { s'.c.lane i with reads := (s'.c.lane i).reads + 1 } } :=
          .of_core rfl (held_bufs_set rfl rfl)
        exact (hsubmit.trans hlane).trans (ih _)

/-- A piece is planned into a lane. -/
theorem plan_lane_read_carried (cfg : Config) (s : Loop P) (i : Fin 2) :
    Carried s (s.planLaneRead cfg i).2 := by
  unfold Loop.planLaneRead
  split
  · exact .of_core rfl rfl
  · dsimp only
    split
    · exact .refl s
    · split_ifs
      · exact .of_core rfl (held_bufs_set rfl rfl)
      · refine Carried.trans ?_ (submit_reads_carried i _ _)
        exact .of_core rfl (held_bufs_set rfl rfl)

/-! ## A GET -/

/-- How a step of a GET ends: the GET goes on, perhaps with the trailer, or it is over and `process`
looks for further requests. -/
inductive Streamed (v : Seams P) (s : Loop P) : Loop P → Prop where
  | goes (t : Loop P) (view : t.view = s.view) (state : t.c.state.resting = false)
      (owed : t.c.owed = s.c.owed ∨ ∃ bytes, s.c.trailer = some bytes ∧
      t.c.owed = s.c.owed ++ bytes) (passes : Passes s t) : Streamed v s t
  | resumes (t : Loop P) (view : t.view = s.view) (state : t.c.state = .idle)
      (closing : t.c.closing = s.c.closing) (owed : t.c.owed = s.c.owed) (passes : Passes s t) :
      Streamed v s (v.process t)

/-- A step of a GET behind one that the protocol does not see. -/
theorem Streamed.after (h : Carried s t) (h' : Streamed v t u) : Streamed v s u := by
  have hsame := h.same
  cases h' with
  | goes _ view state owed passes =>
      have htrailer : t.c.trailer = s.c.trailer := congrArg View.trailer hsame.view
      rw [hsame.owed, htrailer] at owed
      exact .goes _ (view.trans hsame.view) state owed (h.passes.trans passes)
  | resumes t' view state closing owed passes =>
      exact .resumes t' (view.trans hsame.view) state (closing.trans hsame.closing)
        (owed.trans hsame.owed) (h.passes.trans passes)

/-- The GET goes on as it was. -/
theorem Carried.goes (h : Carried s t) (hstate : s.c.state.resting = false) : Streamed v s t :=
  .goes _ h.same.view ((congrArg St.resting h.same.state).trans hstate)
    (Or.inl h.same.owed) h.passes

/-- The GET is over. -/
theorem finish_get_streamed (s : Loop P) (v : Seams P) : Streamed v s (s.finishGet v) :=
  have h := (drop_get_carried s).same
  .resumes { s.dropGet with c := { s.dropGet.c with state := .idle } } h.view rfl h.closing h.owed
    fun _ hI hs => hI.finish s hs

/-- The value is sent: the trailer follows, if there is one. -/
theorem on_value_sent_streamed (s : Loop P) (v : Seams P) : Streamed v s (s.onValueSent v) := by
  unfold Loop.onValueSent
  dsimp only
  split
  · rename_i bytes htrailer
    obtain ⟨hview, hstate, howed⟩ := start_send_keeps { s with c := { s.c with
      served := s.c.served ++ [⟨s.c.object, s.c.first, s.c.getSize, s.c.wire⟩]
      out := s.c.out ++ bytes
      owed := s.c.owed ++ bytes
      state := .getTrailer } }
    have hqueued : Untouched s { s with c := { s.c with
        served := s.c.served ++ [⟨s.c.object, s.c.first, s.c.getSize, s.c.wire⟩]
        out := s.c.out ++ bytes
        owed := s.c.owed ++ bytes
        state := .getTrailer } } := ⟨rfl, nofun⟩
    exact .goes _ hview (congrArg St.resting hstate) (Or.inr ⟨bytes, htrailer, howed⟩)
      (hqueued.passes.trans (start_untouched _ _).passes)
  · refine Streamed.after ?_ (finish_get_streamed _ v)
    exact .of_core rfl rfl

/-- A connection that is closing stays so. -/
theorem start_lane_send_closing (h : s.c.closing = true) : s.startLaneSend.c.closing = true := by
  unfold Loop.startLaneSend
  rw [if_pos h]
  exact h

/-- Starting the next piece shows the protocol nothing. -/
theorem send_next_keeps (s : Loop P) :
    s.sendNext.view = s.view ∧ s.sendNext.c.state = s.c.state ∧ s.sendNext.c.owed = s.c.owed :=
  start_lane_send_keeps _

/-- Starting the next piece takes no buffer and no pin. -/
theorem send_next_untouched (s : Loop P) : Untouched s s.sendNext := by
  have hpicked : Untouched s (s.sending s.c.sendI 0) :=
    ⟨congrArg (fun bufs => (s.σ, s.iobufs, bufs, s.c.headPin)) (held_bufs_set rfl rfl), id⟩
  exact hpicked.trans (start_lane_send_untouched _)

/-- The first part of an iteration of `pump_stream`, if it does not close the connection. -/
theorem send_next_carried (hstate : s.c.state.resting = false)
    (hopen : s.sendNext.c.closing = false) :
    Carried s s.sendNext := by
  obtain ⟨hview, hsame, howed⟩ := send_next_keeps s
  refine ⟨⟨hview, hsame, hopen.trans (Bool.eq_false_iff.2 fun hclosing => ?_).symm, howed,
    fun hreading => ?_⟩, (send_next_untouched s).passes⟩
  · cases hopen.symm.trans (start_lane_send_closing hclosing)
  · cases hstate.symm.trans (St.resting_of_reading hreading)

/-- An iteration of `pump_stream` goes round again with the connection as it was, or ends the
step. -/
theorem pump_once_streamed (hstate : s.c.state.resting = false) {again : Bool}
    (hpump : s.pumpOnce cfg v = (again, t)) : if again then Carried s t else Streamed v s t := by
  obtain ⟨s₁, hfirst, ⟨hsend, -, heq⟩ | ⟨hopen, ok, s₂, hsecond, heq⟩⟩ := pump_once_cases cfg s v
  · rw [hpump] at heq
    cases heq
    rcases hfirst with ⟨-, rfl⟩ | ⟨hnone, -⟩
    · obtain ⟨hview, hsame, howed⟩ := send_next_keeps s
      exact .goes _ hview ((congrArg St.resting hsame).trans hstate) (Or.inl howed)
        (send_next_untouched s).passes
    · cases hnone.symm.trans hsend
  have hsent : Carried s s₁ := by
    rcases hfirst with ⟨hsend, rfl⟩ | ⟨-, rfl⟩
    · exact send_next_carried hstate (hopen hsend)
    · exact .refl _
  have hplanned : Carried s s₂ := by
    rcases hsecond with ⟨-, hplan⟩ | ⟨-, -, rfl⟩
    · have hplans := plan_lane_read_carried cfg s₁ s₁.c.fillI
      rw [hplan] at hplans
      exact hsent.trans hplans
    · exact hsent
  rw [hpump] at heq
  split_ifs at heq with hok hend
  · cases heq
    have hdrop := (hplanned.trans (drop_get_carried s₂)).same
    exact .goes _ hdrop.view ((congrArg St.resting hdrop.state).trans hstate) (Or.inl hdrop.owed)
      hplanned.passes.abort
  · cases heq
    exact (on_value_sent_streamed s₂ v).after hplanned
  · cases heq
    split_ifs
    · exact hplanned
    · exact hplanned.goes hstate

/-- Iterations of `pump_stream`. -/
theorem pump_loop_streamed (hstate : s.c.state.resting = false) (fuel : Nat) :
    Streamed v s (Loop.pumpLoop cfg v fuel s) := by
  induction fuel generalizing s with
  | zero => exact (Carried.refl s).goes hstate
  | succ fuel ih =>
      rw [Loop.pumpLoop]
      split
      · rename_i s' hpump
        have hcarried : Carried s s' := pump_once_streamed hstate hpump
        exact (ih ((congrArg St.resting hcarried.same.state).trans hstate)).after hcarried
      · rename_i s' hpump
        exact pump_once_streamed hstate hpump

/-- The stream begins. -/
theorem enter_stream_streamed (cfg : Config) (s : Loop P) (v : Seams P) :
    Streamed v s (s.enterStream cfg v) := by
  have hpump := @pump_loop_streamed P cfg { s with c := { s.c with
    sendPos := s.c.getPos, planPos := s.c.getPos, state := .getStream } } v rfl 5
  have hentered : Untouched s { s with c := { s.c with
    sendPos := s.c.getPos, planPos := s.c.getPos, state := .getStream } } := ⟨rfl, nofun⟩
  unfold Loop.enterStream Loop.pumpStream
  generalize Loop.pumpLoop cfg v 5 _ = u at hpump ⊢
  cases hpump with
  | goes _ view state owed passes => exact .goes _ view state owed (hentered.passes.trans passes)
  | resumes t view state closing owed passes =>
      exact .resumes t view state closing owed (hentered.passes.trans passes)

/-! ## `begin_get` -/

/-- `hold_lanes` changes nothing but the buffers and the lanes. -/
theorem hold_lanes_eq {s' : Loop P} (h : s.holdLanes = some s') :
    ∃ iobufs lane n, s' = { s with
      iobufs := iobufs, c := { s.c with lane := lane, nLanes := n } } := by
  unfold Loop.holdLanes at h
  split at h
  · cases h
  · rename_i buf iobufs _
    rw [hold_lane_eq, Option.some.injEq] at h
    split at h
    · exact ⟨_, _, _, h.symm⟩
    · exact ⟨_, _, _, h.symm⟩

/-- The header and the window of a hit. -/
def Framing.hit (framing : Framing) (reqRange : Option ByteRange)
    (info : ObjectMeta) : List UInt8 :=
  let range := getWindow reqRange (framing.unmodified info) info.size
  framing.header info ++ window (framing.object info) range.1 range.2

/-- What a call of `begin_get` has done outside of the GET: it has missed, hit or parked the
connection. -/
structure Begun (s : Loop P) (framing : Framing) (ok : Bool) (s' : Loop P) : Prop where
  room : s'.room = s.room
  closing : s'.c.closing = s.c.closing
  quitAfter : s'.c.quitAfter = s.c.quitAfter
  getKey : s'.c.getKey = s.c.getKey
  reqRange : s'.c.reqRange = s.c.reqRange
  proto : s'.proto = s.proto
  history : s'.σ.history = s.σ.history
  pending : s'.c.pending = s.c.pending
  dropped : s'.c.dropped = s.c.dropped
  ends : ok = true ∧ s'.c.queues = s.c.queues ∧ s'.c.state = .idle ∧
    s'.c.out = s.c.out ++ framing.miss ∧
      s'.c.owed = s.c.owed ++ framing.miss ∨
    ok = true ∧ s'.c.queues = s.c.queues ∧ s'.c.state = .getHeader ∧ s'.c.out ≠ [] ∧
      (∃ info, s.σ.index.lookup s.c.getKey = some info ∧ info.isExpired s.σ.now = false ∧
        s'.c.owed = s.c.owed ++ framing.hit s.c.reqRange info) ∨
    ok = false ∧ s'.c.queues = s.c.queues ++ [.getWait] ∧ s'.c.state = .getWait ∧
    s'.c.owed = s.c.owed

/-- `begin_get` misses, hits or parks. -/
theorem begin_get_begun (cfg : Config) (s : Loop P) (framing : Framing) :
    Begun s framing (s.beginGet cfg framing).1 (s.beginGet cfg framing).2 := by
  have hheader : ∀ info, s.c.out ++ framing.header info ≠ [] := fun info =>
    List.append_ne_nil_of_right_ne_nil _ (framing.header_ne info)
  have hsame := State.open_snapshot_same cfg s.σ s.c.getKey framing.faults
  unfold Loop.beginGet
  split
  · rename_i σ hsnap
    rw [hsnap] at hsame
    exact ⟨rfl, rfl, rfl, rfl, rfl, rfl, hsame.history, rfl, rfl, Or.inl ⟨rfl, rfl, rfl, rfl, rfl⟩⟩
  · rename_i snap σ hsnap
    obtain ⟨hlookup, hfresh, -⟩ := State.open_snapshot_files (congrArg Prod.fst hsnap)
    rw [hsnap] at hsame
    dsimp only
    split_ifs
    · split
      · cases snap.pin with
        | none =>
            exact ⟨rfl, rfl, rfl, rfl, rfl, rfl, hsame.history, rfl, rfl,
              Or.inr (Or.inr ⟨rfl, rfl, rfl, rfl⟩)⟩
        | some r =>
            exact ⟨rfl, rfl, rfl, rfl, rfl, rfl,
              (State.unpin_head_same σ _).history.trans hsame.history, rfl, rfl,
              Or.inr (Or.inr ⟨rfl, rfl, rfl, rfl⟩)⟩
      · rename_i s' hhold
        obtain ⟨iobufs, lane, n, rfl⟩ := hold_lanes_eq hhold
        exact ⟨rfl, rfl, rfl, rfl, rfl, rfl, hsame.history, rfl, rfl,
          Or.inr (Or.inl ⟨rfl, rfl, rfl, hheader _, snap.info, hlookup, hfresh,
          List.append_assoc _ _ _⟩)⟩
    · exact ⟨rfl, rfl, rfl, rfl, rfl, rfl, hsame.history, rfl, rfl,
        Or.inr (Or.inl ⟨rfl, rfl, rfl, hheader _, snap.info, hlookup, hfresh,
        List.append_assoc _ _ _⟩)⟩

/-! ## Completions -/

/-- What the handler of this operation comes to: the connection goes on as it was, or is closed; a
GET goes on; `process` is called with new input; all of `out` has been sent and more input is asked
for; a poll is over. -/
inductive Handled (v : Seams P) (io : Io) (bytes : List UInt8) (s : Loop P) : Loop P → Prop where
  | stays (t : Loop P) (view : t.view = s.view) (state : t.c.state = s.c.state)
      (owed : t.c.owed = s.c.owed)
      (closing : s.c.closing = true → t.c.closing = true)
      (out : t.c.closing = false → s.c.state.reading = true → t.c.out = s.c.out)
      (passes : Passes s t) :
      Handled v io bytes s t
  | streams (t : Loop P) (state : s.c.state.resting = false) (streamed : Streamed v s t) :
      Handled v io bytes s t
  | input (recv : io = .recv) (size : bytes.length ≤ kRecvBuf) :
      Handled v io bytes s (v.process { s with proto := v.input s.proto bytes })
  | flushed (t : Loop P) (view : t.view = s.view) (state : t.c.state = s.c.state)
      (owed : t.c.owed = s.c.owed)
      (closing : t.c.closing = s.c.closing) (resting : s.c.state.resting = true)
      (quitAfter : s.c.quitAfter = false)
      (out : t.c.out = []) (passes : Passes s t) : Handled v io bytes s (v.startRecv t)
  | polled (poll : io = .poll) : Handled v io bytes s (v.onPoll s)

variable {io : Io} {bytes : List UInt8}

/-- The bytes that a completion brings. -/
def received (res : Int) (data : Nat → UInt8) : List UInt8 := (List.range res.toNat).map data

/-- A submission sends nothing by itself. -/
theorem start_out (s : Loop P) (io : Io) : (s.start io).c.out = s.c.out := by
  rcases start_cases s io with ⟨-, heq⟩ | ⟨-, -, heq⟩ | ⟨-, -, heq⟩
  · exact congrArg (fun s => s.c.out) heq
  · exact congrArg (fun s => s.c.out) heq
  · exact congrArg (fun s => s.c.out) heq

/-- A connection that is closing stays so. -/
theorem start_closing (s : Loop P) (io : Io) (h : s.c.closing = true) :
    (s.start io).c.closing = true := by
  unfold Loop.start
  rw [if_pos h]
  exact h

/-- The send of a lane leaves the replies queued. -/
theorem start_lane_send_out (s : Loop P) : s.startLaneSend.c.out = s.c.out := by
  unfold Loop.startLaneSend
  split_ifs
  · rfl
  · split
    · rfl
    · exact start_out s _

/-- The connection is closed. -/
theorem close_handled (s : Loop P) : Handled v io bytes s s.closeConn :=
  .stays _ rfl rfl rfl (fun _ => rfl) nofun (Untouched.passes ⟨rfl, id⟩)

/-- The connection goes on as it was. -/
theorem Carried.stays (h : Carried s t) : Handled v io bytes s t :=
  .stays _ h.same.view h.same.state h.same.owed (fun hclosing => h.same.closing.trans hclosing)
    (fun _ => h.same.out) h.passes

/-- An operation of the connection is submitted again, or the connection is closed. -/
theorem Carried.restart (h : Carried s t) {op : Io} (hop : op.awaits = false) :
    Handled v io bytes s (t.start op) := by
  obtain ⟨hview, hstate, howed⟩ := start_keeps t hop
  exact .stays _ (hview.trans h.same.view) (hstate.trans h.same.state) (howed.trans h.same.owed)
    (fun hclosing => start_closing t op (h.same.closing.trans hclosing))
    (fun _ hreading => (start_out t op).trans (h.same.out hreading))
    (h.passes.trans (start_untouched t op).passes)

/-- The rest of the header is sent. -/
theorem Carried.restart_send (h : Carried s t) : Handled v io bytes s t.startSend := h.restart rfl

/-- The rest of a head is sent. -/
theorem Carried.restart_head (h : Carried s t) :
  Handled v io bytes s t.startSendHead := h.restart rfl

/-- The send from a lane is submitted again, or the connection is closed. -/
theorem Carried.restart_lane (h : Carried s t) : Handled v io bytes s t.startLaneSend := by
  obtain ⟨hview, hstate, howed⟩ := start_lane_send_keeps t
  exact .stays _ (hview.trans h.same.view) (hstate.trans h.same.state) (howed.trans h.same.owed)
    (fun hclosing => start_lane_send_closing (h.same.closing.trans hclosing))
    (fun _ hreading => (start_lane_send_out t).trans (h.same.out hreading))
    (h.passes.trans (start_lane_send_untouched t).passes)

/-- The GET is aborted. -/
theorem Carried.abort (h : Carried s t) : Handled v io bytes s t.abortGet :=
  have hdrop := (h.trans (drop_get_carried t)).same
  .stays _ hdrop.view hdrop.state hdrop.owed (fun _ => rfl) nofun h.passes.abort

/-- The pump is started. -/
theorem Carried.pump (h : Carried s t) (hstate : s.c.state.resting = false) :
    Handled v io bytes s (t.pumpStream cfg v) :=
  .streams _ hstate (.after h
    (pump_loop_streamed ((congrArg St.resting h.same.state).trans hstate) 5))

/-- The stream is entered. -/
theorem Carried.enter (h : Carried s t) (hstate : s.c.state.resting = false) :
    Handled v io bytes s (t.enterStream cfg v) :=
  .streams _ hstate (.after h (enter_stream_streamed cfg t v))

/-- `on_recv`. -/
theorem on_recv_handled {res : Int} (hres : res ≤ kRecvBuf) (data : Nat → UInt8) :
    Handled v .recv (received res data) s (s.onRecv res data v) := by
  unfold Loop.onRecv
  split_ifs
  · exact close_handled s
  · refine .input rfl ?_
    unfold received
    rw [List.length_map, List.length_range]
    omega

/-- `on_read`. -/
theorem on_read_handled (hstate : s.c.state.resting = false) (seg : Seg) (res : Int) :
    Handled v io bytes s (s.onRead cfg seg res v) := by
  unfold Loop.onRead
  split
  · exact (Carried.refl s).stays
  · rename_i i _
    dsimp only
    split_ifs
    · exact Carried.stays (.of_core rfl (held_bufs_set rfl rfl))
    · exact Carried.stays (.of_core rfl (held_bufs_set rfl rfl))
    · exact Carried.abort (.of_core rfl (held_bufs_set rfl rfl))
    · refine Carried.pump (.of_core rfl ?_) hstate
      show heldBufs (Function.update (Function.update s.c.lane i _) i _) = _
      rw [Function.update_idem]
      exact held_bufs_set rfl rfl

/-- A send from a lane completes. -/
theorem on_lane_sent_handled (hstate : s.c.state.resting = false) (n : Nat) :
    Handled v io bytes s (s.onLaneSent cfg n v) := by
  unfold Loop.onLaneSent
  split
  · exact Carried.stays (.of_core rfl rfl)
  · dsimp only
    split_ifs
    · exact Carried.restart_lane (.of_core rfl (held_bufs_set rfl rfl))
    · exact Carried.pump (.of_core rfl (held_bufs_set rfl rfl)) hstate

/-- A send of the resident head completes. -/
theorem on_head_sent_handled (hstate : s.c.state.resting = false) (n : Nat) :
    Handled v io bytes s (s.onHeadSent cfg n v) := by
  unfold Loop.onHeadSent
  dsimp only
  split_ifs
  · exact Carried.restart_head (.of_core rfl rfl)
  · have hsent : Carried s { s with c := { s.c with headSent := s.c.headSent + n } } :=
      .of_core rfl rfl
    exact Carried.enter ((hsent.trans (unpin_carried _)).trans (.of_core rfl rfl)) hstate

/-- The header is sent and the head follows. -/
theorem send_head_streamed (hview : t.view = s.view) (hstate : t.c.state = .getSendHead)
    (howed : t.c.owed = s.c.owed) (hcustody : t.custody = s.custody) :
    Streamed v s t.startSendHead := by
  obtain ⟨hview', hstate', howed'⟩ := start_keeps t
    (rfl : (Io.sendHead t.c.headSent (t.c.headHi - t.c.headSent)).awaits = false)
  have hresting := congrArg St.resting (hstate'.trans hstate)
  have huntouched : Untouched s t := ⟨hcustody, fun hrest => by
    rw [hstate] at hrest
    cases hrest⟩
  exact .goes _ (hview'.trans hview) hresting (Or.inl (howed'.trans howed))
    (huntouched.trans (start_untouched t _)).passes

/-- A send of `out` completes. -/
theorem on_out_sent_handled (hstream : s.c.state ≠ .getStream) (hhead : s.c.state ≠ .getSendHead)
    (n : Nat) : Handled v io bytes s (s.onOutSent cfg n v) := by
  unfold Loop.onOutSent
  dsimp only
  by_cases hmore : s.c.outSent + n < s.c.out.length
  · rw [if_pos hmore]
    exact Carried.restart_send (.of_core rfl rfl)
  · rw [if_neg hmore]
    have hcleared : Untouched s { s with c := { s.c with out := [], outSent := 0 } } := ⟨rfl, id⟩
    have hclear : s.c.state.reading = false →
        Carried s { s with c := { s.c with out := [], outSent := 0 } } := fun hstate =>
      ⟨⟨rfl, rfl, rfl, rfl, fun hreading => absurd (hstate.symm.trans hreading) Bool.false_ne_true⟩,
        hcleared.passes⟩
    split
    · rename_i hstate
      have hresting : s.c.state.resting = false := congrArg St.resting hstate
      split_ifs
      · exact .streams _ hresting (send_head_streamed rfl rfl rfl rfl)
      · exact Carried.enter ((hclear (congrArg St.reading hstate)).trans (unpin_carried _)) hresting
    · rename_i hstate
      exact .streams _ (congrArg St.resting hstate)
        (.after (hclear (congrArg St.reading hstate)) (finish_get_streamed _ v))
    · rename_i hheader htrailer
      split_ifs with hquit
      · exact .stays _ rfl rfl rfl (fun _ => rfl) nofun (Untouched.passes ⟨rfl, id⟩)
      · have hresting : s.c.state.resting = true := by
          cases hs : s.c.state <;> first | rfl | exact absurd hs ‹_›
        exact .flushed _ rfl rfl rfl rfl hresting (Bool.eq_false_iff.2 hquit) rfl hcleared.passes

/-- `on_send`. -/
theorem on_send_handled (s : Loop P) (res : Int) : Handled v io bytes s (s.onSend cfg res v) := by
  unfold Loop.onSend
  split_ifs
  · split
    · exact (Carried.refl s).restart_lane
    · exact (Carried.refl s).restart_head
    · exact (Carried.refl s).restart_send
  · exact close_handled s
  · exact close_handled s
  · split
    · rename_i hstate
      exact on_lane_sent_handled (congrArg St.resting hstate) _
    · rename_i hstate
      exact on_head_sent_handled (congrArg St.resting hstate) _
    · rename_i hstream hhead
      exact on_out_sent_handled hstream hhead _

/-- The bytes of a completion are counted. -/
theorem transferred_carried (s : Loop P) (io : Io) (res : Int) :
    Carried s (s.transferred io res) := by
  cases io <;> exact .of_core rfl rfl

/-- A connection that is closing with nothing outstanding gives back what it has. -/
theorem retire_carried (s : Loop P) : Carried s s.retire := by
  unfold Loop.retire
  split_ifs
  · exact (drop_get_carried s).trans (.of_core rfl rfl)
  · exact .refl s

/-- Reads complete only while a value is streamed. -/
theorem dispatch_handled (hread : io.isRead = true → s.c.state.resting = false) (res : Int)
    (data : Nat → UInt8) :
    Handled v io (received (io.clamp res) data) s (s.dispatch cfg io (io.clamp res) data v) := by
  cases io with
  | recv => exact on_recv_handled (min_le_right _ _) data
  | poll => exact .polled rfl
  | read => exact on_read_handled (hread rfl) _ _
  | sendOut => exact on_send_handled s _
  | sendHead => exact on_send_handled s _
  | sendLane => exact on_send_handled s _

/-- What a completion comes to. -/
theorem complete_handled {k : Nat} (hk : s.c.pending[k]? = some io)
    (hread : io.isRead = true → s.c.state.resting = false) (res : Int) (room : Nat)
    (data : Nat → UInt8) :
    ∃ t, s.complete cfg k res room data v = t.retire ∧
      Handled v io (received (io.clamp res) data) ((s.taken k room).transferred io (io.clamp res))
      t := by
  have hstate : ((s.taken k room).transferred io (io.clamp res)).c.state = s.c.state :=
    (transferred_carried (s.taken k room) io (io.clamp res)).same.state
  have hdispatch : Handled v io (received (io.clamp res) data) _
      (((s.taken k room).transferred io (io.clamp res)).dispatch cfg io (io.clamp res) data v) :=
    dispatch_handled (fun h => (congrArg St.resting hstate).trans (hread h)) res data
  refine ⟨_, ?_, hdispatch⟩
  unfold Loop.complete
  rw [hk]
  rfl

end GoblinStore.Net
