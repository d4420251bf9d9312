import GoblinStore.Net.Handlers

/-!
# Parking and closing

A connection is parked deep inside of `process`, and `process` is called from several handlers, some
of which may have closed the connection. A handler that is called on an open connection parks it
only if it leaves it open (`Loop.Meek`): whoever closes it returns without calling `process`.
-/

namespace GoblinStore.Net

open GoblinStore.Lib GoblinStore.Core

variable {P : Type} {cfg : Config} {A : Terms} {s t : Loop P} {v : Seams P}

/-- If the connection is parked, it is open. -/
def Loop.Meek (s : Loop P) : Prop := s.c.queues = [] ∨ s.c.closing = false

/-- The connection is open and not parked. -/
def Loop.Awake (s : Loop P) : Prop := s.c.queues = [] ∧ s.c.closing = false

/-- A connection that is awake is not parked, let alone closed. -/
theorem Loop.Awake.meek (h : s.Awake) : s.Meek := Or.inl h.1

/-! ## Handlers that do not park -/

/-- Submitting an operation parks nobody. -/
theorem start_queues (s : Loop P) (io : Io) : (s.start io).c.queues = s.c.queues := by
  unfold Loop.start Loop.submit
  split_ifs <;> rfl

/-! ## `process` -/

/-- Nor does the end of `process`. -/
theorem flush_queues (https : Bool) (s : Loop P) : (s.flush https).c.queues = s.c.queues := by
  unfold Loop.flush
  split_ifs
  · exact start_queues s _
  · rfl
  · exact start_queues s _

/-- The loop of `process` leaves a connection that it parks open. -/
theorem process_loop_meek (h : s.Awake) (https : Bool) (commands : List (Command P)) :
    (Loop.processLoop cfg https commands s).Meek := by
  have hflush : ∀ {s : Loop P}, s.c.queues = [] → (s.flush https).Meek := fun hqueues =>
    Or.inl ((flush_queues https _).trans hqueues)
  induction commands generalizing s with
  | nil => exact hflush h.1
  | cons command rest ih =>
      cases command with
      | put p => exact ih h
      | reply bytes => exact ih h
      | act op => exact ih h
      | store sh => exact ih h
      | park => exact Or.inr h.2
      | stored => exact ih h
      | keepAlive on => exact ih h
      | quit => exact hflush h.1
      | tooLong => exact Or.inl h.1
      | more =>
          rw [Loop.processLoop]
          split_ifs
          · exact ih h
          · exact hflush h.1
      | sslError =>
          rw [Loop.processLoop]
          split_ifs
          · exact Or.inl h.1
          · exact hflush h.1
      | handshake => exact hflush h.1
      | get key reqRange framing =>
          have hbegun := begin_get_begun cfg
            { s with c := { s.c with getKey := key, reqRange := reqRange, sh := false } } framing
          rw [Loop.processLoop]
          split
          · rename_i s' heq
            rw [heq] at hbegun
            exact Or.inr (hbegun.closing.trans h.2)
          · rename_i s' heq
            rw [heq] at hbegun
            have hqueues : s'.c.queues = [] := by
              rcases hbegun.ends with ⟨-, hkeep, -⟩ | ⟨-, hkeep, -⟩ | ⟨hfalse, -⟩
              · exact hkeep.trans h.1
              · exact hkeep.trans h.1
              · cases hfalse
            split_ifs
            · exact hflush hqueues
            · exact ih ⟨hqueues, hbegun.closing.trans h.2⟩

/-- The same of a call of `process`. -/
theorem process_meek (h : s.Awake) (https : Bool) (commands : List (Command P)) :
    (s.process cfg https commands).Meek := by
  unfold Loop.process
  split_ifs
  · exact process_loop_meek h https commands
  · exact h.meek

/-- `ssl_read_step` closes the connection or calls `process`, never both. -/
theorem ssl_read_step_meek (h : s.Awake) (commands : List (Command P)) :
    (s.sslReadStep cfg commands).Meek := by
  unfold Loop.sslReadStep
  split_ifs
  · exact h.meek
  · split
    · exact process_meek h true _
    · exact Or.inl h.1
    · exact Or.inl ((start_queues s _).trans h.1)

/-- So does `drive_handshake`. -/
theorem drive_handshake_meek (h : s.Awake) (commands : List (Command P)) :
    (s.driveHandshake cfg commands).Meek := by
  unfold Loop.driveHandshake
  split_ifs
  · exact h.meek
  · split
    · exact ssl_read_step_meek (s := { s with c := { s.c with tls := some false } }) h _
    · exact Or.inl h.1
    · exact Or.inl ((start_queues s _).trans h.1)

/-- What the handlers need of a protocol. -/
structure Seams.Meek (v : Seams P) : Prop where
  process : ∀ s : Loop P, s.Awake → (v.process s).Meek
  startRecv : ∀ s : Loop P, s.Awake → (v.startRecv s).Meek
  onConnection : ∀ s : Loop P, s.Awake → (v.onConnection s).Meek
  onPoll : ∀ s : Loop P, s.Awake → (v.onPoll s).Meek

/-- Both transports park open connections only. -/
theorem Seams.of_meek (cfg : Config) (net : Transport P) (commands : Loop P → List (Command P)) :
    (Seams.of cfg net commands).Meek where
  process s h := process_meek h net.https (commands s)
  startRecv s h := by
    show (if net.https then s.sslReadStep cfg (commands s) else s.startRecv).Meek
    split_ifs
    · exact ssl_read_step_meek h _
    · exact Or.inl ((start_queues s _).trans h.1)
  onConnection s h := by
    show (if net.https then _ else s.startRecv).Meek
    split_ifs
    · exact drive_handshake_meek (s := { s with c := { s.c with tls := some true } }) h _
    · exact Or.inl ((start_queues s _).trans h.1)
  onPoll s h := by
    show (if net.https then _ else s.closeConn).Meek
    split_ifs
    · exact h.meek
    · split
      · exact Or.inl h.1
      · exact drive_handshake_meek h _
      · exact ssl_read_step_meek h _
    · exact Or.inl h.1

/-! ## Completions -/

/-- A state that neither streams nor reads is one of the two parked ones. -/
theorem St.waits_of_resting {st : St} (hresting : st.resting = true)
    (hreading : ¬ st.reading = true) :
    st.waits ≠ [] := by
  cases st with
  | setWait | getWait => exact List.cons_ne_nil _ _
  | idle | setBody => exact absurd rfl hreading
  | _ => cases hresting

variable {io : Io}

/-- A connection outside of a GET with something outstanding reads commands. -/
theorem Inv.reading_of_resting (h : Inv A cfg s) (hio : io ∈ s.c.pending)
    (hresting : s.c.state.resting = true) : s.c.state.reading = true := by
  rcases h.phase with ⟨hphase, -, -, hdata⟩ | ⟨haborted, -⟩
  · by_contra hreading
    have hnil := (hphase.parked h.base hdata (St.waits_of_resting hresting hreading)).pending
    rw [hnil] at hio
    cases hio
  · rw [haborted.state (List.ne_nil_of_mem hio)] at hresting
    cases hresting

/-- Reads are outstanding only while a value is streamed. -/
theorem Inv.streams_of_read (h : Inv A cfg s) (hio : io ∈ s.c.pending) (hread : io.isRead = true) :
    s.c.state.resting = false := by
  cases hresting : s.c.state.resting with
  | false => rfl
  | true =>
      have hreading := h.reading_of_resting hio hresting
      have hstate : s.c.state ≠ .getStream := by
        rintro heq
        rw [heq] at hreading
        cases hreading
      rcases h.phase with ⟨hphase, -⟩ | ⟨haborted, -⟩
      · have howns := hphase.owns io hio
        cases io with
        | read i buf seg => cases (hphase.outside hstate).1.symm.trans howns.1
        | _ => cases hread
      · exact absurd (haborted.state (List.ne_nil_of_mem hio)) hstate

/-- A handler that keeps what the protocol looks at leaves an open connection that is not parked
so. -/
theorem Loop.Awake.of_view (h : s.Awake) (hview : t.view = s.view)
    (hclosing : t.c.closing = s.c.closing) :
    t.Awake :=
  ⟨(congrArg View.queues hview).trans h.1, hclosing.trans h.2⟩

/-- Whatever the handler of a completion comes to. -/
theorem Handled.meek {bytes : List UInt8} (h : Handled v io bytes s t) (hs : s.Awake)
    (hv : v.Meek) : t.Meek := by
  cases h with
  | stays _ view => exact Or.inl ((congrArg View.queues view).trans hs.1)
  | streams _ _ streamed =>
      cases streamed with
      | goes _ view => exact Or.inl ((congrArg View.queues view).trans hs.1)
      | resumes t view _ closing => exact hv.process t (hs.of_view view closing)
  | input => exact hv.process _ hs
  | flushed t view _ _ closing => exact hv.startRecv t (hs.of_view view closing)
  | polled => exact hv.onPoll s hs

/-- An operation of an open connection that is not parked completes. -/
theorem complete_meek (hinv : Inv A cfg s) (h : s.Awake) (hv : v.Meek) (k : Nat) (res : Int)
    (room : Nat) (data : Nat → UInt8) : (s.complete cfg k res room data v).Meek := by
  cases hk : s.c.pending[k]? with
  | none =>
      unfold Loop.complete
      rw [hk]
      exact h.meek
  | some io =>
      obtain ⟨t, heq, hhandled⟩ := @complete_handled _ cfg s v io k hk
        (hinv.streams_of_read (List.mem_of_getElem? hk)) res room data
      obtain ⟨hview, -, hclosing, -⟩ :=
        (transferred_carried (s.taken k room) io (io.clamp res)).same
      have htaken : (s.taken k room).Awake := h
      obtain ⟨hview', -, hclosing', -⟩ := (retire_carried t).same
      rw [heq]
      rcases hhandled.meek (htaken.of_view hview hclosing) hv with hqueues | hopen
      · exact Or.inl ((congrArg View.queues hview').trans hqueues)
      · exact Or.inr (hclosing'.trans hopen)

/-! ## Calls of `process` outside of completions -/

/-- These commands do not close the connection: `quits` says that it is to be closed after its
replies, and `said` that there are replies. -/
def Lasts (quits said : Bool) : List (Command P) → Bool
  | [] | .handshake :: _ => !quits || said
  | .put _ :: rest | .act _ :: rest | .store _ :: rest | .stored :: rest => Lasts quits said rest
  | .reply bytes :: rest => Lasts quits (said || !bytes.isEmpty) rest
  | .keepAlive on :: rest => Lasts (!on) said rest
  | .park :: _ => true
  | .get _ _ framing :: rest => Lasts quits (said || !framing.miss.isEmpty) rest
  | .quit :: _ | .sslError :: _ => said
  | .tooLong :: _ => false
  | .more :: rest => (!quits || said) && Lasts quits said rest

/-- What the first steps of a TLS connection may find. -/
def Greets : List (Command P) → Bool
  | .sslError :: _ | .handshake :: .sslError :: _ => false
  | .handshake :: .more :: rest => Lasts false false rest
  | _ => true

/-- A submission closes no connection while there is room. -/
theorem start_open (hopen : s.c.closing = false) (hroom : 0 < s.room) (io : Io) :
    (s.start io).c.closing = false := by
  unfold Loop.start Loop.submit
  rw [if_neg (by rw [hopen]; decide), if_neg (Nat.ne_of_gt hroom)]
  exact hopen

/-- Nor does the end of `process`, if a reply is left or `quit` was not seen. -/
theorem flush_open (hopen : s.c.closing = false) (hroom : 0 < s.room)
    (hlasts : (!s.c.quitAfter || !s.c.out.isEmpty) = true) (https : Bool) :
    (s.flush https).c.closing = false := by
  unfold Loop.flush
  split_ifs with hout hquit
  · exact start_open hopen hroom _
  · rw [hquit, Classical.not_not.1 hout] at hlasts
    cases hlasts
  · exact start_open hopen hroom _

/-- Something is queued when it was before or the new reply is not empty. -/
theorem said_append (out bytes : List UInt8) :
    (!(out ++ bytes).isEmpty) = (!out.isEmpty || !bytes.isEmpty) := by
  cases out <;> rfl

/-- Commands that do not end the connection leave it open. -/
theorem process_loop_open (hopen : s.c.closing = false) (hroom : 0 < s.room)
    {commands : List (Command P)} (hlasts : Lasts s.c.quitAfter (!s.c.out.isEmpty) commands = true)
    (https : Bool) :
    (Loop.processLoop cfg https commands s).c.closing = false := by
  induction commands generalizing s with
  | nil => exact flush_open hopen hroom hlasts https
  | cons command rest ih =>
      cases command with
      | put p => exact ih hopen hroom hlasts
      | reply bytes =>
          rw [Lasts, ← said_append] at hlasts
          exact @ih (s.reply bytes) hopen hroom hlasts
      | act op => exact @ih { s with σ := s.σ.apply cfg op } hopen hroom hlasts
      | store sh =>
          exact @ih { s with c := { s.c with state := .setBody, sh := sh } } hopen hroom hlasts
      | park => exact hopen
      | stored =>
          exact @ih { s with c := { s.c with state := .idle, sh := false } } hopen hroom hlasts
      | keepAlive on => exact @ih { s with c := { s.c with quitAfter := !on } } hopen hroom hlasts
      | quit =>
          have hsaid : (!true || !s.c.out.isEmpty) = true := hlasts
          exact @flush_open _ { s with c := { s.c with quitAfter := true } } hopen hroom hsaid https
      | tooLong => cases hlasts
      | more =>
          rw [Lasts, Bool.and_eq_true] at hlasts
          rw [Loop.processLoop]
          split_ifs
          · exact ih hopen hroom hlasts.2
          · exact flush_open hopen hroom hlasts.1 https
      | sslError =>
          have hsaid : (!s.c.out.isEmpty) = true := hlasts
          rw [Loop.processLoop]
          split_ifs with hrereads
          · unfold Loop.rereads at hrereads
            simp only [Bool.and_eq_true, Bool.not_eq_true'] at hrereads hsaid
            cases hsaid.symm.trans hrereads.1.1.2
          · exact flush_open hopen hroom (by rw [hsaid, Bool.or_true]) https
      | handshake => exact flush_open hopen hroom hlasts https
      | get key reqRange framing =>
          have hbegun := begin_get_begun cfg
            { s with c := { s.c with getKey := key, reqRange := reqRange, sh := false } } framing
          rw [Loop.processLoop]
          split
          · rename_i s' heq
            rw [heq] at hbegun
            exact hbegun.closing.trans hopen
          · rename_i s' heq
            rw [heq] at hbegun
            have hopen' : s'.c.closing = false := hbegun.closing.trans hopen
            have hroom' : 0 < s'.room := hbegun.room.symm ▸ hroom
            rcases hbegun.ends with ⟨-, -, hidle, hout, -⟩ | ⟨-, -, hheader, hout, -⟩ | ⟨hfalse, -⟩
            · rw [if_neg (by rw [hidle]; exact fun heq => by cases heq)]
              refine ih hopen' hroom' ?_
              rw [hbegun.quitAfter, hout, said_append]
              exact hlasts
            · rw [if_pos hheader]
              refine flush_open hopen' hroom' ?_ https
              rw [List.isEmpty_eq_false_iff.2 hout, Bool.not_false, Bool.or_true]
            · cases hfalse

/-- The same of a call of `process`. -/
theorem process_open (hopen : s.c.closing = false) (hroom : 0 < s.room)
    {commands : List (Command P)} (hlasts : Lasts s.c.quitAfter (!s.c.out.isEmpty) commands = true)
    (https : Bool) :
    (s.process cfg https commands).c.closing = false := by
  unfold Loop.process
  split_ifs
  · exact process_loop_open hopen hroom hlasts https
  · exact hopen

/-- A connection that is accepted stays open. -/
theorem on_connection_open (hopen : s.c.closing = false) (hroom : 0 < s.room)
    (hquit : s.c.quitAfter = false) (hout : s.c.out = []) (net : Transport P)
    {commands : Loop P → List (Command P)}
    (hgreets : net.https = true → ∀ s, Greets (commands s) = true) :
    ((Seams.of cfg net commands).onConnection s).c.closing = false := by
  show (if net.https then _ else s.startRecv).c.closing = false
  split_ifs with hhttps
  · have hgreets := hgreets hhttps s
    unfold Loop.driveHandshake
    rw [if_neg (by rw [hopen]; decide)]
    split
    · rename_i rest hcommands
      rw [hcommands] at hgreets
      unfold Loop.sslReadStep
      rw [if_neg (by rw [hopen]; decide)]
      split
      · rename_i more
        have hlasts : Lasts s.c.quitAfter (!s.c.out.isEmpty) more = true := by
          rw [hquit, hout]
          exact hgreets
        exact @process_open _ _ { s with c := { s.c with tls := some false } }
          hopen hroom _ hlasts true
      · cases hgreets
      · exact @start_open _ { s with c := { s.c with tls := some false } } hopen hroom _
    · rename_i rest hcommands
      rw [hcommands] at hgreets
      cases hgreets
    · exact @start_open _ { s with c := { s.c with tls := some true } } hopen hroom _
  · exact start_open hopen hroom _

end GoblinStore.Net
