import GoblinStore.Memcache.EventLoop

/-!
# Input of the memcache loop

An iteration of `process` takes what it has dealt with off the input (`turn_consumes`), so that the
input of a connection never exceeds a line of maximal length and one receive buffer
(`input_bounded`).
-/

namespace GoblinStore.Memcache

open GoblinStore.Lib GoblinStore.Core GoblinStore.Net

variable {cfg : Config} {env : Env} {σ : State} {p : Session} {s : Loop Session}

/-! ## What an iteration leaves of the input -/

/-- The loop goes on after an iteration that ends like this. -/
def goesOn : Ending → Bool
  | .again | .stores _ | .stored | .opens _ _ _ => true
  | _ => false

/-- An iteration that answers a command line, of which `p` is the rest. -/
structure Answers (p : Session) (t : Turn Session) : Prop where
  input : t.proto.input = p.input
  overrun : t.proto.overrun = p.overrun
  waits : t.ending ≠ .waits
  quits : t.ending = .quits → p.input.length ≤ kMaxLine

section

variable (cfg env σ p)

theorem begin_turn_answers :
    Answers p (beginTurn cfg env σ p) := by
  unfold beginTurn
  dsimp only
  by_cases hreject : p.setReject = true
  · rw [if_pos hreject]
    exact ⟨rfl, rfl, nofun, nofun⟩
  · rw [if_neg hreject]
    split <;> exact ⟨rfl, rfl, nofun, nofun⟩

theorem meta_turn_answers (line : List UInt8) :
    Answers p (metaTurn cfg env σ p line) := by
  unfold metaTurn
  split
  · exact ⟨rfl, rfl, nofun, nofun⟩
  · split
    · exact ⟨rfl, rfl, nofun, nofun⟩
    · have hbegin := fun p => begin_turn_answers cfg env σ p
      exact ⟨(hbegin _).input, (hbegin _).overrun, (hbegin _).waits, (hbegin _).quits⟩
    · unfold metaDeleteTurn
      dsimp only
      split
      · exact ⟨rfl, rfl, nofun, nofun⟩
      · split_ifs <;> exact ⟨rfl, rfl, nofun, nofun⟩
    · rename_i mc _ _ _
      unfold metaGetTurn
      dsimp only
      by_cases hvalue : mc.rfValue = true
      · rw [if_pos hvalue]
        exact ⟨rfl, rfl, nofun, nofun⟩
      · rw [if_neg hvalue]
        split <;> exact ⟨rfl, rfl, nofun, nofun⟩

theorem classic_turn_answers (line : List UInt8) :
    Answers p (classicTurn cfg env σ p line) := by
  have hbegin := fun p => begin_turn_answers cfg env σ p
  unfold classicTurn
  split
  · exact ⟨rfl, rfl, nofun, nofun⟩
  · split
    case h_2 =>
      split_ifs with hlong
      · exact ⟨rfl, rfl, nofun, nofun⟩
      · exact ⟨rfl, rfl, nofun, fun _ => Nat.le_of_not_lt hlong⟩
    all_goals first
      | exact ⟨rfl, rfl, nofun, nofun⟩
      | exact ⟨(hbegin _).input, (hbegin _).overrun, (hbegin _).waits, (hbegin _).quits⟩

/-- What an iteration leaves of the input: less if the loop goes on, and no more than a line if it
stops for more input. -/
structure Consumes (p : Session) (t : Turn Session) : Prop where
  le : t.proto.input.length ≤ p.input.length
  lt : goesOn t.ending = true → t.proto.input.length < p.input.length
  stops : t.ending = .waits ∨ t.ending = .quits → t.proto.input.length ≤ kMaxLine

theorem body_turn_consumes :
    Consumes p (bodyTurn cfg env σ p) := by
  unfold bodyTurn
  dsimp only
  generalize (ingest cfg env σ p).2 = failed
  have hlen : (p.taken failed).input.length = p.input.length - min p.input.length p.setRemaining :=
    List.length_drop
  have hleft : (p.taken failed).setRemaining =
    p.setRemaining - min p.input.length p.setRemaining := rfl
  split_ifs with hmore
  · refine ⟨?_, nofun, fun _ => ?_⟩
    · show (p.taken failed).input.length ≤ p.input.length
      omega
    · show (p.taken failed).input.length ≤ 8 * 1024
      omega
  · have hdrop : ((p.taken failed).input.drop 2).length = (p.taken failed).input.length - 2 :=
      List.length_drop
    refine ⟨?_, fun _ => ?_, fun h => (by rcases h with h | h <;> cases h)⟩
    · show ((p.taken failed).input.drop 2).length ≤ _
      omega
    · show ((p.taken failed).input.drop 2).length < _
      omega

theorem line_turn_consumes :
    Consumes p (lineTurn cfg env σ p) := by
  unfold lineTurn
  split
  · unfold lineEnd
    split_ifs with hlong
    · exact ⟨le_rfl, nofun, fun h => (by rcases h with h | h <;> cases h)⟩
    · exact ⟨le_rfl, nofun, fun _ => Nat.le_of_not_lt hlong⟩
  · rename_i line rest hsplit
    have hlen := split_line_length hsplit
    have hconsumes : ∀ t, Answers { p with input := rest } t →
        Consumes p (answered t) := fun t h => by
      have hinput : (answered t).proto.input.length = rest.length := congrArg List.length h.input
      refine ⟨by omega, fun _ => by omega, fun hends => ?_⟩
      rcases hends with hwaits | hquits
      · exact absurd hwaits h.waits
      · rw [hinput]
        exact h.quits hquits
    dsimp only
    split_ifs
    · exact hconsumes _ (meta_turn_answers cfg env σ _ line)
    · exact hconsumes _ (classic_turn_answers cfg env σ _ line)

end

theorem turn_consumes (cfg : Config) (env : Env) (σ : State) (st : St) (p : Session) :
    Consumes p (turn cfg env σ st p) := by
  unfold turn
  split_ifs
  · exact body_turn_consumes cfg env σ p
  · exact line_turn_consumes cfg env σ p

/-- There is no complete line, or the data block of a store is not complete. -/
def NeedsMore (st : St) (p : Session) : Prop :=
  if st = .setBody then 0 < p.setRemaining ∨ p.input.length < 2 else splitLine p.input = none

theorem turn_waits (cfg : Config) (env : Env) (σ : State) (st : St) (p : Session)
    (h : (turn cfg env σ st p).ending = .waits) : NeedsMore st (turn cfg env σ st p).proto := by
  unfold turn NeedsMore at *
  split_ifs at h ⊢
  · unfold bodyTurn at h ⊢
    dsimp only at h ⊢
    split_ifs at h ⊢ with hmore
    · exact hmore
    · cases h
  · unfold lineTurn at h ⊢
    split at h
    · rename_i hsplit
      rw [hsplit]
    · dsimp only at h
      split_ifs at h
      · exact absurd h (meta_turn_answers ..).waits
      · exact absurd h (classic_turn_answers ..).waits

/-! ## The input of a connection -/

/-- `process` is entered with at most a line and a receive buffer. -/
def Fed (s : Loop Session) : Prop :=
  s.proto.input.length ≤ kMaxLine + kRecvBuf ∧ s.view.awaited = []

/-- Between two events, at most a line is left where more input can come. -/
def InputBounded (s : Loop Session) : Prop :=
  s.proto.input.length ≤ kMaxLine + kRecvBuf ∧
    (s.view.awaited ≠ [] → s.proto.input.length ≤ kMaxLine) ∧
    (s.c.state.reading = true → s.c.closing = false → s.proto.input.length ≤ kMaxLine)

variable {t : Loop Session}

theorem InputBounded.of_line (h : t.proto.input.length ≤ kMaxLine) : InputBounded t :=
  ⟨Nat.le_add_right_of_le h, fun _ => h, fun _ _ => h⟩

theorem Fed.bounded (h : Fed s) (hstate : s.c.state.reading = true → s.c.closing = true) :
    InputBounded s :=
  ⟨h.1, fun hne => absurd h.2 hne, fun hreading hopen =>
    absurd (hopen.symm.trans (hstate hreading)) Bool.false_ne_true⟩

theorem InputBounded.flush (h : s.proto.input.length ≤ kMaxLine) :
    InputBounded (s.flush false) := by
  refine .of_line ?_
  rw [(flush_proto false s).1]
  exact h

/-- A GET that is tried takes no input. -/
theorem fed_begins : Begins Fed InputBounded where
  congr s t hproto hawaited _ h := ⟨hproto ▸ h.1, hawaited.trans h.2⟩
  busy s h hstate := h.bounded fun hreading => by cases hstate.symm.trans hreading

/-- A call of `process` leaves no more than a line where more input can come. -/
theorem process_bounded (hashKey : List UInt8 → Digest) (o : Nat → Oracle) (h : Fed s)
    (hreading : s.c.state.reading = true) :
    InputBounded (Loop.processLoop cfg false ((eventLoop cfg hashKey).commands cfg o s) s) := by
  refine turns_rule (Φ := fun s => Fed s ∧ s.c.state.reading = true)
    (fun s => s.proto.input.length) ?_
    ⟨h, hreading⟩ (Nat.lt_succ_self _)
  intro fuel s hs
  obtain ⟨⟨hlen, hawaited⟩, hreading⟩ := hs
  have hconsumes := turn_consumes cfg ⟨o fuel, hashKey⟩ s.σ s.c.state s.proto
  show (turn cfg ⟨o fuel, hashKey⟩ s.σ s.c.state s.proto).ending.Leads cfg false _ _ _
      s.proto.input.length
    (s.turned cfg (turn cfg ⟨o fuel, hashKey⟩ s.σ s.c.state s.proto))
  generalize turn cfg ⟨o fuel, hashKey⟩ s.σ s.c.state s.proto = t at hconsumes ⊢
  have hfed : Fed (s.turned cfg t) := ⟨hconsumes.le.trans hlen, hawaited⟩
  have hlt : goesOn t.ending = true →
    (s.turned cfg t).proto.input.length < s.proto.input.length := hconsumes.lt
  cases hending : t.ending with
  | again =>
      rw [hending] at hlt
      exact ⟨⟨hfed, hreading⟩, hlt rfl⟩
  | stores sh =>
      rw [hending] at hlt
      exact ⟨⟨hfed, rfl⟩, hlt rfl⟩
  | stored =>
      rw [hending] at hlt
      exact ⟨⟨hfed, rfl⟩, hlt rfl⟩
  | opens key reqRange framing =>
      rw [hending] at hlt
      exact fed_begins.opened (fun p => p.input.length) hfed (hlt rfl)
  | parks => exact Fed.bounded (s := (s.turned cfg t).parked) hfed nofun
  | waits => exact InputBounded.flush (hconsumes.stops (Or.inl hending))
  | quits =>
      exact InputBounded.flush (s := { s.turned cfg t with c := _ })
        (hconsumes.stops (Or.inr hending))
  | tooLong => exact Fed.bounded (s := (s.turned cfg t).closeOrderly) hfed fun _ => rfl

theorem view_input (h : t.view = s.view) : t.proto.input.length = s.proto.input.length :=
  congrArg (fun w => w.proto.input.length) h

/-- The retry of a parked store leaves the input alone. -/
theorem retry_store_input {sh : Bool} {p' : Session}
    (h : (retryStore cfg env σ p).2 = some (sh, p')) :
    p'.input = p.input ∧ p'.overrun = p.overrun := by
  unfold retryStore at h
  dsimp only at h
  split at h <;> cases h <;> exact ⟨rfl, rfl⟩

theorem input_kept (cfg : Config) (hashKey : List UInt8 → Digest) :
    (eventLoop cfg hashKey).Keeps cfg (fun _ _ => True) Fed InputBounded where
  congr s t hsame h := by
    obtain ⟨hview, hstate, hclosing, -, -⟩ := hsame
    unfold InputBounded
    rw [view_input hview, hview, hstate, hclosing]
    exact h
  disk s op h := h
  taken s k room h := ⟨h.1, fun hne => h.2.1 fun hnil => hne (taken_awaited_nil hnil k room), h.2.2⟩
  closes s t hview hstate _ hclosing h := by
    unfold InputBounded
    rw [view_input hview, hview, hclosing]
    exact ⟨h.1, h.2.1, nofun⟩
  goes s t h _ hview hstate _ := by
    have hreading : t.c.state.reading ≠ true := fun hyes =>
      absurd (hstate.symm.trans (St.resting_of_reading hyes)) Bool.false_ne_true
    unfold InputBounded
    rw [view_input hview, hview]
    exact ⟨h.1, h.2.1, fun hyes => absurd hyes hreading⟩
  asks s t h hreading _ hawaited hview hstate _ hclosing _ := by
    have hinput := view_input hview
    rcases start_cases t .recv with ⟨hclosed, heq⟩ | ⟨-, -, heq⟩ | ⟨hopen, -, heq⟩ <;> rw [heq]
    · unfold InputBounded
      rw [hinput, hview, hclosed]
      exact ⟨h.1, h.2.1, nofun⟩
    · refine ⟨hinput.trans_le h.1, fun hne => hinput.trans_le (h.2.1 ?_), nofun⟩
      exact fun hnil => hne ((congrArg View.awaited hview).trans hnil)
    · exact .of_line (hinput.trans_le (h.2.2 hreading (hclosing.symm.trans hopen)))
  enters s t bytes h _ hrecv _ hsize hentered _ _ := by
    obtain ⟨hview, -, -⟩ := hentered
    have hlen : t.proto.input.length = s.proto.input.length + bytes.length :=
      (congrArg (fun w => w.proto.input.length) hview).trans List.length_append
    have hline := h.2.1 (List.ne_nil_of_mem (List.mem_filter.2 ⟨hrecv, rfl⟩))
    exact ⟨by omega, congrArg View.awaited hview⟩
  resumes s t h _ hentered _ :=
    ⟨(congrArg (fun w => w.proto.input.length) hentered.1).trans_le h.1,
      congrArg View.awaited hentered.1⟩
  wakesGet _ s h _ _ hawaited := fed_begins.retried (s := s) ⟨h.1, hawaited⟩
  wakesSet o s sh p h _ _ hawaited hretry t hp hc := by
    refine ⟨?_, ?_⟩
    · rw [hp, (retry_store_input hretry).1]
      exact h.1
    · show t.c.pending.filter Io.awaits = []
      rw [hc]
      exact hawaited
  process o s h hreading := process_bounded hashKey o h hreading

/-- The input of a connection never exceeds a line of maximal length and one receive buffer. -/
theorem input_bounded (l : Listener) (hashKey : List UInt8 → Digest)
    (events : List (ConnEvent (Nat → Oracle))) :
    ((eventLoop l.cfg hashKey).after l events).proto.input.length ≤ kMaxLine + kRecvBuf := by
  refine ((input_kept l.cfg hashKey).after_all ?_ events).1
  rw [Protocol.setup_start]
  refine .of_line ?_
  unfold Loop.startRecv
  rw [(start_proto _ _).1]
  exact Nat.zero_le _

/-! ## Waiting for input -/

/-- An open connection between commands that is not to be closed needs more input. -/
def NeedsInput (s : Loop Session) : Prop :=
  s.c.state.reading = true → s.c.closing = false → s.c.quitAfter = false →
    NeedsMore s.c.state s.proto

namespace NeedsInput

theorem of_view {t : Loop Session} (h : NeedsInput s) (hview : t.view = s.view)
    (hstate : t.c.state = s.c.state) (hclosing : t.c.closing = s.c.closing) : NeedsInput t := by
  unfold NeedsInput
  rw [show t.proto = s.proto from congrArg View.proto hview,
    show t.c.quitAfter = s.c.quitAfter from congrArg View.quitAfter hview, hstate, hclosing]
  exact h

theorem start (h : NeedsInput s) (io : Io) : NeedsInput (s.start io) := by
  rcases start_cases s io with ⟨-, heq⟩ | ⟨-, -, heq⟩ | ⟨-, -, heq⟩ <;> rw [heq]
  · exact h
  · exact nofun
  · exact h

theorem flush (h : NeedsInput s) : NeedsInput (s.flush false) := by
  unfold Loop.flush
  split_ifs
  · exact h.start _
  · exact nofun
  · exact h.start _

/-- A GET goes on without input. -/
theorem of_state {st : St} (hstate : s.c.state = st) (h : st.reading = false) :
    NeedsInput s := fun hreading =>
  absurd (h.symm.trans (hstate ▸ hreading)) Bool.false_ne_true

/-- The loop of `process` goes on until it needs input, since every iteration takes something off
the input. -/
theorem process (hashKey : List UInt8 → Digest) (o : Nat → Oracle) (s : Loop Session) :
    NeedsInput (Loop.processLoop cfg false ((eventLoop cfg hashKey).commands cfg o s) s) := by
  refine turns_rule (Φ := fun _ => True) (fun s => s.proto.input.length) (fun fuel s _ => ?_)
    trivial (Nat.lt_succ_self _)
  have hwaits := turn_waits cfg ⟨o fuel, hashKey⟩ s.σ s.c.state s.proto
  have hlt := (turn_consumes cfg ⟨o fuel, hashKey⟩ s.σ s.c.state s.proto).lt
  change (turn cfg ⟨o fuel, hashKey⟩ s.σ s.c.state s.proto).ending.Leads cfg false _ _ _
      s.proto.input.length
    (s.turned cfg (turn cfg ⟨o fuel, hashKey⟩ s.σ s.c.state s.proto))
  generalize turn cfg ⟨o fuel, hashKey⟩ s.σ s.c.state s.proto = t at hwaits hlt ⊢
  cases hending : t.ending with
  | waits => exact flush fun _ _ _ => hwaits hending
  | parks => exact of_state rfl rfl
  | quits => exact flush nofun
  | tooLong => exact nofun
  | opens key reqRange framing =>
      have hbegun := begin_get_begun cfg { s.turned cfg t with c := { (s.turned cfg t).c with
        getKey := key, reqRange := reqRange, sh := false } } framing
      have hless := hlt (by rw [hending]; rfl)
      exact hbegun.leads (fun _ _ => ⟨trivial, by rw [hbegun.proto]; exact hless⟩)
        (fun hheader _ => (of_state hheader rfl).start _) fun hwait _ => of_state hwait rfl
  | _ => exact ⟨trivial, hlt (by rw [hending]; rfl)⟩

theorem kept (cfg : Config) (hashKey : List UInt8 → Digest) :
    (eventLoop cfg hashKey).Keeps cfg (fun _ _ => True) (fun _ => True) NeedsInput where
  congr _ _ hsame hs := hs.of_view hsame.view hsame.state hsame.closing
  disk _ _ hs := hs
  taken _ _ _ hs := hs
  closes _ _ _ _ _ hclosing _ _ hopen := absurd (hclosing.symm.trans hopen) Bool.false_ne_true.symm
  goes _ _ _ _ _ hstate _ := of_state rfl (St.reading_of_not_resting hstate)
  asks _ _ hs _ _ _ hview hstate _ hclosing _ := (hs.of_view hview hstate hclosing).start _
  enters _ _ _ _ _ _ _ _ _ _ _ := trivial
  resumes _ _ _ _ _ _ := trivial
  wakesGet _ _ _ _ _ _ := (begin_get_begun cfg _ _).retried (fun _ _ => trivial)
    (fun hheader _ => (of_state hheader rfl).start _) fun hwait _ => of_state hwait rfl
  wakesSet _ _ _ _ _ _ _ _ _ _ _ _ := trivial
  process o s _ _ := process hashKey o s

end NeedsInput

/-- No complete command is left in the input of a connection that waits for more of it. -/
theorem no_command_left_waiting (l : Listener) (hashKey : List UInt8 → Digest)
    (events : List (ConnEvent (Nat → Oracle))) :
    NeedsInput ((eventLoop l.cfg hashKey).after l events) :=
  (NeedsInput.kept l.cfg hashKey).after_all
    (NeedsInput.start (s := ⟨_, _, _, _, _, _, Conn.create, Session.create⟩)
    (fun _ _ _ => rfl) .recv) events

/-! ## Closing -/

/-- An iteration records what is behind the command it has dealt with; only the end of a line that
is too long is no command. -/
theorem turn_records (cfg : Config) (env : Env) (σ : State) (st : St) (p : Session)
    (h : (turn cfg env σ st p).proto.overrun = false) :
    p.overrun = false ∧ (overruns (turn cfg env σ st p).proto.input
      (turn cfg env σ st p).ending = false ∨
      turn cfg env σ st p = ⟨p, [], [], none, .tooLong⟩ ∧ st ≠ .setBody ∧
      overlong p.input = true) := by
  have hanswered : ∀ (q : Session) (t : Turn Session), t.proto.overrun = q.overrun →
      (answered t).proto.overrun = false →
      q.overrun = false ∧ overruns (answered t).proto.input (answered t).ending = false :=
        fun q t hkept hover => by
    obtain ⟨hfirst, hbehind⟩ := Bool.or_eq_false_iff.1 hover
    exact ⟨hkept.symm.trans hfirst, hbehind⟩
  unfold turn at h ⊢
  split_ifs at h ⊢ with hbody
  · unfold bodyTurn at h ⊢
    dsimp only at h ⊢
    split_ifs at h ⊢
    · exact ⟨h, Or.inl rfl⟩
    · exact (hanswered p _ rfl h).imp_right Or.inl
  · unfold lineTurn at h ⊢
    split at h
    · rename_i hsplit
      refine ⟨h, ?_⟩
      dsimp only [lineEnd]
      split_ifs with hlong
      · refine Or.inr ⟨rfl, hbody, ?_⟩
        unfold overlong
        rw [hsplit, decide_eq_true hlong]
        rfl
      · exact Or.inl rfl
    · rename_i line rest hsplit
      have hkept : (if isMetaLine line then metaTurn cfg env σ { p with input := rest } line
          else classicTurn cfg env σ { p with input := rest } line).proto.overrun = p.overrun := by
        split_ifs
        · exact (meta_turn_answers ..).overrun
        · exact (classic_turn_answers ..).overrun
      exact (hanswered p _ hkept h).imp_right Or.inl

/-- A GET is under way, or waits for a buffer. -/
def getting : St → Bool
  | .idle | .setBody | .setWait => false
  | _ => true

/-- `process` is entered with no reply in `out`, or it does not find a line that is too long. -/
structure Attentive (s : Loop Session) : Prop where
  awaited : s.view.awaited = []
  kept : s.proto.overrun = false → s.c.dropped = false
  quiet : s.proto.overrun = false → s.c.closing = false →
    s.c.out = [] ∨ s.c.state = .setBody ∨ overlong s.proto.input = false

/-- Between two events no reply has been dropped; replies are sent before more input is asked for,
and behind a GET there is no line that is too long. -/
structure Courteous (s : Loop Session) : Prop where
  kept : s.proto.overrun = false → s.c.dropped = false
  asks : s.c.closing = false → s.c.state.reading = true → s.view.awaited ≠ [] → s.c.out = []
  behind : getting s.c.state = true → s.proto.overrun = false → overlong s.proto.input = false

section Courtesy

variable {t : Loop Session}

theorem getting_of_not_resting {st : St} (h : st.resting = false) : getting st = true := by
  cases st <;> first | rfl | cases h

theorem getting_not_reading {st : St} (h : getting st = true) : ¬ st.reading = true := by
  cases st <;> first | exact Bool.false_ne_true | cases h

/-- What the protocol looks at is as it was. -/
theorem Courteous.of_view (h : Courteous s) (hview : t.view = s.view)
    (asks : t.c.closing = false → t.c.state.reading = true → t.view.awaited ≠ [] → t.c.out = [])
    (hstate : getting t.c.state = true → getting s.c.state = true) : Courteous t := by
  have hproto : t.proto = s.proto := congrArg View.proto hview
  refine ⟨fun hover => ?_, asks, fun hget => ?_⟩
  · exact (congrArg View.dropped hview).trans (h.kept (hproto ▸ hover))
  · rw [hproto]
    exact h.behind (hstate hget)

/-- The header of a hit is sent. -/
theorem Courteous.send_header (h : Courteous s) (hstate : s.c.state = .getHeader) :
    Courteous s.startSend := by
  obtain ⟨hview, hkeep, -⟩ := start_send_keeps s
  refine h.of_view hview (fun _ hreading => ?_) fun _ => hstate ▸ rfl
  rw [show s.startSend.c.state = .getHeader from hkeep.trans hstate] at hreading
  cases hreading

/-- More input is asked for when nothing is queued. -/
theorem Courteous.ask (hreading : s.c.state.reading = true)
    (hkept : s.proto.overrun = false → s.c.dropped = false) (hout : s.c.out = []) :
    Courteous (s.start .recv) := by
  rcases start_cases s .recv with ⟨-, heq⟩ | ⟨-, -, heq⟩ | ⟨-, -, heq⟩ <;> rw [heq] <;>
    exact ⟨hkept, fun _ _ _ => hout, fun hget => absurd hreading (getting_not_reading hget)⟩

/-- The end of `process`. -/
theorem Courteous.flush (hawaited : s.view.awaited = []) (hreading : s.c.state.reading = true)
    (hkept : s.proto.overrun = false → s.c.dropped = false) : Courteous (s.flush false) := by
  have hnot : getting s.c.state = true → overlong s.proto.input = false := fun hget =>
    absurd hreading (getting_not_reading hget)
  unfold Loop.flush
  split_ifs with hout
  · obtain ⟨hview, hstate, -⟩ := start_send_keeps s
    have hs : Courteous s := ⟨hkept, fun _ _ hne => absurd hawaited hne, fun hget _ => hnot hget⟩
    exact hs.of_view hview
      (fun _ _ hne => absurd ((congrArg View.awaited hview).trans hawaited) hne)
      fun hget => hstate ▸ hget
  · refine ⟨fun hover => ?_, nofun, fun hget _ => hnot hget⟩
    show (!s.c.out.isEmpty && !s.c.closing || s.c.dropped) = false
    rw [not_not.1 hout]
    exact hkept hover
  · exact .ask hreading hkept (not_not.1 hout)

/-- A GET has been tried where the input does not overrun. -/
theorem Attentive.of_begun {framing : Framing} {ok : Bool} (hbegun : Begun s framing ok t)
    (hawaited : s.view.awaited = []) (hkept : s.proto.overrun = false → s.c.dropped = false)
    (hbehind : s.proto.overrun = false → overlong s.proto.input = false) :
    Attentive t ∧ (t.c.state.reading = false → Courteous t) := by
  rw [← hbegun.proto] at hkept hbehind
  rw [← hbegun.dropped] at hkept
  exact ⟨⟨(congrArg (List.filter Io.awaits) hbegun.pending).trans hawaited, hkept,
    fun hover _ => Or.inr (Or.inr (hbehind hover))⟩,
    fun hno => ⟨hkept, fun _ hyes => absurd (hno.symm.trans hyes) Bool.false_ne_true,
    fun _ => hbehind⟩⟩

end Courtesy

/-- A call of `process` drops no reply while nothing overruns. -/
theorem process_courteous (hashKey : List UInt8 → Digest) (o : Nat → Oracle) (h : Attentive s)
    (hreading : s.c.state.reading = true) :
    Courteous (Loop.processLoop cfg false ((eventLoop cfg hashKey).commands cfg o s) s) := by
  refine turns_rule (Φ := fun s => Attentive s ∧ s.c.state.reading = true)
    (fun s => s.proto.input.length) ?_
    ⟨h, hreading⟩ (Nat.lt_succ_self _)
  intro fuel s hs
  obtain ⟨h, hreading⟩ := hs
  have hlt := (turn_consumes cfg ⟨o fuel, hashKey⟩ s.σ s.c.state s.proto).lt
  have hrecords := turn_records cfg ⟨o fuel, hashKey⟩ s.σ s.c.state s.proto
  change (turn cfg ⟨o fuel, hashKey⟩ s.σ s.c.state s.proto).ending.Leads cfg false _ _ _
      s.proto.input.length
    (s.turned cfg (turn cfg ⟨o fuel, hashKey⟩ s.σ s.c.state s.proto))
  generalize turn cfg ⟨o fuel, hashKey⟩ s.σ s.c.state s.proto = t at hlt hrecords ⊢
  have hkept : t.proto.overrun = false →
      s.c.dropped = false := fun hover => h.kept (hrecords hover).1
  -- where a line is looked for next, the input does not overrun
  have hbehind : overruns t.proto.input t.ending = overlong t.proto.input → t.ending ≠ .tooLong →
      t.proto.overrun = false → overlong t.proto.input = false := fun hends hne hover => by
    rcases (hrecords hover).2 with hno | ⟨heq, -⟩
    · exact hends.symm.trans hno
    · exact absurd (congrArg Turn.ending heq) hne
  cases hending : t.ending with
  | again =>
      rw [hending] at hlt hbehind
      have hno := hbehind rfl nofun
      exact ⟨⟨⟨h.awaited, hkept, fun hover _ => Or.inr (Or.inr (hno hover))⟩, hreading⟩, hlt rfl⟩
  | stores sh =>
      rw [hending] at hlt
      exact ⟨⟨⟨h.awaited, hkept, fun _ _ => Or.inr (Or.inl rfl)⟩, rfl⟩, hlt rfl⟩
  | stored =>
      rw [hending] at hlt hbehind
      have hno := hbehind rfl nofun
      exact ⟨⟨⟨h.awaited, hkept, fun hover _ => Or.inr (Or.inr (hno hover))⟩, rfl⟩, hlt rfl⟩
  | opens key reqRange framing =>
      rw [hending] at hlt hbehind
      have hbegun := begin_get_begun cfg { s.turned cfg t with c := { (s.turned cfg t).c with
        getKey := key, reqRange := reqRange, sh := false } } framing
      obtain ⟨hmiss, hget⟩ := Attentive.of_begun hbegun h.awaited hkept
        (hbehind rfl fun hno => by cases hno)
      exact hbegun.leads (fun hidle _ =>
        ⟨⟨hmiss, by rw [hidle]; rfl⟩, by rw [hbegun.proto]; exact hlt rfl⟩)
        (fun hheader _ => (hget (by rw [hheader]; rfl)).send_header hheader) fun hwait _ =>
        hget (by rw [hwait]; rfl)
  | parks => exact ⟨hkept, nofun, nofun⟩
  | waits => exact .flush h.awaited hreading hkept
  | quits => exact .flush (s := { s.turned cfg t with c := _ }) h.awaited hreading hkept
  | tooLong =>
      -- the only close before the test of `out`: nothing is queued, or the input has overrun
      refine ⟨fun hover => ?_, nofun, fun hget => absurd hreading (getting_not_reading hget)⟩
      obtain ⟨hfirst, hno | ⟨heq, hbody, hlong⟩⟩ := hrecords hover
      · rw [hending] at hno
        cases hno
      · show (!(s.c.out ++ t.reply).isEmpty && !s.c.closing || s.c.dropped) = false
        rw [h.kept hfirst, heq, List.append_nil, Bool.or_false]
        cases hclosing : s.c.closing with
        | true => exact Bool.and_false _
        | false =>
            rcases h.quiet hfirst hclosing with hnil | hno | hno
            · rw [hnil]
              rfl
            · exact absurd hno hbody
            · cases hlong.symm.trans hno

theorem courteous_kept (cfg : Config) (hashKey : List UInt8 → Digest) :
    (eventLoop cfg hashKey).Keeps cfg (fun _ _ => True) Attentive Courteous where
  congr s t hsame h := by
    obtain ⟨hview, hstate, hclosing, -, hout⟩ := hsame
    refine h.of_view hview ?_ fun hget => hstate ▸ hget
    rw [hview, hstate, hclosing]
    exact fun hopen hreading hne => (hout hreading).trans (h.asks hopen hreading hne)
  disk _ _ h := { h with }
  taken s k room h :=
    { h with
      asks := fun hopen hreading hne =>
        h.asks hopen hreading fun hnil => hne (taken_awaited_nil hnil k room) }
  closes s t hview hstate _ hclosing h :=
    h.of_view hview (fun hopen => absurd (hclosing.symm.trans hopen) Bool.false_ne_true.symm)
      fun hget => hstate ▸ hget
  goes s t h hresting hview hstate _ :=
    h.of_view hview (fun _ hreading =>
      absurd hreading (getting_not_reading (getting_of_not_resting hstate)))
      fun _ => getting_of_not_resting hresting
  asks s t h hreading _ _ hview hstate _ _ hout := by
    have hproto : t.proto = s.proto := congrArg View.proto hview
    exact .ask (hstate ▸ hreading) (fun hover => (congrArg View.dropped hview).trans
      (h.kept (hproto ▸ hover))) hout
  enters s t bytes h _ hrecv hreading _ hentered _ hout := by
    obtain ⟨hview, hclosing, -⟩ := hentered
    refine ⟨congrArg View.awaited hview, fun hover => ?_, fun _ hopen => Or.inl (hout.trans ?_)⟩
    · exact (congrArg View.dropped hview).trans
        (h.kept ((congrArg (fun v => v.proto.overrun) hview).symm.trans hover))
    · exact h.asks (hclosing.symm.trans hopen) hreading
        (List.ne_nil_of_mem (List.mem_filter.2 ⟨hrecv, rfl⟩))
  resumes s t h hresting hentered _ := by
    obtain ⟨hview, -, -⟩ := hentered
    have hproto : t.proto = s.proto := congrArg View.proto hview
    refine ⟨congrArg View.awaited hview, fun hover => ?_, fun hover _ => Or.inr (Or.inr ?_)⟩
    · exact (congrArg View.dropped hview).trans (h.kept (hproto ▸ hover))
    · rw [hproto] at hover ⊢
      exact h.behind (getting_of_not_resting hresting) hover
  wakesGet o s h hstate _ hawaited := by
    have hbegun := begin_get_begun cfg
      { s with c := { s.c with queues := s.c.queues.erase .getWait } }
      ((eventLoop cfg hashKey).framing o s.σ s.proto)
    obtain ⟨hmiss, hget⟩ := Attentive.of_begun hbegun hawaited h.kept
      (h.behind (by rw [hstate]; rfl))
    exact hbegun.retried (fun _ _ => hmiss)
      (fun hheader _ => (hget (by rw [hheader]; rfl)).send_header hheader)
      fun hwait _ => hget (by rw [hwait]; rfl)
  wakesSet o s sh p h _ _ hawaited hretry t hp hc := by
    refine ⟨(congrArg (fun c => c.pending.filter Io.awaits) hc).trans hawaited, fun hover => ?_,
      fun _ _ => Or.inr (Or.inl (congrArg Conn.state hc))⟩
    rw [hp, (retry_store_input hretry).2] at hover
    exact (congrArg Conn.dropped hc).trans (h.kept hover)
  process o s h hreading := process_courteous hashKey o h hreading

/-- A connection that `process` has closed, or that was closed behind its last reply, has sent all
its replies, if in no call of `process` more than a line without its end was behind a complete
command, nor as much behind `quit`. -/
theorem replies_precede_close (l : Listener) (hashKey : List UInt8 → Digest)
    (events : List (ConnEvent (Nat → Oracle))) (e : Farewell)
    (hclosed : ((eventLoop l.cfg hashKey).after l events).c.farewell = some e)
    (hover : ((eventLoop l.cfg hashKey).after l events).proto.overrun = false) :
    e.sent.length = e.owed.length ∧ (e.stale = false → e.sent = e.owed) := by
  have hstart : Courteous ((eventLoop l.cfg hashKey).setup l).start := by
    rw [Protocol.setup_start]
    exact .ask rfl (fun _ => rfl) rfl
  have hdropped := ((courteous_kept l.cfg hashKey).after_all hstart events).kept hover
  obtain ⟨hlen, hexact⟩ := ((eventLoop l.cfg hashKey).inv l events).base.parted e hclosed hdropped
  exact ⟨hlen, hexact trivial⟩

/-- No system call fails. -/
def smooth : Nat → Oracle := fun _ => ⟨[], Faults.never⟩

/-- Bytes are received. -/
def receive (bytes : List UInt8) : ConnEvent (Nat → Oracle) :=
  .complete 0 bytes.length 1 (fun i => bytes.getD i 0) smooth

/-- `version` and `quit` in one receive; the reply is sent. -/
def farewells : List (ConnEvent (Nat → Oracle)) :=
  [receive (text "version\r\nquit\r\n"), .complete 0 kVersion.length 1 (fun _ => 0) smooth]

/-- How that connection is closed. -/
def parted : Farewell := ⟨kVersion, kVersion, false⟩

theorem replies_precede_close_quit :
    ((eventLoop freshLoop.cfg fun _ => Digest.replicate 0).after freshLoop farewells).c.farewell =
      some parted ∧
      parted.sent.length = parted.owed.length ∧
      (parted.stale = false → parted.sent = parted.owed) := by
  have hclosed : ((eventLoop freshLoop.cfg fun _ => Digest.replicate 0).after freshLoop
      farewells).c.farewell =
      some parted := by
    decide +kernel
  exact ⟨hclosed, replies_precede_close freshLoop _ farewells parted hclosed (by decide +kernel)⟩

theorem map_getD_range (bytes : List UInt8) :
    (List.range bytes.length).map (fun i => bytes.getD i 0) = bytes := by
  refine List.ext_getElem (by simp) fun i hi _ => ?_
  rw [List.getElem_map, List.getElem_range, List.getD_eq_getElem]

/-- A connection just accepted receives some bytes. -/
theorem receive_eq (l : Listener) (hroom : l.room ≠ 0) (hashKey : List UInt8 → Digest)
    {bytes : List UInt8} (hbytes : bytes ≠ []) (hsize : bytes.length ≤ kRecvBuf) :
    ∃ s : Loop Session, s.proto = { Session.create with input := bytes } ∧ s.c = Conn.create ∧
      (eventLoop l.cfg hashKey).after l [receive bytes] =
        (Loop.processLoop l.cfg false ((eventLoop l.cfg hashKey).commands l.cfg smooth s)
        s).retire := by
  let s : Loop Session := ⟨State.after l.cfg l.ops, BlockPool.create l.chunkBytes l.count,
    fun _ _ => 0, [], 1, l.readAhead, Conn.create, { Session.create with input := bytes }⟩
  refine ⟨s, rfl, rfl, ?_⟩
  have hstart : ((eventLoop l.cfg hashKey).setup l).start = { s with
      room := l.room - 1
      proto := Session.create
      c := { Conn.create with inflight := 1, pending := [.recv] } } := by
    rw [Protocol.setup_start]
    rcases start_cases { s with room := l.room, proto := Session.create } .recv with
      ⟨hno, -⟩ | ⟨-, hno, -⟩ | ⟨-, -, heq⟩
    · cases hno
    · exact absurd hno hroom
    · exact heq
  have hres : Io.clamp (bytes.length : Int) .recv = bytes.length :=
    min_eq_left (by exact_mod_cast hsize)
  have hpos : ¬ ((bytes.length : Int) ≤ 0) := by
    have := List.length_pos_of_ne_nil hbytes
    omega
  show Loop.complete l.cfg ((eventLoop l.cfg hashKey).setup l).start 0 bytes.length 1 _ _ = _
  rw [hstart]
  unfold Loop.complete
  dsimp only [List.getElem?_cons_zero]
  rw [hres]
  unfold Loop.dispatch Loop.onRecv
  dsimp only
  rw [if_neg hpos, Int.toNat_natCast, map_getD_range]
  rfl

/-- `version` is answered at once. -/
theorem version_turn (cfg : Config) (env : Env) (σ : State) (p : Session) {rest : List UInt8}
    (hinput : p.input = text "version" ++ crlf ++ rest) :
    turn cfg env σ .idle p =
      ⟨{ p with input := rest, overrun := p.overrun || overlong rest }, [],
      kVersion, none, .again⟩ := by
  have hsplit : splitLine p.input = some (text "version", rest) := by
    rw [hinput]
    exact split_line_append (by decide) rest
  have hparse : parseCommand (text "version") = some ⟨.version, [], 0, 0, 0, 0,
      false⟩ := by decide +kernel
  unfold turn lineTurn
  rw [if_neg nofun, hsplit]
  dsimp only
  rw [if_neg (by decide)]
  unfold classicTurn
  rw [hparse]
  rfl

/-- More than a line without its end closes the connection. -/
theorem long_turn (cfg : Config) (env : Env) (σ : State) (p : Session)
    (hline : ascii '\r' ∉ p.input) (hlong : kMaxLine < p.input.length) :
    turn cfg env σ .idle p = ⟨p, [], [], none, .tooLong⟩ := by
  unfold turn lineTurn
  rw [if_neg nofun, split_line_none hline]
  dsimp only [lineEnd]
  rw [if_pos hlong]

/-- A reply that is queued when a line is found to be too long is dropped. -/
theorem long_line_drops_reply (l : Listener) (hroom : l.room ≠ 0) (hashKey : List UInt8 → Digest)
    (rest : List UInt8) (hline : ascii '\r' ∉ rest) (hlong : kMaxLine < rest.length)
    (hsize : (text "version" ++ crlf ++ rest).length ≤ kRecvBuf) :
    ((eventLoop l.cfg hashKey).after l [receive (text "version" ++ crlf ++ rest)]).c.farewell =
      some ⟨[], kVersion, false⟩ := by
  obtain ⟨s, hproto, hc, heq⟩ := receive_eq l hroom hashKey
    (List.append_ne_nil_of_left_ne_nil (by decide) rest : text "version" ++ crlf ++ rest ≠ []) hsize
  rw [heq]
  obtain ⟨σ, iobufs, mem, others, room, readAhead, c, proto⟩ := s
  cases hproto
  cases hc
  have hlen : (eventLoop l.cfg hashKey).size
      { Session.create with input := text "version" ++ crlf ++ rest } =
      8 + rest.length + 1 := by
    show (text "version" ++ crlf ++ rest).length = _
    rw [List.length_append, show (text "version" ++ crlf).length = 9 from rfl]
    omega
  unfold Protocol.commands
  rw [hlen, Loop.process_turns]
  dsimp only [eventLoop, Conn.create]
  rw [version_turn l.cfg _ σ { Session.create with input := text "version" ++ crlf ++ rest } rfl]
  dsimp only [Loop.follow]
  rw [Loop.process_turns]
  dsimp only [Loop.turned, run_nil]
  rw [long_turn l.cfg _ σ { Session.create with input := rest, overrun := _ } hline hlong]
  rfl

/-- `version` and more than a line without its end, in one receive. -/
def hastyLine : List UInt8 := text "version" ++ crlf ++ List.replicate (kMaxLine + 1) (ascii 'x')

theorem queued_reply_is_dropped :
    ((eventLoop freshLoop.cfg fun _ => Digest.replicate 0).after freshLoop
      [receive hastyLine]).c.farewell = some ⟨[], kVersion, false⟩ := by
  unfold hastyLine
  refine long_line_drops_reply freshLoop (by decide) _ (List.replicate (kMaxLine + 1) (ascii 'x'))
    (fun hmem => ?_) ?_ ?_
  · exact absurd (List.eq_of_mem_replicate hmem) (by decide)
  · rw [List.length_replicate]
    exact Nat.lt_succ_self _
  · rw [List.length_append, List.length_replicate]
    decide

end GoblinStore.Memcache
