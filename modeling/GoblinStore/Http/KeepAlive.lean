import GoblinStore.Http.Connections
import GoblinStore.Http.Heads

/-!
# The last request of a connection

A request that does not keep its connection open is to be the last one that is answered. `process`
sets `quit_after` from every request anew and goes on with the input behind a HEAD, a miss or a
finished GET, so that this holds as long as no further request is in the input by then
(`Session.crowded`).
-/

namespace GoblinStore.Http

open GoblinStore.Lib GoblinStore.Core GoblinStore.Net

variable {cfg : Config} {site : Site} {p : Session} {s t : Loop Session}

/-- The last request does not keep the connection open. -/
def Session.Leaving (p : Session) : Prop := ∃ req ∈ p.asked.getLast?, req.keepAlive = false

/-- The requests before the last keep the connection open. -/
def Session.Staying (p : Session) : Prop := ∀ req ∈ p.asked.dropLast, req.keepAlive = true

/-- The input does not go on with a request. -/
def Session.Quiet (site : Site) (p : Session) : Prop :=
  (parseRequest site.phr p.input).isIncomplete = true

/-- When all requests keep the connection open, those before the next one do. -/
theorem Session.Staying.take (h : p.Staying) (hstay : ¬ p.Leaving) (consumed : Nat)
    (req : Request) :
    (p.take consumed req).Staying := by
  intro r hr
  rw [show (p.take consumed req).asked = p.asked ++ [req] from rfl, List.dropLast_concat] at hr
  rcases List.eq_nil_or_concat p.asked with hnil | ⟨init, last, heq⟩
  · rw [hnil] at hr
    cases hr
  · rw [heq, List.concat_eq_append] at hr
    rcases List.mem_append.1 hr with hinit | hlast
    · refine h r ?_
      rw [heq, List.concat_eq_append, List.dropLast_concat]
      exact hinit
    · rw [List.mem_singleton.1 hlast]
      cases hkeep : last.keepAlive with
      | true => rfl
      | false =>
          exact absurd ⟨last, by rw [heq, List.concat_eq_append, List.getLast?_concat]; rfl, hkeep⟩
            hstay

variable {consumed : Nat} {req : Request}

theorem leaving_take (h : (p.take consumed req).Leaving) : req.keepAlive = false := by
  obtain ⟨r, hr, hkeep⟩ := h
  rw [show (p.take consumed req).asked = p.asked ++ [req] from rfl, List.getLast?_concat,
    Option.mem_some_iff] at hr
  exact hr ▸ hkeep

/-- What follows was seen not to be a request, if the request is the last. -/
theorem quiet_of_follow (hcrowd : (p.follow site).crowded = false) (hkeep : p.keepAlive = false) :
    p.crowded = false ∧ p.Quiet site := by
  have hcrowd : (p.crowded || !p.keepAlive && !(parseRequest site.phr p.input).isIncomplete) =
      false := hcrowd
  rw [hkeep] at hcrowd
  unfold Session.Quiet
  cases hc : p.crowded with
  | true =>
      rw [hc] at hcrowd
      cases hcrowd
  | false =>
      refine ⟨rfl, ?_⟩
      rw [hc] at hcrowd
      cases hparse : (parseRequest site.phr p.input).isIncomplete with
      | true => rfl
      | false =>
          rw [hparse] at hcrowd
          cases hcrowd

/-- Where `process` is entered, a connection that is to be closed has no further request. -/
def Due (site : Site) (s : Loop Session) : Prop :=
  s.view.awaited = [] ∧ (s.proto.crowded = false →
    s.proto.Staying ∧ (s.proto.Leaving → s.c.quitAfter = true ∧ s.proto.Quiet site))

/-- Between two events, a connection that is to be closed expects no input and has a reply to send,
or a value. -/
def Parting (site : Site) (s : Loop Session) : Prop :=
  s.proto.crowded = false → s.proto.Staying ∧
    (s.proto.Leaving → s.c.quitAfter = true ∧ s.view.awaited = [] ∧
      (s.c.state.reading = false → s.proto.Quiet site) ∧
      (s.c.state.reading = true → s.c.closing = false → s.c.out ≠ []))

/-- A connection in the middle of a GET. -/
theorem Due.parting (h : Due site s) (hstate : s.c.state.reading = false) : Parting site s := by
  intro hcrowd
  obtain ⟨hstaying, hleaving⟩ := h.2 hcrowd
  refine ⟨hstaying, fun hleave => ?_⟩
  obtain ⟨hquit, hquiet⟩ := hleaving hleave
  refine ⟨hquit, h.1, fun _ => hquiet, fun hreading => ?_⟩
  rw [hstate] at hreading
  cases hreading

/-- The end of `process` with replies to send, or a connection to close. -/
theorem parting_flush (hawaited : s.view.awaited = []) (hstate : s.c.state.reading = true)
    (h : s.proto.crowded = false → s.proto.Staying ∧ (s.proto.Leaving → s.c.quitAfter = true)) :
    Parting site (s.flush false) := by
  intro hcrowd
  rw [(flush_proto false s).1] at hcrowd ⊢
  obtain ⟨hstaying, hleaving⟩ := h hcrowd
  refine ⟨hstaying, fun hleave => ?_⟩
  have hquit := hleaving hleave
  by_cases hout : s.c.out = []
  · -- nothing to send: the connection is closed
    have hflush : s.flush false = s.closeOrderly := by
      unfold Loop.flush
      rw [if_neg (not_not.2 hout), if_pos hquit]
    rw [hflush]
    refine ⟨hquit, hawaited, fun hno => ?_, nofun⟩
    cases hno.symm.trans hstate
  · obtain ⟨hview, hkeep, -⟩ := flush_keeps (s := s) false hout
    refine ⟨(congrArg View.quitAfter hview).trans hquit,
      (congrArg View.awaited hview).trans hawaited, fun hno => ?_, fun _ _ => ?_⟩
    · rw [hkeep, hstate] at hno
      cases hno
    · have hsend : s.flush false = s.startSend := by
        unfold Loop.flush
        rw [if_pos hout]
      rw [hsend, show s.startSend.c.out = s.c.out from start_out s _]
      exact hout

/-- A GET that is tried takes no input. -/
theorem due_begins : Begins (Due site) (Parting site) where
  congr s t hproto hawaited hquit h := by
    unfold Due
    rw [hproto, hawaited, hquit]
    exact h
  busy s h hstate := h.parting hstate

/-- A request that is taken off the input is the first that may close the connection. -/
theorem Due.take (h : Due site s)
    (hparse : parseRequest site.phr s.proto.input = .ok consumed req)
    (hcrowd : s.proto.crowded = false) :
    (s.proto.take consumed req).Staying := by
  obtain ⟨hstaying, hleaving⟩ := h.2 hcrowd
  refine hstaying.take (fun hleave => ?_) consumed req
  have hquiet := (hleaving hleave).2
  unfold Session.Quiet at hquiet
  rw [hparse] at hquiet
  cases hquiet

/-- The loop goes on behind a request. -/
theorem Due.follow (h : Due site s)
    (hparse : parseRequest site.phr s.proto.input = .ok consumed req) {u : Turn Session}
    {range : Option ByteRange} {key : List UInt8}
    (hproto : u.proto = { (s.proto.take consumed req).follow site with
      reqRange := range, getKey := key })
    (hkeep : u.keepAlive = some req.keepAlive) : Due site (s.turned cfg u) := by
  refine ⟨h.1, fun hcrowd => ?_⟩
  rw [show (s.turned cfg u).proto = u.proto from rfl, hproto] at hcrowd ⊢
  have hfirst : s.proto.crowded = false := by
    have hor : ((s.proto.take consumed req).crowded ||
        !(s.proto.take consumed req).keepAlive &&
        !(parseRequest site.phr (s.proto.take consumed req).input).isIncomplete) =
        false := hcrowd
    exact (Bool.or_eq_false_iff.1 hor).1
  refine ⟨h.take hparse hfirst, fun hleave => ?_⟩
  have hclose : req.keepAlive = false := @leaving_take s.proto consumed req hleave
  refine ⟨?_, (quiet_of_follow (p := s.proto.take consumed req) hcrowd hclose).2⟩
  show (u.keepAlive.map (!·)).getD s.c.quitAfter = true
  rw [hkeep, hclose]
  rfl

theorem process_parting (o : Nat → Faults) (h : Due site s) (hreading : s.c.state.reading = true) :
    Parting site (Loop.processLoop cfg false ((httpLoop site).commands cfg o s) s) := by
  refine turns_rule (Φ := fun s => Due site s ∧ s.c.state.reading = true)
    (fun s => s.proto.input.length) ?_
    ⟨h, hreading⟩ (Nat.lt_succ_self _)
  intro fuel s hs
  obtain ⟨hdue, hreading⟩ := hs
  have hturned := turn_turned site (o fuel) s.σ s.proto
  show (turn site (o fuel) s.σ s.proto).ending.Leads cfg false _ _ _ s.proto.input.length
    (s.turned cfg (turn site (o fuel) s.σ s.proto))
  generalize turn site (o fuel) s.σ s.proto = t at hturned ⊢
  cases hturned with
  | waits hparse =>
      exact parting_flush (s := s.turned cfg ⟨s.proto, [], [], none, .waits⟩)
        hdue.1 hreading fun hcrowd =>
        ⟨(hdue.2 hcrowd).1, fun hleave => ((hdue.2 hcrowd).2 hleave).1⟩
  | bad hparse =>
      refine parting_flush hdue.1 hreading fun hcrowd => ?_
      exact ⟨(hdue.2 hcrowd).1, fun _ => rfl⟩
  | refused consumed req hparse reply hreply =>
      refine parting_flush hdue.1 hreading fun hcrowd => ?_
      exact ⟨hdue.take hparse hcrowd, fun _ => rfl⟩
  | opens consumed req hparse key p' hp faults hmethod hkey =>
      obtain ⟨-, hlt⟩ := take_input hparse
      subst hp
      exact due_begins.opened (fun p => p.input.length) (hdue.follow hparse rfl rfl) hlt
  | heads consumed req hparse key hmethod hkey =>
      obtain ⟨-, hlt⟩ := take_input hparse
      exact ⟨⟨hdue.follow hparse rfl rfl, hreading⟩, hlt⟩

/-- What follows from the state of a connection that is to be closed. -/
theorem Parting.imp {Q : Prop} (h : Parting site s)
    (hQ : s.c.quitAfter = true → s.view.awaited = [] →
      (s.c.state.reading = false → s.proto.Quiet site) →
    (s.c.state.reading = true → s.c.closing = false → s.c.out ≠ []) → Q) :
    s.proto.crowded = false → s.proto.Staying ∧ (s.proto.Leaving → Q) := by
  intro hcrowd
  obtain ⟨hstaying, hleaving⟩ := h hcrowd
  refine ⟨hstaying, fun hleave => ?_⟩
  obtain ⟨hquit, hawaited, hquiet, hsends⟩ := hleaving hleave
  exact hQ hquit hawaited hquiet hsends

/-- Nothing the protocol looks at has changed. -/
theorem Parting.of_view (h : Parting site s) (hview : t.view = s.view)
    (hquiet : t.c.state.reading = false → s.c.state.reading = false)
    (hsends : (s.c.state.reading = true → s.c.closing = false → s.c.out ≠ []) →
      t.c.state.reading = true → t.c.closing = false → t.c.out ≠ []) : Parting site t := by
  have hproto : t.proto = s.proto := congrArg View.proto hview
  have hquit : t.c.quitAfter = s.c.quitAfter := congrArg View.quitAfter hview
  unfold Parting
  rw [hproto, hquit, hview]
  exact h.imp fun hquits hawaited hrests hsent =>
    ⟨hquits, hawaited, fun hno => hrests (hquiet hno), hsends hsent⟩

theorem parting_kept (cfg : Config) (site : Site) :
    (httpLoop site).Keeps cfg (fun _ _ => True) (Due site) (Parting site) where
  congr s t hsame h := by
    obtain ⟨hview, hstate, hclosing, -, hout⟩ := hsame
    refine h.of_view hview (by rw [hstate]; exact id) fun hsends => ?_
    rw [hstate, hclosing]
    exact fun hreading hopen => hout hreading ▸ hsends hreading hopen
  disk s op h := h
  taken s k room h := h.imp fun hquits hawaited hquiet hsends =>
    ⟨hquits, taken_awaited_nil hawaited k room, hquiet, hsends⟩
  closes s t hview hstate _ hclosing h :=
    h.of_view hview (by rw [hstate]; exact id) fun _ _ hopen => by cases hclosing.symm.trans hopen
  goes s t h hresting hview hstate _ :=
    h.of_view hview (fun _ => St.reading_of_not_resting hresting) fun _ hreading => by
      cases (St.reading_of_not_resting hstate).symm.trans hreading
  asks s t h _ hstay _ hview _ _ _ _ := by
    have hproto : (t.start .recv).proto = s.proto :=
      (start_proto t .recv).1.trans (congrArg View.proto hview)
    unfold Parting
    rw [hproto]
    exact h.imp fun hquits => by cases hquits.symm.trans hstay
  enters s t bytes h _ hrecv _ _ hentered _ _ := by
    obtain ⟨hview, -, -⟩ := hentered
    have hproto : t.proto = { s.proto with input := s.proto.input ++ bytes } :=
      congrArg View.proto hview
    refine ⟨congrArg View.awaited hview, ?_⟩
    rw [hproto]
    exact h.imp fun _ hnil => absurd hnil (List.ne_nil_of_mem (List.mem_filter.2 ⟨hrecv, rfl⟩))
  resumes s t h hresting hentered _ := by
    obtain ⟨hview, -, -⟩ := hentered
    have hproto : t.proto = s.proto := congrArg View.proto hview
    have hquit : t.c.quitAfter = s.c.quitAfter := congrArg View.quitAfter hview
    refine ⟨congrArg View.awaited hview, ?_⟩
    rw [hproto, hquit]
    exact h.imp fun hquits _ hquiet _ => ⟨hquits, hquiet (St.reading_of_not_resting hresting)⟩
  wakesGet o s h hstate _ hawaited := due_begins.retried (s := s) ⟨hawaited,
    h.imp fun hquits _ hquiet _ => ⟨hquits, hquiet (by rw [hstate]; rfl)⟩⟩
  wakesSet o s sh p _ _ _ _ hretry := by cases hretry
  process o s h hreading := process_parting o h hreading

/-- A request that does not keep its connection open is the last one that is answered, if no further
request was in the input when it was answered; then no more input is asked for, and the connection
is closed when the answer has been sent. -/
theorem close_is_final (l : Listener) (site : Site) (events : List (ConnEvent (Nat → Faults)))
    (hcrowd : ((httpLoop site).after l events).proto.crowded = false) :
    (∀ req ∈ ((httpLoop site).after l events).proto.asked.dropLast, req.keepAlive = true) ∧
    ∀ req ∈ ((httpLoop site).after l events).proto.asked.getLast?, req.keepAlive = false →
      ((httpLoop site).after l events).c.pending.filter Io.awaits = [] ∧
      (((httpLoop site).after l events).c.state = .idle →
        ((httpLoop site).after l events).c.out = [] →
        ((httpLoop site).after l events).c.closing = true) := by
  have hstart : Parting site ((httpLoop site).setup l).start := by
    intro _
    rw [Protocol.setup_start]
    unfold Loop.startRecv
    rw [(start_proto _ _).1]
    refine ⟨nofun, ?_⟩
    rintro ⟨req, hreq, -⟩
    cases hreq
  obtain ⟨hstaying, hleaving⟩ := (parting_kept l.cfg site).after_all hstart events hcrowd
  refine ⟨hstaying, fun req hreq hkeep => ?_⟩
  obtain ⟨-, hawaited, -, hsends⟩ := hleaving ⟨req, hreq, hkeep⟩
  refine ⟨hawaited, fun hidle hout => ?_⟩
  cases hclosing : ((httpLoop site).after l events).c.closing with
  | true => rfl
  | false => exact absurd hout (hsends (by rw [hidle]; rfl) hclosing)

/-- A HEAD without keep-alive; the answer is sent. -/
def lastHead : List (ConnEvent (Nat → Faults)) :=
  [arrives (text "HEAD /a HTTP/1.0\r\n\r\n"),
    .complete 0 (notFound false).length 1 (fun _ => 0) fun _ => Faults.never]

theorem close_is_final_head :
    ((httpLoop plainSite).after freshLoop lastHead).proto.crowded = false ∧
      ((httpLoop plainSite).after freshLoop lastHead).c.closing = true := by
  have hcrowd : ((httpLoop plainSite).after freshLoop lastHead).proto.crowded =
      false := by decide +kernel
  have hlast : ⟨.head, text "/a", [], none, [], false⟩ ∈
      ((httpLoop plainSite).after freshLoop lastHead).proto.asked.getLast? := by decide +kernel
  obtain ⟨-, hclosed⟩ := close_is_final freshLoop plainSite lastHead hcrowd
  exact ⟨hcrowd, (hclosed _ hlast rfl).2 (by decide +kernel) (by decide +kernel)⟩

/-- A HEAD without keep-alive and one with it, in one receive. -/
def crowdedHeads : List (ConnEvent (Nat → Faults)) :=
  [arrives (text "HEAD /a HTTP/1.0\r\n\r\nHEAD /b HTTP/1.1\r\n\r\n")]

/-- Both are answered, and the connection is not going to be closed. -/
theorem request_after_close_is_answered :
    ((httpLoop plainSite).after freshLoop crowdedHeads).proto.asked.map Request.keepAlive =
        [false, true] ∧
      ((httpLoop plainSite).after freshLoop crowdedHeads).c.out = notFound false ++ notFound true ∧
      ((httpLoop plainSite).after freshLoop crowdedHeads).c.quitAfter = false := by
  decide +kernel

end GoblinStore.Http
