import GoblinStore.Http.HttpLoop

/-!
# HTTP connections

What the requests of a client do to its connection. `Turned` lists what an iteration of `process`
can do.
-/

namespace GoblinStore.Http

open GoblinStore.Lib GoblinStore.Core GoblinStore.Net

variable {cfg : Config} {site : Site} {σ : State} {p : Session} {s : Loop Session}

/-! ## What an iteration does -/

/-- What an iteration can do: the head is not complete; a request, or what should be one, is
answered with an error and ends the connection; a GET is opened; a HEAD is answered. -/
inductive Turned (site : Site) (σ : State) (p : Session) : Turn Session → Prop where
  | waits (hparse : (parseRequest site.phr p.input).isIncomplete = true) :
      Turned site σ p ⟨p, [], [], none, .waits⟩
  | bad (hparse : parseRequest site.phr p.input = .bad) :
      Turned site σ p ⟨p, [], k400, none, .quits⟩
  | refused (consumed : Nat) (req : Request)
      (hparse : parseRequest site.phr p.input = .ok consumed req)
      (reply : List UInt8) (hreply : reply = k421 ∨ reply = k405 ∨ reply = k400) :
      Turned site σ p ⟨p.take consumed req, [], reply, some req.keepAlive, .quits⟩
  | opens (consumed : Nat) (req : Request)
      (hparse : parseRequest site.phr p.input = .ok consumed req)
      (key : List UInt8) (p' : Session) (hp : p' = { (p.take consumed req).follow site with
        reqRange := req.range, getKey := key }) (faults : Faults) (hmethod : req.method = .get)
      (hkey : deriveKey req.host req.target site.keyopt = some key) :
      Turned site σ p
        ⟨p', [], [], some req.keepAlive,
        .opens (site.hashKey key) req.range (framing site faults σ p')⟩
  | heads (consumed : Nat) (req : Request)
      (hparse : parseRequest site.phr p.input = .ok consumed req)
      (key : List UInt8) (hmethod : req.method = .head)
      (hkey : deriveKey req.host req.target site.keyopt = some key) :
      Turned site σ p ⟨(p.take consumed req).follow site, [],
        headReply (p.take consumed req) key (σ.present (site.hashKey key)),
        some req.keepAlive, .again⟩

theorem turn_turned (site : Site) (faults : Faults) (σ : State) (p : Session) :
    Turned site σ p (turn site faults σ p) := by
  unfold turn
  split
  · rename_i hparse
    exact .waits (by rw [hparse]; rfl)
  · rename_i hparse
    exact .bad hparse
  · rename_i consumed req hparse
    unfold answer
    split_ifs
    · exact .refused consumed req hparse _ (Or.inl rfl)
    · split
      · exact .refused consumed req hparse _ (Or.inr (Or.inl rfl))
      · exact .refused consumed req hparse _ (Or.inr (Or.inr rfl))
      · rename_i key hmethod hkey
        exact .opens consumed req hparse key _ rfl faults hmethod hkey
      · rename_i key hmethod hkey
        exact .heads consumed req hparse key hmethod hkey

/-- A request takes something off the input. -/
theorem take_input {consumed : Nat} {req : Request}
    (h : parseRequest site.phr p.input = .ok consumed req) :
    (p.take consumed req).input <:+ p.input ∧
      (p.take consumed req).input.length < p.input.length := by
  refine ⟨List.drop_suffix _ _, ?_⟩
  unfold parseRequest at h
  split at h
  · cases h
  · cases h
  · rename_i head hphr
    cases h
    obtain ⟨hpos, hle⟩ := site.phr_consumed _ _ hphr
    show (p.input.drop head.consumed).length < _
    rw [List.length_drop]
    omega

/-- An iteration that ends the connection has queued a reply. -/
theorem quit_reply_ne {reply : List UInt8} (h : reply = k421 ∨ reply = k405 ∨ reply = k400) :
    reply ≠ [] := by
  rcases h with rfl | rfl | rfl <;> decide

/-! ## Input -/

/-- No unfinished head at the end of this input is longer than `M`. -/
def Terse (site : Site) (M : Nat) (input : List UInt8) : Prop :=
  ∀ w, w <:+ input → M < w.length → (parseRequest site.phr w).isIncomplete = false

theorem Terse.suffix {M : Nat} {input rest : List UInt8} (h : Terse site M input)
    (hrest : rest <:+ input) :
    Terse site M rest := fun w hw => h w (hw.trans hrest)

/-- `process` is entered with at most an unfinished head and a receive buffer. -/
def Fed (site : Site) (M : Nat) (s : Loop Session) : Prop :=
  s.proto.input.length ≤ M + kRecvBuf ∧ Terse site M s.proto.input ∧ s.view.awaited = []

/-- Between two events, at most an unfinished head is left where more input can come. -/
def InputBounded (site : Site) (M : Nat) (s : Loop Session) : Prop :=
  s.proto.input.length ≤ M + kRecvBuf ∧ Terse site M s.proto.input ∧
    (s.view.awaited ≠ [] → s.proto.input.length ≤ M) ∧
    (s.c.state.reading = true → s.c.closing = false → s.c.quitAfter = false →
    s.proto.input.length ≤ M)

section Input

variable {M : Nat}

theorem InputBounded.of_head (h : s.proto.input.length ≤ M) (hterse : Terse site M s.proto.input) :
    InputBounded site M s :=
  ⟨Nat.le_add_right_of_le h, hterse, fun _ => h, fun _ _ _ => h⟩

theorem Fed.bounded (h : Fed site M s)
    (hstate : s.c.state.reading = true → s.c.closing = false → s.c.quitAfter = false → False) :
    InputBounded site M s :=
  ⟨h.1, h.2.1, fun hne => absurd h.2.2 hne,
    fun hreading hopen hstay => (hstate hreading hopen hstay).elim⟩

theorem fed_of_view {t : Loop Session} (hview : t.view = s.view) (h : Fed site M s) :
    Fed site M t := by
  have hproto : t.proto = s.proto := congrArg View.proto hview
  unfold Fed
  rw [hproto, hview]
  exact h

/-- A GET that is tried takes no input. -/
theorem fed_begins : Begins (Fed site M) (InputBounded site M) where
  congr s t hproto hawaited _ h := ⟨hproto ▸ h.1, hproto ▸ h.2.1, hawaited.trans h.2.2⟩
  busy s h hstate := h.bounded fun hreading => by cases hstate.symm.trans hreading

/-- A reply is sent, and the connection closed behind it. -/
theorem Fed.quit (h : Fed site M s) (hout : s.c.out ≠ []) :
    InputBounded site M (Loop.flush false { s with c := { s.c with quitAfter := true } }) := by
  obtain ⟨hview, -, -⟩ :=
    flush_keeps (s := { s with c := { s.c with quitAfter := true } }) false hout
  refine (fed_of_view hview h).bounded fun _ _ hstay => ?_
  cases (congrArg View.quitAfter hview).symm.trans hstay

theorem Fed.suffix (h : Fed site M s) {t : Turn Session}
    (hinput : t.proto.input <:+ s.proto.input) :
    Fed site M (s.turned cfg t) :=
  ⟨hinput.length_le.trans h.1, h.2.1.suffix hinput, h.2.2⟩

theorem process_bounded (o : Nat → Faults) (h : Fed site M s)
    (hreading : s.c.state.reading = true) :
    InputBounded site M (Loop.processLoop cfg false ((httpLoop site).commands cfg o s) s) := by
  refine turns_rule (Φ := fun s => Fed site M s ∧ s.c.state.reading = true)
    (fun s => s.proto.input.length) ?_
    ⟨h, hreading⟩ (Nat.lt_succ_self _)
  intro fuel s hs
  obtain ⟨hfed, hreading⟩ := hs
  have hturned := turn_turned site (o fuel) s.σ s.proto
  show (turn site (o fuel) s.σ s.proto).ending.Leads cfg false _ _ _ s.proto.input.length
    (s.turned cfg (turn site (o fuel) s.σ s.proto))
  generalize turn site (o fuel) s.σ s.proto = t at hturned ⊢
  cases hturned with
  | waits hparse =>
      have hlen : s.proto.input.length ≤ M := Nat.le_of_not_lt fun hlong =>
        absurd ((hfed.2.1 _ (List.suffix_refl _) hlong).symm.trans hparse) Bool.false_ne_true
      show InputBounded site M (Loop.flush false _)
      refine InputBounded.of_head ?_ ?_
      · rw [(flush_proto false _).1]
        exact hlen
      · rw [(flush_proto false _).1]
        exact hfed.2.1
  | bad hparse =>
      exact (hfed.suffix (List.suffix_refl _)).quit
        (List.append_ne_nil_of_right_ne_nil _ (show k400 ≠ [] by decide))
  | refused consumed req hparse reply hreply =>
      exact (hfed.suffix (take_input hparse).1).quit
        (List.append_ne_nil_of_right_ne_nil _ (quit_reply_ne hreply))
  | opens consumed req hparse key p' hp faults hmethod hkey =>
      obtain ⟨hsuffix, hlt⟩ := take_input hparse
      subst hp
      exact fed_begins.opened (fun p => p.input.length) (hfed.suffix hsuffix) hlt
  | heads consumed req hparse key hmethod hkey =>
      obtain ⟨hsuffix, hlt⟩ := take_input hparse
      exact ⟨⟨hfed.suffix hsuffix, hreading⟩, hlt⟩

theorem input_kept (cfg : Config) (site : Site) (M : Nat) :
    (httpLoop site).Keeps cfg (fun s bytes => Terse site M (s.proto.input ++ bytes)) (Fed site M)
      (InputBounded site M) where
  congr s t hsame h := by
    obtain ⟨hview, hstate, hclosing, -, -⟩ := hsame
    have hproto : t.proto = s.proto := congrArg View.proto hview
    have hquit : t.c.quitAfter = s.c.quitAfter := congrArg View.quitAfter hview
    unfold InputBounded
    rw [hproto, hview, hstate, hclosing, hquit]
    exact h
  disk s op h := h
  taken s k room h :=
    ⟨h.1, h.2.1, fun hne => h.2.2.1 fun hnil => hne (taken_awaited_nil hnil k room), h.2.2.2⟩
  closes s t hview hstate _ hclosing h := by
    have hproto : t.proto = s.proto := congrArg View.proto hview
    unfold InputBounded
    rw [hproto, hview, hclosing]
    exact ⟨h.1, h.2.1, h.2.2.1, nofun⟩
  goes s t h _ hview hstate _ := by
    have hproto : t.proto = s.proto := congrArg View.proto hview
    have hreading : t.c.state.reading ≠ true := fun hyes =>
      absurd (hstate.symm.trans (St.resting_of_reading hyes)) Bool.false_ne_true
    unfold InputBounded
    rw [hproto, hview]
    exact ⟨h.1, h.2.1, h.2.2.1, fun hyes => absurd hyes hreading⟩
  asks s t h hreading hstay hawaited hview hstate _ hclosing _ := by
    have hproto : t.proto = s.proto := congrArg View.proto hview
    rcases start_cases t .recv with ⟨hclosed, heq⟩ | ⟨-, -, heq⟩ | ⟨hopen, -, heq⟩ <;> rw [heq]
    · unfold InputBounded
      rw [hproto, hview, hclosed]
      exact ⟨h.1, h.2.1, h.2.2.1, nofun⟩
    · refine Fed.bounded ⟨?_, ?_, ?_⟩ nofun
      · exact (congrArg (fun p => p.input.length) hproto).trans_le h.1
      · rw [show t.closeConn.proto = s.proto from hproto]
        exact h.2.1
      · exact (congrArg View.awaited hview).trans hawaited
    · refine .of_head ?_ ?_
      · exact (congrArg (fun p => p.input.length) hproto).trans_le
          (h.2.2.2 hreading (hclosing.symm.trans hopen) hstay)
      · show Terse site M t.proto.input
        rw [hproto]
        exact h.2.1
  enters s t bytes h hok hrecv _ hsize hentered _ _ := by
    obtain ⟨hview, -, -⟩ := hentered
    have hinput : t.proto.input = s.proto.input ++ bytes := congrArg (fun w => w.proto.input) hview
    have hhead := h.2.2.1 (List.ne_nil_of_mem (List.mem_filter.2 ⟨hrecv, rfl⟩))
    unfold Fed
    rw [hinput, List.length_append]
    exact ⟨by omega, hok, congrArg View.awaited hview⟩
  resumes s t h _ hentered _ := by
    have hproto : t.proto = s.proto := congrArg View.proto hentered.1
    unfold Fed
    rw [hproto]
    exact ⟨h.1, h.2.1, congrArg View.awaited hentered.1⟩
  wakesGet _ s h _ _ hawaited := fed_begins.retried (s := s) ⟨h.1, h.2.1, hawaited⟩
  wakesSet o s sh p _ _ _ _ hretry := by cases hretry
  process o s h hreading := process_bounded o h hreading

/-- The input of a connection whose unfinished heads are short never exceeds such a head and one
receive buffer. -/
theorem input_bounded (l : Listener) (site : Site) (M : Nat)
    {events : List (ConnEvent (Nat → Faults))}
    (hterse : Allowed ((httpLoop site).step l.cfg)
      (Brings fun s bytes => Terse site M (s.proto.input ++ bytes))
      ((httpLoop site).setup l).start events) :
    ((httpLoop site).after l events).proto.input.length ≤ M + kRecvBuf := by
  refine ((input_kept l.cfg site M).after ?_ hterse).1
  rw [Protocol.setup_start]
  unfold Loop.startRecv
  refine .of_head ?_ ?_
  · rw [(start_proto _ _).1]
    exact Nat.zero_le _
  · rw [(start_proto _ _).1]
    intro w hw hlong
    rw [List.suffix_nil.1 hw] at hlong
    exact absurd hlong (Nat.not_lt_zero _)

end Input

end GoblinStore.Http
