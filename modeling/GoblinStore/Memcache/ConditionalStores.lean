import Mathlib.Logic.Function.Basic
import GoblinStore.Memcache.EventLoop
import GoblinStore.Storage.Cas
import GoblinStore.Storage.HeadCache
import GoblinStore.Storage.LiveFiles

/-!
# Conditional stores between the steps of other connections

`add` and `replace`, and `ms` in the modes E and R, look their key up when the command line is read.
The value is published by the commit at the end of the upload, which does not look again. `Writers`
is any number of connections on any number of loops in the middle of such commands: the lookup,
`begin_store` and its retries, the receives, the writes and the commit are steps of their own, and
any operation of the tier manager comes between. The condition of a command still holds when its
value is published, `conditional_store_at_publish`, as long as no step of another party changes in
between whether the key is present.
-/

namespace GoblinStore.Memcache

open GoblinStore.Lib GoblinStore.Core GoblinStore.Net

/-! ## The steps of a storage command -/

/-- What a storage command asks of its key. -/
inductive Guard where
  | any
  | absent
  | present
  deriving DecidableEq, Repr

def Guard.Holds (found : Option ObjectMeta) : Guard → Prop
  | .any => True
  | .absent => found = none
  | .present => found ≠ none

/-- A storage command line, classic or `ms`. -/
inductive StorageLine where
  | classic (cmd : Command)
  | metaSet (mc : MetaCommand)

def StorageLine.guard : StorageLine → Guard
  | .classic cmd => match cmd.verb with
      | .add => .absent
      | .replace => .present
      | _ => .any
  | .metaSet mc =>
      if mc.mode = ascii 'E' then .absent else if mc.mode = ascii 'R' then .present else .any

/-- The connection after the lookup of the command. -/
def StorageLine.admitted (hashKey : List UInt8 → Digest) (σ : State) (p : Session) :
    StorageLine → Session
  | .classic cmd =>
      let admission := admitStore cmd.verb cmd.cas (σ.present (hashKey cmd.key))
      { p with
        isMeta := false
        setDigest := hashKey cmd.key
        setRemaining := cmd.bytes
        setFlags := cmd.flags
        setExptime := cmd.exptime
        setCas := admission.cas
        setReply := admission.reply
        setNoreply := cmd.noreply
        setReject := admission.reject
        setFailed := false }
  | .metaSet mc =>
      let admission := admitMeta mc.mode mc.cas (σ.present (hashKey mc.key))
      { p with
        isMeta := true
        metaRflags := ⟨false, false, false, mc.rfCas, mc.rfKey⟩
        metaQuiet := mc.quiet
        metaOpaqueToken := mc.opaqueToken
        metaKey := mc.key
        metaExpiry := (mc.ttl.map fun ttl => ttlToExpiry ttl σ.now).getD 0
        setDigest := hashKey mc.key
        setRemaining := mc.datalen
        setFlags := mc.setFlags
        setCas := admission.cas
        setReply := admission.reply
        setNoreply := false
        setReject := admission.reject
        setFailed := false }

/-- The iteration of `process` is the lookup and `begin_store` in a row. -/
theorem storage_turn_steps (cfg : Config) (env : Env) (σ : State) (p : Session) (cmd : Command) :
    storageTurn cfg env σ p cmd = beginTurn cfg env σ
      ((StorageLine.classic cmd).admitted env.hashKey σ p) := rfl

theorem meta_set_turn_steps (cfg : Config) (env : Env) (σ : State) (p : Session)
    (mc : MetaCommand) :
    metaSetTurn cfg env σ p mc = beginTurn cfg env σ
      ((StorageLine.metaSet mc).admitted env.hashKey σ p) := rfl

/-- The iteration at the end of a data block is its write and `finishStore` in a row. -/
theorem body_turn_steps (cfg : Config) (env : Env) (σ : State) (p : Session)
    (hend : (p.taken (ingest cfg env σ p).2).setRemaining = 0 ∧
      2 ≤ (p.taken (ingest cfg env σ p).2).input.length) :
    (bodyTurn cfg env σ p).ops = (ingest cfg env σ p).1 ++
        (finishStore cfg env (run (State.apply cfg) σ (ingest cfg env σ p).1)
        (p.taken (ingest cfg env σ p).2)).1 ∧
      (bodyTurn cfg env σ p).reply =
        (finishStore cfg env (run (State.apply cfg) σ (ingest cfg env σ p).1)
        (p.taken (ingest cfg env σ p).2)).2 := by
  unfold bodyTurn
  dsimp only
  rw [if_neg (by omega)]
  exact ⟨rfl, rfl⟩

/-- Where a connection is in a storage command: between commands, after the lookup, parked, or in
its body. -/
inductive StoreStage where
  | idle
  | admitted
  | parked
  | body
  deriving DecidableEq, Repr

/-- A connection; what its command asks is a ghost. -/
structure StoreConn where
  session : Session
  stage : StoreStage
  guard : Guard

/-- The data block and its end have arrived and the block is written. -/
def StoreConn.Complete (c : StoreConn) : Prop :=
  c.stage = .body ∧ c.session.setRemaining = 0 ∧ 2 ≤ c.session.input.length

instance (c : StoreConn) : Decidable c.Complete := inferInstanceAs (Decidable (_ ∧ _))

/-- The store and the connections of all loops. -/
structure Writers where
  store : State
  conns : Nat → StoreConn

/-- A step of connection `i`, or any operation of the tier manager by anybody else. -/
inductive StoreEvent where
  | lookup (i : Nat) (line : StorageLine)
  | beginStore (i : Nat) (faults : Faults)
  | retry (i : Nat) (faults : Faults)
  | receive (i : Nat) (bytes : List UInt8)
  | ingest (i : Nat) (faults : Faults)
  | finish (i : Nat) (faults : Faults)
  | other (op : Op)

/-- The stage after `begin_store`. -/
def stageAfter : Ending → StoreStage
  | .parks => .parked
  | _ => .body

namespace Writers

/-- Connections that read no command yet. -/
def start (σ : State) : Writers := ⟨σ, fun _ => ⟨Session.create, .idle, .any⟩⟩

/-- Connection `i` has run these operations. -/
def put (cfg : Config) (s : Writers) (i : Nat) (ops : List Op) (c : StoreConn) : Writers :=
  ⟨run (State.apply cfg) s.store ops, Function.update s.conns i c⟩

/-- One step; a step that does not fit the stage of its connection does nothing. -/
def step (cfg : Config) (hashKey : List UInt8 → Digest) (s : Writers) : StoreEvent → Writers
  | .lookup i line =>
      if (s.conns i).stage = .idle then
        s.put cfg i [] ⟨line.admitted hashKey s.store (s.conns i).session, .admitted, line.guard⟩
      else s
  | .beginStore i faults =>
      if (s.conns i).stage = .admitted then
        let turn := beginTurn cfg ⟨⟨[], faults⟩, hashKey⟩ s.store (s.conns i).session
        s.put cfg i turn.ops { s.conns i with
          session := turn.proto, stage := stageAfter turn.ending }
      else s
  | .retry i faults =>
      if (s.conns i).stage = .parked then
        let retried := retryStore cfg ⟨⟨[], faults⟩, hashKey⟩ s.store (s.conns i).session
        s.put cfg i retried.1 (match retried.2 with
          | none => s.conns i
          | some (_, p) => { s.conns i with session := p, stage := .body })
      else s
  | .receive i bytes =>
      s.put cfg i [] { s.conns i with
        session := { (s.conns i).session with input := (s.conns i).session.input ++ bytes } }
  | .ingest i faults =>
      if (s.conns i).stage = .body then
        let written := ingest cfg ⟨⟨[], faults⟩, hashKey⟩ s.store (s.conns i).session
        s.put cfg i written.1 { s.conns i with session := (s.conns i).session.taken written.2 }
      else s
  | .finish i faults =>
      if (s.conns i).Complete then
        s.put cfg i (finishStore cfg ⟨⟨[], faults⟩, hashKey⟩ s.store (s.conns i).session).1
          { s.conns i with
          session := { (s.conns i).session with
            input := (s.conns i).session.input.drop 2, handle := none }
          stage := .idle }
      else s
  | .other op => { s with store := s.store.apply cfg op }

/-- The writers after a run. -/
def after (cfg : Config) (hashKey : List UInt8 → Digest) (before : List Op)
    (events : List StoreEvent) : Writers :=
  run (step cfg hashKey) (start (State.after cfg before)) events

/-- What connection `i` is told at the end of its data block. -/
def reply (cfg : Config) (hashKey : List UInt8 → Digest) (s : Writers) (i : Nat)
    (faults : Faults) : List UInt8 :=
  (finishStore cfg ⟨⟨[], faults⟩, hashKey⟩ s.store (s.conns i).session).2

/-- Connection `i` is in a command that was admitted under a condition. -/
def Pending (s : Writers) (i : Nat) : Prop :=
  (s.conns i).stage ≠ .idle ∧ (s.conns i).session.setReject = false ∧ (s.conns i).guard ≠ .any

end Writers

/-- The event is the end of the data block of connection `i`. -/
def StoreEvent.Ends (i : Nat) : StoreEvent → Prop
  | .finish j _ => j = i
  | _ => False

/-- The step does not change whether a key is present whose conditional store it does not end. -/
def Unraced (cfg : Config) (hashKey : List UInt8 → Digest) (s : Writers) (event : StoreEvent) :
    Prop :=
  ∀ i, s.Pending i → ¬ event.Ends i →
    ((s.step cfg hashKey event).store.present (s.conns i).session.setDigest).isSome =
      (s.store.present (s.conns i).session.setDigest).isSome

/-- STORED, or HD with whatever flags. -/
def Acknowledges (reply : List UInt8) : Prop := reply = kStored ∨ text "HD" <+: reply

instance (reply : List UInt8) : Decidable (Acknowledges reply) :=
  inferInstanceAs (Decidable (_ ∨ _))

/-! ## What is true of a connection -/

variable {cfg : Config} {hashKey : List UInt8 → Digest} {σ : State} {p : Session}

variable {found : Option ObjectMeta}

theorem Guard.holds_congr {g : Guard} {found' : Option ObjectMeta} (h : g.Holds found)
    (hsame : found'.isSome = found.isSome) : g.Holds found' := by
  cases g with
  | any => trivial
  | absent =>
      cases h
      exact Option.isSome_eq_false_iff.1 hsame |> Option.isNone_iff_eq_none.1
  | present =>
      obtain ⟨m, rfl⟩ := Option.ne_none_iff_exists'.1 h
      exact Option.isSome_iff_ne_none.1 hsame

/-- The open store of a connection is a store of its digest, if it is still open. -/
def Owns (σ : State) (p : Session) : Prop :=
  ∀ id ∈ p.handle, id < σ.storeSeq ∧ ∀ h, σ.handles.lookup id = some h → h.digest = p.setDigest

theorem Owns.apply (h : Owns σ p) (op : Op) : Owns (σ.apply cfg op) p := by
  refine Change.invariant (P := fun σ => Owns σ p) (fun σ₁ σ₂ h₁ hc id hid => ?_) h
  obtain ⟨hlt, hdigest⟩ := h₁ id hid
  refine ⟨Nat.lt_of_lt_of_le hlt hc.store_seq_le, fun h' hh' => ?_⟩
  rcases hc.handle_old hh' with ⟨h₀, hh₀, hkept⟩ | ⟨rfl, -⟩
  · exact hkept.digest.trans (hdigest h₀ hh₀)
  · exact absurd hlt (Nat.lt_irrefl _)

theorem Owns.run (h : Owns σ p) (ops : List Op) : Owns (run (State.apply cfg) σ ops) p :=
  invariant_run (I := fun σ => Owns σ p) (fun _ op _ hσ => hσ.apply op) h (allowed_true _ σ ops)

theorem owns_none (hnone : p.handle = none) : Owns σ p := by
  intro id hid
  rw [hnone] at hid
  cases hid

/-- `begin_store` opens a store of its digest. -/
theorem begin_store_owns (hfresh : Fresh σ) {size id : Nat} {faults : Faults}
    (hok : (σ.beginStore cfg p.setDigest size faults).1 = .ok id) :
    Owns (σ.beginStore cfg p.setDigest size faults).2 { p with handle := some id } := by
  rintro id' hid'
  cases Option.mem_some_iff.1 hid'
  rcases State.begin_store_stages cfg σ p.setDigest size faults with
    ⟨e, hfail, -⟩ | ⟨h₀, hok', -, hhandles, hdigest⟩
  · rw [hok] at hfail
    cases hfail
  · rw [hok] at hok'
    cases hok'
    have hlookup : (σ.beginStore cfg p.setDigest size faults).2.handles.lookup σ.storeSeq =
        some h₀ := by
      rw [hhandles]
      exact Table.lookup_insert_self ..
    refine ⟨(Fresh.apply hfresh (.beginStore p.setDigest size faults)).handle_lt _ _ hlookup,
      fun h hh => ?_⟩
    cases hlookup.symm.trans hh
    exact hdigest

/-- The command in hand: its condition holds, the reply to its rejection does not claim that it was
stored, and its handle is its own. -/
structure StoreConn.Fits (σ : State) (c : StoreConn) : Prop where
  bare : c.stage ≠ .body → c.session.handle = none
  owns : Owns σ c.session
  reply : c.stage ≠ .idle → ¬ Acknowledges c.session.setReply
  guard : c.stage ≠ .idle → c.session.setReject = false →
    c.guard.Holds (σ.present c.session.setDigest)

/-- The writers and the numbers of the store are in order. -/
structure Writers.Inv (s : Writers) : Prop where
  fresh : Fresh s.store
  conn : ∀ i, (s.conns i).Fits s.store

/-! ## Admission -/

theorem admit_store_guard {verb : Verb} {cas : Nat}
    (h : (admitStore verb cas found).reject = false) :
    (match verb with | .add => Guard.absent | .replace => .present | _ => .any).Holds found := by
  cases verb with
  | add =>
      cases found with
      | none => exact rfl
      | some m => cases h
  | replace =>
      cases found with
      | none => cases h
      | some m => exact Option.some_ne_none m
  | _ => trivial

theorem admit_store_reply (verb : Verb) (cas : Nat) (found : Option ObjectMeta) :
    ¬ Acknowledges (admitStore verb cas found).reply := by
  have hreply : (admitStore verb cas found).reply ∈ [kNotStored, kNotFound, kExists] := by
    unfold admitStore
    split <;> try split_ifs
    all_goals simp
  revert hreply
  generalize (admitStore verb cas found).reply = reply
  revert reply
  decide

theorem admit_meta_guard {mode : UInt8} {cas : Option Nat}
    (h : (admitMeta mode cas found).reject = false) :
    (if mode = ascii 'E' then Guard.absent else if mode = ascii 'R' then .present else .any).Holds
      found := by
  have hmode : modeAdmits mode found = true := by
    have hreject := (Bool.or_eq_false_iff.1 h).2
    rwa [Bool.not_eq_false'] at hreject
  unfold modeAdmits at hmode
  split_ifs at hmode ⊢
  · exact Option.isNone_iff_eq_none.1 hmode
  · exact Option.isSome_iff_ne_none.1 hmode
  · trivial

theorem admit_meta_reply (mode : UInt8) (cas : Option Nat) (found : Option ObjectMeta) :
    ¬ Acknowledges (admitMeta mode cas found).reply := by
  have hreply : (admitMeta mode cas found).reply ∈ [kMetaNotStored, kMetaNotFound,
      kMetaExists] := by
    show (admitCas cas found).reply ∈ _
    unfold admitCas
    split <;> try split_ifs
    all_goals simp
  revert hreply
  generalize (admitMeta mode cas found).reply = reply
  revert reply
  decide

/-- A command that is not rejected by its lookup finds its condition true. -/
theorem admitted_fits (hnone : p.handle = none) (line : StorageLine) :
    StoreConn.Fits σ ⟨line.admitted hashKey σ p, .admitted, line.guard⟩ := by
  cases line with
  | classic cmd =>
      exact ⟨fun _ => hnone, owns_none hnone, fun _ => admit_store_reply _ _ _,
        fun _ hok => admit_store_guard hok⟩
  | metaSet mc =>
      exact ⟨fun _ => hnone, owns_none hnone, fun _ => admit_meta_reply mc.mode mc.cas _,
        fun _ hok => admit_meta_guard hok⟩

/-! ## The steps keep what is true -/

/-- The ends of `begin_store` for a connection without a store: not tried, opened, parked, or
refused. -/
theorem begin_turn_cases (env : Env) (hnone : p.handle = none) :
    (p.setReject = true ∧ (beginTurn cfg env σ p).ops = [] ∧ (beginTurn cfg env σ p).proto = p ∧
        stageAfter (beginTurn cfg env σ p).ending = .body) ∨
      (beginTurn cfg env σ p).ops = [.beginStore p.setDigest p.setRemaining env.faults] ∧
        ((∃ id, (σ.beginStore cfg p.setDigest p.setRemaining env.faults).1 = .ok id ∧
            (beginTurn cfg env σ p).proto = { p with handle := some id } ∧
            stageAfter (beginTurn cfg env σ p).ending = .body) ∨
          ((beginTurn cfg env σ p).proto = p ∧
          stageAfter (beginTurn cfg env σ p).ending = .parked) ∨
          ((beginTurn cfg env σ p).proto =
              { p with
                setReject := true
                setReply := if p.isMeta then kMetaNotStored else p.setReply } ∧
            stageAfter (beginTurn cfg env σ p).ending = .body)) := by
  have hsame : { p with handle := none } = p := by
    rw [← hnone]
  have hops : reset env p = [] := by
    unfold reset
    rw [hnone]
    rfl
  unfold beginTurn
  rw [hops, hsame]
  dsimp only [run_nil]
  by_cases hreject : p.setReject = true
  · rw [if_pos hreject]
    exact Or.inl ⟨hreject, rfl, rfl, rfl⟩
  · rw [if_neg hreject]
    refine Or.inr ?_
    cases hbegin : (σ.beginStore cfg p.setDigest p.setRemaining env.faults).1 with
    | ok id => exact ⟨rfl, Or.inl ⟨id, rfl, rfl, rfl⟩⟩
    | error e =>
        cases e with
        | wouldBlock => exact ⟨rfl, Or.inr (Or.inl ⟨rfl, rfl⟩)⟩
        | _ => exact ⟨rfl, Or.inr (Or.inr ⟨rfl, rfl⟩)⟩

namespace Writers

variable {s : Writers} {event : StoreEvent} {i : Nat}

/-- A step that is not the end of its data block keeps the condition of a command. -/
theorem guard_kept (hun : Unraced cfg hashKey s event) (hends : ¬ event.Ends i)
    (h : (s.conns i).Fits s.store) (hstage : (s.conns i).stage ≠ .idle)
    (hreject : (s.conns i).session.setReject = false) :
    (s.conns i).guard.Holds ((s.step cfg hashKey event).store.present
      (s.conns i).session.setDigest) := by
  by_cases hany : (s.conns i).guard = .any
  · rw [hany]
    trivial
  · exact Guard.holds_congr (h.guard hstage hreject) (hun i ⟨hstage, hreject, hany⟩ hends)

/-- The other connections after a step. -/
theorem fits_kept (hun : Unraced cfg hashKey s event) (hends : ¬ event.Ends i)
    (h : (s.conns i).Fits s.store) {ops : List Op}
    (hstore : (s.step cfg hashKey event).store = run (State.apply cfg) s.store ops) :
    (s.conns i).Fits (s.step cfg hashKey event).store where
  __ := h
  owns := hstore ▸ h.owns.run ops
  guard := guard_kept hun hends h

/-- A step of connection `i` keeps the invariant if what it leaves of that connection is in
order. -/
theorem inv_put (h : s.Inv) (hun : Unraced cfg hashKey s event) {ops : List Op} {c : StoreConn}
    (hstep : s.step cfg hashKey event = s.put cfg i ops c) (hends : ∀ j, j ≠ i → ¬ event.Ends j)
    (hc : c.Fits (s.step cfg hashKey event).store) : (s.step cfg hashKey event).Inv where
  fresh := by
    rw [hstep]
    exact invariant_run (I := Fresh) (fun _ op _ hσ => Fresh.apply hσ op) h.fresh
      (allowed_true _ s.store ops)
  conn j := by
    by_cases hj : j = i
    · subst hj
      have hconn : (s.step cfg hashKey event).conns j = c := by
        rw [hstep]
        exact Function.update_self ..
      rwa [hconn]
    · have hconn : (s.step cfg hashKey event).conns j = s.conns j := by
        rw [hstep]
        exact Function.update_of_ne hj ..
      rw [hconn]
      exact fits_kept hun (hends j hj) (h.conn j) (by rw [hstep]; rfl)

variable {faults : Faults}

theorem inv_begin (h : s.Inv) (hun : Unraced cfg hashKey s (.beginStore i faults)) :
    (s.step cfg hashKey (.beginStore i faults)).Inv := by
  by_cases hstage : (s.conns i).stage = .admitted
  swap
  · rw [step, if_neg hstage]
    exact h
  have hfits := h.conn i
  have hidle : (s.conns i).stage ≠ .idle := by rw [hstage]; decide
  have hnone : (s.conns i).session.handle = none := hfits.bare (by rw [hstage]; decide)
  have hguard := guard_kept hun (i := i) id hfits hidle
  have hstep : s.step cfg hashKey (.beginStore i faults) = s.put cfg i
      (beginTurn cfg ⟨⟨[], faults⟩, hashKey⟩ s.store (s.conns i).session).ops { s.conns i with
        session := (beginTurn cfg ⟨⟨[], faults⟩, hashKey⟩ s.store (s.conns i).session).proto
        stage := stageAfter (beginTurn cfg ⟨⟨[], faults⟩, hashKey⟩ s.store
          (s.conns i).session).ending } := by
    rw [step, if_pos hstage]
  refine inv_put h hun hstep (fun _ _ => id) ?_
  rw [hstep] at hguard ⊢
  rcases @begin_turn_cases cfg s.store (s.conns i).session ⟨⟨[], faults⟩, hashKey⟩ hnone with
    ⟨hreject, hops, hproto, hend⟩ | ⟨hops,
    ⟨id, hok, hproto, hend⟩ | ⟨hproto, hend⟩ | ⟨hproto, hend⟩⟩
  · rw [hproto, hend]
    exact ⟨fun hne => absurd rfl hne, owns_none hnone, fun _ => hfits.reply hidle, fun _ => hguard⟩
  · rw [hproto, hend]
    refine ⟨fun hne => absurd rfl hne, ?_, fun _ => hfits.reply hidle, fun _ => hguard⟩
    show Owns (run (State.apply cfg) s.store (beginTurn cfg _ s.store _).ops) _
    rw [hops]
    exact begin_store_owns h.fresh hok
  · rw [hproto, hend]
    exact ⟨fun _ => hnone, owns_none hnone, fun _ => hfits.reply hidle, fun _ => hguard⟩
  · rw [hproto, hend]
    refine ⟨fun hne => absurd rfl hne, owns_none hnone, fun _ => ?_, nofun⟩
    dsimp only
    split_ifs
    · decide
    · exact hfits.reply hidle

theorem inv_retry (h : s.Inv) (hun : Unraced cfg hashKey s (.retry i faults)) :
    (s.step cfg hashKey (.retry i faults)).Inv := by
  by_cases hstage : (s.conns i).stage = .parked
  swap
  · rw [step, if_neg hstage]
    exact h
  have hfits := h.conn i
  have hidle : (s.conns i).stage ≠ .idle := by rw [hstage]; decide
  have hnone : (s.conns i).session.handle = none := hfits.bare (by rw [hstage]; decide)
  have hguard := guard_kept hun (i := i) id hfits hidle
  have hstep : s.step cfg hashKey (.retry i faults) = s.put cfg i
      [.beginStore (s.conns i).session.setDigest (s.conns i).session.setRemaining faults]
      (match (retryStore cfg ⟨⟨[], faults⟩, hashKey⟩ s.store (s.conns i).session).2 with
        | none => s.conns i
        | some (_, p) => { s.conns i with session := p, stage := .body }) := by
    rw [step, if_pos hstage]
    rfl
  refine inv_put h hun hstep (fun _ _ => id) ?_
  rw [hstep] at hguard ⊢
  unfold retryStore
  cases hbegin : (s.store.beginStore cfg (s.conns i).session.setDigest
    (s.conns i).session.setRemaining faults).1 with
  | ok id =>
      refine ⟨fun hne => absurd rfl hne, ?_, fun _ => hfits.reply hidle, fun _ => hguard⟩
      exact begin_store_owns h.fresh hbegin
  | error e =>
      cases e with
      | wouldBlock => exact ⟨fun _ => hnone, owns_none hnone, hfits.reply, fun _ => hguard⟩
      | _ =>
          exact ⟨fun hne => absurd rfl hne, owns_none hnone, fun _ => hfits.reply hidle, nofun⟩

theorem inv_ingest (h : s.Inv) (hun : Unraced cfg hashKey s (.ingest i faults)) :
    (s.step cfg hashKey (.ingest i faults)).Inv := by
  by_cases hstage : (s.conns i).stage = .body
  swap
  · rw [step, if_neg hstage]
    exact h
  have hfits := h.conn i
  have hidle : (s.conns i).stage ≠ .idle := by rw [hstage]; decide
  have hguard := guard_kept hun (i := i) id hfits hidle
  have hstep : s.step cfg hashKey (.ingest i faults) = s.put cfg i
      (ingest cfg ⟨⟨[], faults⟩, hashKey⟩ s.store (s.conns i).session).1 { s.conns i with
        session := (s.conns i).session.taken
          (ingest cfg ⟨⟨[], faults⟩, hashKey⟩ s.store (s.conns i).session).2 } := by
    rw [step, if_pos hstage]
  refine inv_put h hun hstep (fun _ _ => id) ?_
  rw [hstep] at hguard ⊢
  exact ⟨fun hne => absurd hstage hne, hfits.owns.run _, fun _ => hfits.reply hidle,
    fun _ => hguard⟩

theorem inv_finish (h : s.Inv) (hun : Unraced cfg hashKey s (.finish i faults)) :
    (s.step cfg hashKey (.finish i faults)).Inv := by
  by_cases hend : (s.conns i).Complete
  · have hstep : s.step cfg hashKey (.finish i faults) = s.put cfg i
        (finishStore cfg ⟨⟨[], faults⟩, hashKey⟩ s.store (s.conns i).session).1 { s.conns i with
          session := { (s.conns i).session with
            input := (s.conns i).session.input.drop 2, handle := none }
          stage := .idle } := by
      rw [step, if_pos hend]
    refine inv_put h hun hstep (fun j hj heq => hj heq.symm) ?_
    exact ⟨fun _ => rfl, owns_none rfl, fun hne => absurd rfl hne, fun hne => absurd rfl hne⟩
  · rw [step, if_neg hend]
    exact h

theorem inv_step (h : s.Inv) (hun : Unraced cfg hashKey s event) :
    (s.step cfg hashKey event).Inv := by
  cases event with
  | lookup i line =>
      by_cases hstage : (s.conns i).stage = .idle
      · have hnone : (s.conns i).session.handle = none := (h.conn i).bare (by rw [hstage]; decide)
        refine inv_put h hun (i := i) (by rw [step, if_pos hstage]) (fun _ _ => id) ?_
        rw [step, if_pos hstage]
        exact admitted_fits hnone line
      · rw [step, if_neg hstage]
        exact h
  | beginStore i faults => exact inv_begin h hun
  | retry i faults => exact inv_retry h hun
  | receive i bytes =>
      have hfits := h.conn i
      exact inv_put h hun (i := i) rfl (fun _ _ => id) { hfits with }
  | ingest i faults => exact inv_ingest h hun
  | finish i faults => exact inv_finish h hun
  | other op =>
      refine ⟨Fresh.apply h.fresh op, fun i => ?_⟩
      have hstore : (s.step cfg hashKey (.other op)).store =
        run (State.apply cfg) s.store [op] := rfl
      exact fits_kept hun id (h.conn i) hstore

/-- Nobody is in a command at the start. -/
theorem inv_start (cfg : Config) (before : List Op) : (start (State.after cfg before)).Inv where
  fresh := (reachable_scratch_inv cfg before).fresh
  conn _ := ⟨fun _ => rfl, owns_none rfl, fun hne => absurd rfl hne, fun hne => absurd rfl hne⟩

end Writers

/-! ## Replies -/

theorem failed_reply_denies {reply : List UInt8} (h : ¬ Acknowledges reply) :
    ¬ Acknowledges (failedReply p reply) := by
  unfold failedReply
  split_ifs
  · exact h
  · decide

/-- Only a commit that succeeds is answered STORED or HD. -/
theorem acknowledged {env : Env} (hdenies : ¬ Acknowledges p.setReply)
    (h : Acknowledges (finishStore cfg env σ p).2) :
    p.setReject = false ∧ ∃ id rest, p.handle = some id ∧
      (finishStore cfg env σ p).1 =
      .commit id p.setFlags (p.expiry σ.now) p.setCas env.faults :: rest ∧
      (σ.commit cfg id p.setFlags (p.expiry σ.now) p.setCas env.faults).1 = .ok () := by
  have hnotStored : ¬ Acknowledges (if p.isMeta then kMetaNotStored else kNotStored) := by
    split_ifs
    · decide
    · decide
  have hexists : ¬ Acknowledges (if p.isMeta then kMetaExists else kExists) := by
    split_ifs
    · decide
    · decide
  unfold finishStore at h ⊢
  by_cases hcrlf : p.input.take 2 ≠ crlf
  · rw [if_pos hcrlf] at h
    exact absurd h (failed_reply_denies (by decide))
  rw [if_neg hcrlf] at h ⊢
  by_cases hreject : p.setReject = true
  · rw [if_pos hreject] at h
    exact absurd h (failed_reply_denies hdenies)
  rw [if_neg hreject] at h ⊢
  cases hhandle : p.handle with
  | none =>
      rw [hhandle] at h
      exact absurd h (failed_reply_denies hnotStored)
  | some id =>
      rw [hhandle] at h
      dsimp only at h ⊢
      by_cases hfailed : p.setFailed = true
      · rw [if_pos hfailed] at h
        exact absurd h (failed_reply_denies hnotStored)
      · rw [if_neg hfailed] at h ⊢
        refine ⟨Bool.not_eq_true _ |>.mp hreject, id, _, rfl, rfl, ?_⟩
        cases hcommit : (σ.commit cfg id p.setFlags (p.expiry σ.now) p.setCas env.faults).1 with
        | ok _ => rfl
        | error e =>
            rw [hcommit] at h
            cases e with
            | casMismatch => exact absurd h (failed_reply_denies hexists)
            | _ => exact absurd h (failed_reply_denies hnotStored)

/-- In every run whose steps do not change whether a key is present while a conditional store of it
is under way, except that store's own end: a command that is answered STORED or HD publishes a
version of its key, and what it asks of the key is true at that moment. -/
theorem conditional_store_at_publish (cfg : Config) (hashKey : List UInt8 → Digest)
    (before : List Op) (events : List StoreEvent)
    (hun : Allowed (Writers.step cfg hashKey) (Unraced cfg hashKey)
      (Writers.start (State.after cfg before)) events)
    (i : Nat) (faults : Faults)
    (hend : ((Writers.after cfg hashKey before events).conns i).Complete)
    (hreply : Acknowledges ((Writers.after cfg hashKey before events).reply cfg hashKey i faults)) :
    ∃ op rest,
      (finishStore cfg ⟨⟨[], faults⟩, hashKey⟩ (Writers.after cfg hashKey before events).store
        ((Writers.after cfg hashKey before events).conns i).session).1 = op :: rest ∧
      op.Publishes cfg (Writers.after cfg hashKey before events).store
        ((Writers.after cfg hashKey before events).conns i).session.setDigest ∧
      ((Writers.after cfg hashKey before events).conns i).guard.Holds
        ((Writers.after cfg hashKey before events).store.present
          ((Writers.after cfg hashKey before events).conns i).session.setDigest) := by
  have hinv : (Writers.after cfg hashKey before events).Inv :=
    invariant_run (I := Writers.Inv) (fun _ _ hok h => Writers.inv_step h hok)
      (Writers.inv_start cfg before) hun
  generalize Writers.after cfg hashKey before events = s at hend hreply hinv ⊢
  have hfits := hinv.conn i
  have hidle : (s.conns i).stage ≠ .idle := by rw [hend.1]; decide
  obtain ⟨hreject, id, rest, hhandle, hops, hok⟩ := acknowledged (hfits.reply hidle) hreply
  refine ⟨_, rest, hops, ⟨hok, ?_⟩, hfits.guard hidle hreject⟩
  rcases @commit_outcome cfg s.store id (s.conns i).session.setFlags
    ((s.conns i).session.expiry s.store.now)
    (s.conns i).session.setCas faults with ⟨hfail, -⟩ | ⟨h₀, v, σ₁, -, hh, -, -⟩
  · exact absurd hok hfail
  · exact ⟨h₀, hh, (hfits.owns id hhandle).2 h₀ hh⟩

/-- Keys are hashed to one digest. -/
def oneDigest (_ : List UInt8) : Digest := Digest.replicate 1

/-- `add k 0 0 1`. -/
def addOne : StorageLine := .classic ⟨.add, text "k", 0, 0, 1, 0, false⟩

/-- `replace k 0 0 1`. -/
def replaceOne : StorageLine := .classic ⟨.replace, text "k", 0, 0, 1, 0, false⟩

/-- A connection reads a storage command and its data block of one byte. -/
def uploads (i : Nat) (line : StorageLine) : List StoreEvent :=
  [.lookup i line, .beginStore i Faults.never, .receive i (text "x\r\n"), .ingest i Faults.never]

/-- In an empty store no key becomes present without a commit. -/
theorem unraced_of_empty {s : Writers} {event : StoreEvent}
    (hempty : s.store.index.entries.isEmpty = true)
    (hnext : (s.step cfg hashKey event).store.index.entries.isEmpty = true) :
    Unraced cfg hashKey s event := by
  have habsent : ∀ σ : State, σ.index.entries.isEmpty = true → ∀ d, σ.present d = none := by
    intro σ hσ d
    have hindex : σ.index = ∅ := AList.ext (List.isEmpty_iff.1 hσ)
    rw [State.present, hindex]
    rfl
  intro i _ _
  rw [habsent _ hempty, habsent _ hnext]

/-- One upload, during which time passes. -/
def addAlone : List StoreEvent := uploads 0 addOne ++ [.other (.clock 5)]

theorem conditional_store_at_publish_alone :
    (Writers.after oneDriveConfig oneDigest [] addAlone).reply oneDriveConfig oneDigest 0
        Faults.never = kStored ∧
      (Writers.after oneDriveConfig oneDigest [] addAlone).store.present (Digest.replicate 1) =
        none := by
  have hreply : (Writers.after oneDriveConfig oneDigest [] addAlone).reply oneDriveConfig oneDigest
      0 Faults.never =
      kStored := by decide +kernel
  have hun : Allowed (Writers.step oneDriveConfig oneDigest) (Unraced oneDriveConfig oneDigest)
      (Writers.start (State.after oneDriveConfig [])) addAlone :=
    ⟨unraced_of_empty (by decide +kernel) (by decide +kernel),
      unraced_of_empty (by decide +kernel) (by decide +kernel),
      unraced_of_empty (by decide +kernel) (by decide +kernel),
      unraced_of_empty (by decide +kernel) (by decide +kernel),
      unraced_of_empty (by decide +kernel) (by decide +kernel), trivial⟩
  obtain ⟨op, rest, -, -, hguard⟩ :=
    conditional_store_at_publish oneDriveConfig oneDigest [] addAlone hun 0
    Faults.never (by decide +kernel) (Or.inl hreply)
  have hkind : ((Writers.after oneDriveConfig oneDigest [] addAlone).conns 0).guard =
      .absent := by decide +kernel
  have hdigest : ((Writers.after oneDriveConfig oneDigest [] addAlone).conns 0).session.setDigest =
      Digest.replicate 1 := by decide +kernel
  rw [hkind, hdigest] at hguard
  exact ⟨hreply, hguard⟩

/-- Two uploads of the same absent key. -/
def bothUploaded : Writers :=
  Writers.after oneDriveConfig oneDigest [] (uploads 0 addOne ++ uploads 1 addOne)

/-- The first of them has ended. -/
def firstStored : Writers := bothUploaded.step oneDriveConfig oneDigest (.finish 0 Faults.never)

/-- A `replace` of the key whose object is deleted during the upload. -/
def replacedDeleted : Writers := Writers.after oneDriveConfig oneDigest storeHundred
  (uploads 0 replaceOne ++ [.other (.remove (Digest.replicate 1) Faults.never)])

/-- Both connections that add an absent key are told STORED, although the key is present when the
second publishes; and a `replace` is told STORED although the key is absent when it publishes. -/
theorem both_adds_are_stored :
    bothUploaded.reply oneDriveConfig oneDigest 0 Faults.never = kStored ∧
      firstStored.reply oneDriveConfig oneDigest 1 Faults.never = kStored ∧
      (firstStored.store.present (Digest.replicate 1)).isSome = true ∧
      replacedDeleted.reply oneDriveConfig oneDigest 0 Faults.never = kStored ∧
      (replacedDeleted.store.present (Digest.replicate 1)).isSome = false := by
  decide +kernel

end GoblinStore.Memcache
