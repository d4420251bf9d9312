import GoblinStore.Net.Handlers

/-!
# One iteration of `process`

The loops of `EventLoop::process` and `HttpLoop::process` have one form: an iteration looks at the
input and the store, takes something off the input, has the store do something, queues a reply, and
then goes on or stops. A `Turn` is what one iteration does. `turns` lists the commands of all the
iterations of a call, and `turns_rule` is the rule for what holds when the call is over.
-/

namespace GoblinStore.Net

open GoblinStore.Lib GoblinStore.Core

/-- How an iteration ends: the loop goes on, in the same state, with the body of a store or after
it; a GET is opened; a store waits for a staging buffer; there is not enough input; the connection
is to be closed; it is closed because the line is too long. -/
inductive Ending where
  | again
  | stores (sh : Bool)
  | stored
  | opens (key : Digest) (reqRange : Option ByteRange) (framing : Framing)
  | parks
  | waits
  | quits
  | tooLong

/-- What an iteration leaves for the protocol, what the store does, what is replied, and whether the
connection is kept open after the reply, if the iteration settles that. -/
structure Turn (P : Type) where
  proto : P
  ops : List Op
  reply : List UInt8
  keepAlive : Option Bool
  ending : Ending

variable {P : Type} {cfg : Config} {https : Bool} {s : Loop P}

/-- The command at the end of an iteration. -/
def Ending.commands : Ending → List (Command P)
  | .again | .waits => []
  | .stores sh => [.store sh]
  | .stored => [.stored]
  | .opens key reqRange framing => [.get key reqRange framing]
  | .parks => [.park]
  | .quits => [.quit]
  | .tooLong => [.tooLong]

/-- An iteration as commands. -/
def Turn.commands (t : Turn P) : List (Command P) :=
  .put t.proto :: (t.ops.map .act ++
    .reply t.reply :: ((t.keepAlive.map .keepAlive).toList ++ t.ending.commands))

namespace Loop

/-- An iteration but for its end. -/
def turned (cfg : Config) (s : Loop P) (t : Turn P) : Loop P :=
  { s with
    σ := run (State.apply cfg) s.σ t.ops
    proto := t.proto
    c := { s.c with
      out := s.c.out ++ t.reply
      owed := s.c.owed ++ t.reply
      quitAfter := (t.keepAlive.map (!·)).getD s.c.quitAfter } }

/-- The body of a store follows. -/
def storing (s : Loop P) (sh : Bool) :
    Loop P := { s with c := { s.c with state := .setBody, sh := sh } }

/-- The store is over. -/
def idled (s : Loop P) : Loop P := { s with c := { s.c with state := .idle, sh := false } }

/-- The store waits. -/
def parked (s : Loop P) : Loop P :=
  { s with c := { s.c with state := .setWait, sh := false, queues := s.c.queues ++ [.setWait] } }

/-- The GET of an iteration. -/
def opened (cfg : Config) (s : Loop P) (key : Digest) (reqRange : Option ByteRange)
    (framing : Framing) :
    Bool × Loop P :=
  beginGet cfg { s with c := { s.c with getKey := key, reqRange := reqRange, sh := false } } framing

/-- The commands of the iterations of a call; `next` is the iteration, with the number of those that
may follow. -/
def turns (cfg : Config) (next : Nat → State → St → P → Turn P) : Nat → Loop P → List (Command P)
  | 0, _ => []
  | fuel + 1, s =>
      let t := next fuel s.σ s.c.state s.proto
      let u := s.turned cfg t
      t.commands ++
        match t.ending with
        | .again => turns cfg next fuel u
        | .stores sh => turns cfg next fuel (u.storing sh)
        | .stored => turns cfg next fuel u.idled
        | .opens key reqRange framing => turns cfg next fuel (u.opened cfg key reqRange framing).2
        | _ => []

theorem process_loop_acts (ops : List Op) (rest : List (Command P)) (s : Loop P) :
    processLoop cfg https (ops.map .act ++ rest) s =
      processLoop cfg https rest { s with σ := run (State.apply cfg) s.σ ops } := by
  induction ops generalizing s with
  | nil => rfl
  | cons op ops ih => exact ih { s with σ := s.σ.apply cfg op }

/-- The commands of an iteration come down to its end. -/
theorem process_loop_turn (t : Turn P) (rest : List (Command P)) (s : Loop P) :
    processLoop cfg https (t.commands ++ rest) s =
      processLoop cfg https (t.ending.commands ++ rest) (s.turned cfg t) := by
  have hput : processLoop cfg https (t.commands ++ rest) s =
      processLoop cfg https (t.ops.map .act ++
        (.reply t.reply :: ((t.keepAlive.map .keepAlive).toList ++ t.ending.commands) ++ rest))
        { s with proto := t.proto } := by
    rw [← List.append_assoc]
    rfl
  rw [hput, process_loop_acts]
  unfold turned
  cases t.keepAlive with
  | none => rfl
  | some on => rfl

/-- What follows after an iteration that ends like this; `resume` is the rest of the loop. -/
def follow (cfg : Config) (https : Bool) (resume : Loop P → Loop P) (u : Loop P) : Ending → Loop P
  | .again => resume u
  | .stores sh => resume (u.storing sh)
  | .stored => resume u.idled
  | .opens key reqRange framing =>
      match u.opened cfg key reqRange framing with
      | (false, s) => s
      | (true, s) => if s.c.state = .getHeader then s.flush https else resume s
  | .parks => u.parked
  | .waits => u.flush https
  | .quits => flush https { u with c := { u.c with quitAfter := true } }
  | .tooLong => u.closeOrderly

/-- The loop of `process`, an iteration at a time. -/
theorem process_turns (next : Nat → State → St → P → Turn P) (fuel : Nat) (s : Loop P) :
    processLoop cfg https (turns cfg next (fuel + 1) s) s =
      follow cfg https (fun u => processLoop cfg https (turns cfg next fuel u) u)
        (s.turned cfg (next fuel s.σ s.c.state s.proto))
        (next fuel s.σ s.c.state s.proto).ending := by
  rw [turns, process_loop_turn]
  generalize next fuel s.σ s.c.state s.proto = t
  generalize s.turned cfg t = u
  cases t.ending with
  | opens key reqRange framing =>
      show (match u.opened cfg key reqRange framing with
        | (false, s) => s
        | (true, s) => if s.c.state = St.getHeader then s.flush https
            else processLoop cfg https
              (turns cfg next fuel (u.opened cfg key reqRange framing).2) s) = _
      unfold follow
      dsimp only
      generalize u.opened cfg key reqRange framing = begun
      obtain ⟨ok, s'⟩ := begun
      cases ok <;> rfl
  | _ => rfl

end Loop

/-- After a call of `begin_get` with this result, the call of `process` is over with `Ψ`, or it goes
on with `Φ` and less input. -/
def Leads (https : Bool) (Φ Ψ : Loop P → Prop) (size : Loop P → Nat) (n : Nat)
    (begun : Bool × Loop P) : Prop :=
  match begun with
  | (false, s) => Ψ s
  | (true, s) => if s.c.state = .getHeader then Ψ (s.flush https) else Φ s ∧ size s < n

/-- After an iteration that ends like this, the call is over with `Ψ`, or it goes on with `Φ` and
less input. -/
def Ending.Leads (cfg : Config) (https : Bool) (Φ Ψ : Loop P → Prop) (size : Loop P → Nat) (n : Nat)
    (u : Loop P) :
    Ending → Prop
  | .again => Φ u ∧ size u < n
  | .stores sh => Φ (u.storing sh) ∧ size (u.storing sh) < n
  | .stored => Φ u.idled ∧ size u.idled < n
  | .opens key reqRange framing => Net.Leads https Φ Ψ size n (u.opened cfg key reqRange framing)
  | .parks => Ψ u.parked
  | .waits => Ψ (u.flush https)
  | .quits => Ψ (Loop.flush https { u with c := { u.c with quitAfter := true } })
  | .tooLong => Ψ (u.closeOrderly)

/-- The rule for a call of `process`: what every iteration keeps until the end of the call. -/
theorem turns_rule {next : Nat → State → St → P → Turn P} {Φ Ψ : Loop P → Prop}
    (size : Loop P → Nat) (hnext : ∀ fuel s, Φ s →
      (next fuel s.σ s.c.state s.proto).ending.Leads cfg https Φ Ψ size (size s)
      (s.turned cfg (next fuel s.σ s.c.state s.proto)))
    {fuel : Nat} (hs : Φ s) (hfuel : size s < fuel) :
    Ψ (Loop.processLoop cfg https (Loop.turns cfg next fuel s) s) := by
  induction fuel generalizing s with
  | zero => omega
  | succ fuel ih =>
      have hlead := hnext fuel s hs
      rw [Loop.process_turns]
      generalize (next fuel s.σ s.c.state s.proto).ending = ending at hlead ⊢
      generalize s.turned cfg (next fuel s.σ s.c.state s.proto) = u at hlead ⊢
      cases ending with
      | again => exact ih hlead.1 (Nat.lt_of_lt_of_le hlead.2 (Nat.le_of_lt_succ hfuel))
      | stores sh => exact ih hlead.1 (Nat.lt_of_lt_of_le hlead.2 (Nat.le_of_lt_succ hfuel))
      | stored => exact ih hlead.1 (Nat.lt_of_lt_of_le hlead.2 (Nat.le_of_lt_succ hfuel))
      | opens key reqRange framing =>
          have hlead : Leads https Φ Ψ size (size s) (u.opened cfg key reqRange framing) := hlead
          unfold Loop.follow
          dsimp only
          generalize u.opened cfg key reqRange framing = begun at hlead ⊢
          obtain ⟨ok, s'⟩ := begun
          cases ok with
          | false => exact hlead
          | true =>
              dsimp only [Leads] at hlead ⊢
              split_ifs at hlead ⊢
              · exact hlead
              · exact ih hlead.1 (Nat.lt_of_lt_of_le hlead.2 (Nat.le_of_lt_succ hfuel))
      | parks => exact hlead
      | waits => exact hlead
      | quits => exact hlead
      | tooLong => exact hlead

end GoblinStore.Net
