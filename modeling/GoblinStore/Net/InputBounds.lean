import GoblinStore.Http.Connections
import GoblinStore.Http.Heads
import GoblinStore.Memcache.Lines

/-!
# How much input a connection holds

The memcache loop closes a connection whose line does not end, so that its input is bounded in every
run. The HTTP loop waits for the end of a head however long it gets: its input is bounded by the
longest head that a client leaves unfinished, and by nothing else.
-/

namespace GoblinStore.Net

open GoblinStore.Lib GoblinStore.Core

/-- The input of a connection holds at most a line of maximal length and one receive buffer with the
memcache loop, and at most an unfinished head and one receive buffer with the HTTP loop. -/
theorem connection_input_bounded (l : Listener) :
    (∀ (hashKey : List UInt8 → Digest) (events : List (ConnEvent (Nat → Memcache.Oracle))),
      ((Memcache.eventLoop l.cfg hashKey).after l events).proto.input.length ≤
        Memcache.kMaxLine + kRecvBuf) ∧
    ∀ (site : Http.Site) (M : Nat) (events : List (ConnEvent (Nat → Faults))),
      Allowed ((Http.httpLoop site).step l.cfg)
        (Brings fun s bytes => Http.Terse site M (s.proto.input ++ bytes))
        ((Http.httpLoop site).setup l).start events →
      ((Http.httpLoop site).after l events).proto.input.length ≤ M + kRecvBuf :=
  ⟨fun hashKey events => Memcache.input_bounded l hashKey events,
    fun site M _ hterse => Http.input_bounded l site M hterse⟩

/-- The beginning of a request in one receive. -/
def requestLine : List (ConnEvent (Nat → Faults)) :=
  [Http.arrives (text "GET /index.html HTTP/1.1\r\n")]

theorem connection_input_bounded_request :
    Allowed ((Http.httpLoop Http.plainSite).step freshLoop.cfg)
        (Brings fun s bytes => Http.Terse Http.plainSite 8192 (s.proto.input ++ bytes))
        ((Http.httpLoop Http.plainSite).setup freshLoop).start requestLine ∧
      ((Http.httpLoop Http.plainSite).after freshLoop requestLine).proto.input.length ≤
        8192 + kRecvBuf := by
  have hterse : Allowed ((Http.httpLoop Http.plainSite).step freshLoop.cfg)
      (Brings fun s bytes => Http.Terse Http.plainSite 8192 (s.proto.input ++ bytes))
      ((Http.httpLoop Http.plainSite).setup freshLoop).start requestLine := by
    refine ⟨fun _ w hw hlong => ?_, trivial⟩
    have hlength : w.length ≤ 26 := hw.length_le.trans (by decide +kernel)
    omega
  exact ⟨hterse, (connection_input_bounded freshLoop).2 Http.plainSite 8192 requestLine hterse⟩

/-- A connection that has received this input and waits for more. -/
def listening (input : List UInt8) : Loop Http.Session :=
  ⟨State.init freshLoop.cfg, BlockPool.create freshLoop.chunkBytes freshLoop.count, fun _ _ => 0,
    [], 0, false, { Conn.create with inflight := 1, pending := [.recv] },
    { Http.Session.create with input := input }⟩

/-- A byte of an unfinished head is kept. -/
theorem listening_step (input : List UInt8) (b : UInt8)
    (hparse : Http.parseRequest Http.plainSite.phr (input ++ [b]) = .incomplete) :
    (Http.httpLoop Http.plainSite).step freshLoop.cfg (listening input) (Http.arrives [b]) =
      listening (input ++ [b]) := by
  let s : Loop Http.Session :=
    { listening (input ++ [b]) with
      room := 1, c := { Conn.create with inflight := 0, pending := [] } }
  have hturn : ∀ faults, Http.turn Http.plainSite faults s.σ s.proto =
      ⟨s.proto, [], [], none, .waits⟩ := by
    intro faults
    unfold Http.turn
    rw [show s.proto.input = input ++ [b] from rfl, hparse]
  show Loop.retire (Loop.processLoop freshLoop.cfg false
      ((Http.httpLoop Http.plainSite).commands freshLoop.cfg
    (fun _ => Faults.never) s) s) = _
  unfold Protocol.commands
  rw [Loop.process_turns]
  show Loop.retire (Loop.follow freshLoop.cfg false _
      (s.turned freshLoop.cfg (Http.turn Http.plainSite _ s.σ s.proto))
    (Http.turn Http.plainSite _ s.σ s.proto).ending) = _
  rw [hturn]
  rfl

/-- A client that sends bytes of a head and never ends it. -/
theorem listening_run (n : Nat) :
    (Http.httpLoop Http.plainSite).after freshLoop (List.replicate n (Http.arrives [ascii 'x'])) =
      listening (List.replicate n (ascii 'x')) := by
  induction n with
  | zero => rfl
  | succ n ih =>
      have hparse : Http.parseRequest Http.plainSite.phr
          (List.replicate n (ascii 'x') ++ [ascii 'x']) =
          .incomplete := by
        refine Http.plain_parse_incomplete fun hmem => ?_
        rw [← List.replicate_succ'] at hmem
        exact absurd (List.eq_of_mem_replicate hmem) (by decide)
      rw [List.replicate_succ', List.replicate_succ', Protocol.after,
        run_append, ← Protocol.after, ih]
      exact listening_step _ _ hparse

/-- No constant bounds the input of an HTTP connection. -/
theorem endless_head_is_kept :
    ¬ ∃ M, ∀ events,
      ((Http.httpLoop Http.plainSite).after freshLoop events).proto.input.length ≤ M := by
  rintro ⟨M, hbound⟩
  have hlen := hbound (List.replicate (M + 1) (Http.arrives [ascii 'x']))
  rw [listening_run] at hlen
  change (List.replicate (M + 1) (ascii 'x')).length ≤ M at hlen
  rw [List.length_replicate] at hlen
  exact Nat.not_succ_le_self M hlen

end GoblinStore.Net
