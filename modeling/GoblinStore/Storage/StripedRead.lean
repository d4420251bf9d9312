import GoblinStore.Common.Types
import GoblinStore.Lib.Ring
import GoblinStore.Lib.Runs
import Mathlib.Algebra.GroupWithZero.Nat

/-!
# `striped_read` on one ring

A worker makes one `striped_read` call after the other on its own ring. All reads carry the same
user data, so a call takes whatever completions it reaps for its own. The call returns early when
the submission queue stays full and when it reaps a negative result; what it has queued by then
stays on the ring, and the next call counts it (`striped_read_leaves_read`). If neither happens
while reads are outstanding, every call returns with an empty ring and has counted its own reads
once each.
-/

namespace GoblinStore

open GoblinStore.Lib

namespace Core

/-- A queued read. The number of the `striped_read` call and of the segment are ghosts. -/
structure Request where
  userData : Nat
  call : Nat
  seg : Nat
  deriving DecidableEq, Repr

/-- The ring of a worker. -/
abbrev Reactor := Lib.Ring Request

/-- The user data of the internal completions of `wait_cqe_timeout`. -/
def kUdataTimeout : Nat := wrap64 - 1

/-- The loop of `reap`: up to `n` completions, without the internal ones. -/
def reapLoop : List (Request × Int) → Nat → List (Request × Int) × List (Request × Int)
  | [], _ => ([], [])
  | c :: rest, 0 => ([], c :: rest)
  | c :: rest, n + 1 =>
      if c.1.userData = kUdataTimeout then reapLoop rest (n + 1)
      else
        let reaped := reapLoop rest n
        (c :: reaped.1, reaped.2)

/-- Drain up to `n` completions. -/
def Reactor.reap (reactor : Reactor) (n : Nat) : List (Request × Int) × Reactor :=
  let reaped := reapLoop reactor.ready n
  (reaped.1, { reactor with ready := reaped.2 })

theorem reap_loop_reads {ready : List (Request × Int)}
    (h : ∀ c ∈ ready, c.1.userData = 0) (n : Nat) :
    reapLoop ready n = (ready.take n, ready.drop n) := by
  induction ready generalizing n with
  | nil => simp [reapLoop]
  | cons c rest ih =>
      cases n with
      | zero => rfl
      | succ n =>
          have hread : c.1.userData ≠ kUdataTimeout := by
            rw [h c List.mem_cons_self]
            decide
          rw [reapLoop, if_neg hread, ih (fun c' hc' => h c' (List.mem_cons_of_mem _ hc')) n]
          rfl

/-- Where only reads are outstanding, `reap` takes the oldest completions. -/
theorem Reactor.reap_eq_pop {reactor : Reactor}
    (h : ∀ request ∈ reactor.outstanding, request.userData = 0) (n : Nat) :
    Reactor.reap reactor n = reactor.pop n := by
  have hready : ∀ c ∈ reactor.ready, c.1.userData = 0 := fun c hc =>
    h c.1 (List.mem_append_right _ (List.mem_map_of_mem hc))
  unfold reap Lib.Ring.pop
  rw [reap_loop_reads hready]

end Core

open GoblinStore.Core

/-- Where a `striped_read` call is: queueing its reads, about to wait or to reap after some
completions, or done. -/
inductive ReadPhase where
  | queueing (next : Nat)
  | waiting (got total : Nat)
  | reaping (got total : Nat)
  | returned (result : Except Errc Nat)

/-- A worker in its last call. -/
structure Worker where
  reactor : Reactor
  /-- ghost: the number of the call -/
  call : Nat
  segs : Nat
  phase : ReadPhase
  /-- ghost: the completions that the call has counted -/
  counted : List (Request × Int)

namespace Worker

/-- A worker before its first call. -/
def init (entries : Nat) : Worker := ⟨Lib.Ring.create entries, 0, 0, .returned (.ok 0), []⟩

/-- The read of a segment. -/
def request (w : Worker) (seg : Nat) : Request := ⟨0, w.call, seg⟩

/-- Enter `striped_read` with a plan of `segs` segments. -/
def enter (w : Worker) (segs : Nat) : Worker :=
  { w with
    call := w.call + 1
    segs := segs
    phase := if segs = 0 then .returned (.ok 0) else .queueing 0
    counted := [] }

/-- Queue the read of segment `next`; if the queue is full, flush it and retry once. The kernel
takes `flushed` reads at the flush. -/
def queue (w : Worker) (next flushed : Nat) : Worker :=
  match w.reactor.push (w.request next) with
  | (true, reactor) => { w with reactor := reactor, phase := .queueing (next + 1) }
  | (false, _) =>
      let reactor := w.reactor.submit flushed
      match reactor.push (w.request next) with
      | (true, reactor) => { w with reactor := reactor, phase := .queueing (next + 1) }
      | (false, _) => { w with reactor := reactor, phase := .returned (.error .ioError) }

/-- One iteration of the reap loop. -/
def reap (w : Worker) (got total : Nat) : Worker :=
  let reaped := Reactor.reap w.reactor w.segs
  let comps := reaped.1
  if comps = [] then { w with reactor := reaped.2, phase := .waiting got total }
  else if ∃ c ∈ comps, c.2 < 0 then
    { w with reactor := reaped.2, phase := .returned (.error .ioError) }
  else
    let got := got + comps.length
    let total := total + (comps.map fun c => c.2.toNat).sum
    { w with
      reactor := reaped.2
      counted := w.counted ++ comps
      phase := if got < w.segs then .reaping got total else .returned (.ok total) }

end Worker

/-- A step of the worker or of the kernel: a new call; the next read is queued; the worker waits,
when the kernel takes some queued reads; a read ends; the worker reaps. A wait may end early. -/
inductive RingEvent where
  | call (segs : Nat)
  | queue (flushed : Nat)
  | wait (taken : Nat)
  | finish (i : Nat) (res : Int)
  | reap

/-- One event; events that do not fit the phase of the call do not happen. -/
def Worker.step (w : Worker) : RingEvent → Worker
  | .call segs =>
      match w.phase with
      | .returned _ => w.enter segs
      | _ => w
  | .queue flushed =>
      match w.phase with
      | .queueing next => if next < w.segs then w.queue next flushed else w
      | _ => w
  | .wait taken =>
      match w.phase with
      | .queueing next =>
          if next < w.segs then w else { w with
            reactor := w.reactor.submit taken, phase := .reaping 0 0 }
      | .waiting got total =>
          { w with reactor := w.reactor.submit taken, phase := .reaping got total }
      | _ => w
  | .finish i res => { w with reactor := w.reactor.finish i res }
  | .reap =>
      match w.phase with
      | .reaping got total => w.reap got total
      | _ => w

/-- A flush of a full queue makes room, unless the call has nothing queued yet; and a call that
reaps a negative result reaps all its remaining completions with it. -/
def Orderly (w : Worker) : RingEvent → Prop
  | .queue flushed =>
      match w.phase with
      | .queueing next => next = 0 ∨ w.reactor.queued.length < w.reactor.entries ∨
          (w.reactor.submit flushed).queued.length < w.reactor.entries
      | _ => True
  | .reap =>
      match w.phase with
      | .reaping got _ => (∃ c ∈ (Reactor.reap w.reactor w.segs).1, c.2 < 0) →
          got + (Reactor.reap w.reactor w.segs).1.length = w.segs
      | _ => True
  | _ => True

/-- What a call that has returned leaves behind: nothing on the ring; and what it has counted are
its own reads, all of them if it succeeded. -/
structure Worker.Clean (w : Worker) : Prop where
  ring : ∀ result, w.phase = .returned result → w.reactor.outstanding = []
  own : ∀ c ∈ w.counted, c.1.call = w.call
  all : ∀ total, w.phase = .returned (.ok total) →
    (w.counted.map Prod.fst).Perm ((List.range w.segs).map w.request)

namespace Worker

variable {w : Worker}

/-- The reads of the call under way: on the ring, or counted. -/
def Tracks (w : Worker) : ReadPhase → Prop
  | .queueing next => 0 < w.segs ∧ next ≤ w.segs ∧ w.counted = [] ∧
      w.reactor.outstanding.Perm ((List.range next).map w.request)
  | .waiting got _ | .reaping got _ => got = w.counted.length ∧ got < w.segs ∧
      (w.counted.map Prod.fst ++ w.reactor.outstanding).Perm ((List.range w.segs).map w.request)
  | .returned result => w.reactor.outstanding = [] ∧ (∀ c ∈ w.counted, c.1.call = w.call) ∧
      ∀ total, result = .ok total → (w.counted.map Prod.fst).Perm
      ((List.range w.segs).map w.request)

theorem mem_requests {n : Nat} {r : Request} (h : r ∈ (List.range n).map w.request) :
    r.userData = 0 ∧ r.call = w.call := by
  obtain ⟨seg, -, rfl⟩ := List.mem_map.1 h
  exact ⟨rfl, rfl⟩

/-- A call counts its own reads only. -/
theorem Tracks.clean (h : w.Tracks w.phase) : w.Clean where
  ring result hphase := by
    rw [hphase] at h
    exact h.1
  own c hc := by
    cases hphase : w.phase with
    | queueing next =>
        rw [hphase] at h
        rw [h.2.2.1] at hc
        cases hc
    | returned result =>
        rw [hphase] at h
        exact h.2.1 c hc
    | _ =>
        rw [hphase] at h
        have hmem := h.2.2.subset (List.mem_append_left _ (List.mem_map_of_mem hc))
        exact (mem_requests hmem).2
  all total hphase := by
    rw [hphase] at h
    exact h.2.2 total rfl

theorem Tracks.queue {next flushed : Nat} (h : w.Tracks (.queueing next)) (hnext : next < w.segs)
    (horderly : next = 0 ∨ w.reactor.queued.length < w.reactor.entries ∨
      (w.reactor.submit flushed).queued.length < w.reactor.entries) :
    (w.queue next flushed).Tracks (w.queue next flushed).phase := by
  obtain ⟨hpos, -, hcounted, hring⟩ := h
  have hpushed : ∀ reactor reactor' : Reactor,
      reactor.outstanding.Perm ((List.range next).map w.request) →
      reactor.push (w.request next) = (true, reactor') →
      Tracks { w with
        reactor := reactor', phase := .queueing (next + 1) } (.queueing (next + 1)) := by
    intro reactor reactor' hperm hpush
    refine ⟨hpos, hnext, hcounted, (Lib.Ring.outstanding_push hpush).trans ?_⟩
    rw [List.range_succ, List.map_append]
    exact (hperm.cons _).trans (List.perm_append_singleton _ _).symm
  unfold Worker.queue
  cases hpush : w.reactor.push (w.request next) with
  | mk ok reactor =>
      cases ok with
      | true => exact hpushed _ _ hring hpush
      | false =>
          have hfull := (Lib.Ring.push_full hpush).1
          have hflush := (Lib.Ring.outstanding_submit w.reactor flushed).trans hring
          dsimp only
          cases hretry : (w.reactor.submit flushed).push (w.request next) with
          | mk ok reactor =>
              cases ok with
              | true => exact hpushed _ _ hflush hretry
              | false =>
                  -- the queue can only stay full when the call has queued nothing
                  have hstill := (Lib.Ring.push_full hretry).1
                  have hzero : next = 0 := by
                    rcases horderly with hzero | hroom | hroom
                    · exact hzero
                    · omega
                    · exact absurd hroom (Nat.not_lt.2 hstill)
                  subst hzero
                  refine ⟨hflush.eq_nil, fun c hc => ?_, nofun⟩
                  dsimp only at hc
                  rw [hcounted] at hc
                  cases hc

/-- Waiting submits what is queued. -/
theorem Tracks.submit {got total taken : Nat} (h : w.Tracks (.waiting got total)) :
    Tracks { w with
      reactor := w.reactor.submit taken, phase := .reaping got total } (.reaping got total) :=
  ⟨h.1, h.2.1, (List.Perm.append_left _ (Lib.Ring.outstanding_submit w.reactor taken)).trans h.2.2⟩

theorem Tracks.reap {got total : Nat} (h : w.Tracks (.reaping got total))
    (horderly : (∃ c ∈ (Reactor.reap w.reactor w.segs).1, c.2 < 0) →
      got + (Reactor.reap w.reactor w.segs).1.length = w.segs) :
    (w.reap got total).Tracks (w.reap got total).phase := by
  obtain ⟨hgot, hlt, hring⟩ := h
  have hreads : ∀ r ∈ w.reactor.outstanding, r.userData = 0 := fun r hr =>
    (mem_requests (hring.subset (List.mem_append_right _ hr))).1
  have hpop := Lib.Ring.outstanding_pop w.reactor w.segs
  rw [← Reactor.reap_eq_pop hreads] at hpop
  generalize hreaped : Reactor.reap w.reactor w.segs = reaped at horderly hpop
  obtain ⟨comps, reactor⟩ := reaped
  dsimp only at horderly hpop
  -- what was counted, what is reaped now and what stays on the ring are the reads of the call
  have hall : (w.counted.map Prod.fst ++ (comps.map Prod.fst ++ reactor.outstanding)).Perm
      ((List.range w.segs).map w.request) := (List.Perm.append_left _ hpop).trans hring
  have hlen : w.counted.length + (comps.length + reactor.outstanding.length) = w.segs := by
    simpa using hall.length_eq
  have hempty : got + comps.length = w.segs → reactor.outstanding = [] := fun hend =>
    List.length_eq_zero_iff.1 (by omega)
  have hown : ∀ c ∈ w.counted ++ comps, c.1.call = w.call := by
    intro c hc
    refine (mem_requests (hall.subset ?_)).2
    rcases List.mem_append.1 hc with hold | hnew
    · exact List.mem_append_left _ (List.mem_map_of_mem hold)
    · exact List.mem_append_right _ (List.mem_append_left _ (List.mem_map_of_mem hnew))
  unfold Worker.reap
  rw [hreaped]
  dsimp only
  split_ifs with hnone hneg hmore
  · refine ⟨hgot, hlt, ?_⟩
    subst hnone
    exact hall
  · exact ⟨hempty (horderly hneg), fun c hc => hown c (List.mem_append_left _ hc), nofun⟩
  · refine ⟨?_, hmore, ?_⟩
    · dsimp only
      rw [List.length_append, hgot]
    · dsimp only
      rw [List.map_append, List.append_assoc]
      exact hall
  · have hend : reactor.outstanding = [] := hempty (by omega)
    refine ⟨hend, hown, fun _ _ => ?_⟩
    dsimp only
    rw [hend, List.append_nil] at hall
    rw [List.map_append]
    exact hall

theorem Tracks.step (h : w.Tracks w.phase) {event : RingEvent} (horderly : Orderly w event) :
    (w.step event).Tracks (w.step event).phase := by
  cases event with
  | call segs =>
      unfold Worker.step
      cases hphase : w.phase with
      | returned result =>
          rw [hphase] at h
          unfold Worker.enter
          dsimp only
          split_ifs with hzero
          · refine ⟨h.1, nofun, fun _ _ => ?_⟩
            dsimp only
            rw [hzero]
            exact List.Perm.refl _
          · refine ⟨Nat.pos_of_ne_zero hzero, Nat.zero_le _, rfl, ?_⟩
            dsimp only
            rw [h.1]
            exact List.Perm.refl _
      | _ => exact h
  | queue flushed =>
      unfold Worker.step
      unfold Orderly at horderly
      cases hphase : w.phase with
      | queueing next =>
          rw [hphase] at h horderly
          dsimp only
          split_ifs with hnext
          · exact h.queue hnext horderly
          · rw [hphase]
            exact h
      | _ => exact h
  | wait taken =>
      unfold Worker.step
      cases hphase : w.phase with
      | queueing next =>
          have hkeep := h
          rw [hphase] at h
          dsimp only
          split_ifs with hnext
          · exact hkeep
          · -- all segments are queued: from here on the ring holds exactly what is not yet reaped
            obtain ⟨hpos, hle, hcounted, hring⟩ := h
            have heq : next = w.segs := by omega
            rw [heq] at hring
            refine ⟨?_, hpos, ?_⟩
            · dsimp only
              rw [hcounted]
              rfl
            · dsimp only
              rw [hcounted]
              exact (Lib.Ring.outstanding_submit w.reactor taken).trans hring
      | waiting got total =>
          rw [hphase] at h
          exact h.submit
      | _ => exact h
  | finish i res =>
      -- a completion moves an entry and leaves what is outstanding, in every phase
      have hperm := Lib.Ring.outstanding_finish w.reactor i res
      unfold Worker.step
      dsimp only
      cases hphase : w.phase with
      | queueing next =>
          rw [hphase] at h
          exact ⟨h.1, h.2.1, h.2.2.1, hperm.trans h.2.2.2⟩
      | returned result =>
          rw [hphase] at h
          exact ⟨(h.1 ▸ hperm).eq_nil, h.2⟩
      | _ =>
          rw [hphase] at h
          exact ⟨h.1, h.2.1, (List.Perm.append_left _ hperm).trans h.2.2⟩
  | reap =>
      unfold Worker.step
      unfold Orderly at horderly
      cases hphase : w.phase with
      | reaping got total =>
          rw [hphase] at h horderly
          exact h.reap horderly
      | _ => exact h

end Worker

/-- In every orderly run of calls on one ring: a call that has returned, with or without an error,
leaves nothing on the ring, and every call counts its own reads only, all of them if it succeeds. -/
theorem striped_read_leaves_ring_clean (entries : Nat) (events : List RingEvent)
    (horderly : Allowed Worker.step Orderly (Worker.init entries) events) :
    (run Worker.step (Worker.init entries) events).Clean := by
  have hstart : (Worker.init entries).Tracks (Worker.init entries).phase :=
    ⟨rfl, nofun, fun _ _ => List.Perm.refl _⟩
  have htracks := invariant_run (I := fun w : Worker => w.Tracks w.phase)
    (fun w event hok h => Worker.Tracks.step h hok) hstart horderly
  exact htracks.clean

/-- Two reads, of which the first fails and both are reaped. -/
def failTogether : List RingEvent :=
  [.call 2, .queue 0, .queue 0, .wait 2, .finish 0 (-5), .finish 0 4096, .reap]

theorem striped_read_leaves_ring_clean_failed :
    (run Worker.step (Worker.init 256) failTogether).Clean := by
  refine striped_read_leaves_ring_clean 256 failTogether
    ⟨trivial, Or.inl rfl, Or.inr (Or.inl ?_), trivial, trivial, trivial, fun _ => ?_, trivial⟩
  · decide
  · decide

/-- The wait for two reads ends when one of them has failed. -/
def failAlone : List RingEvent :=
  [.call 2, .queue 0, .queue 0, .wait 2, .finish 0 (-5), .reap]

/-- A call for one segment follows; the read that was left behind ends first. -/
def nextCall : List RingEvent := [.call 1, .queue 0, .wait 1, .finish 0 4096, .reap]

/-- The failed call leaves its second read on the ring. The next call takes that read's completion
for its own and returns success while its own read has not ended. -/
theorem striped_read_leaves_read :
    (run Worker.step (Worker.init 256) failAlone).phase = .returned (.error .ioError) ∧
      (run Worker.step (Worker.init 256) failAlone).reactor.outstanding = [⟨0, 1, 1⟩] ∧
      (run Worker.step (Worker.init 256) (failAlone ++ nextCall)).phase = .returned (.ok 4096) ∧
      (run Worker.step (Worker.init 256) (failAlone ++ nextCall)).counted = [(⟨0, 1, 1⟩, 4096)] ∧
      (run Worker.step (Worker.init 256) (failAlone ++ nextCall)).reactor.inFlight = [⟨0, 2, 0⟩] :=
  ⟨rfl, rfl, rfl, rfl, rfl⟩

end GoblinStore
