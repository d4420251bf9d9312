import GoblinStore.Storage.Reads
import GoblinStore.Storage.StripedRead

/-!
# `TierManager::read` on a ring

A `read` call makes one `striped_read` per tier, on the ring of its worker, and returns the length
it was going to deliver if neither of them fails. What the calls return otherwise is not looked at,
so a read that the kernel cuts short is delivered like a whole one (`short_read_counted`). If no
read is cut short before the last byte that is needed from it, and the calls leave the ring clean,
every delivered byte was brought by the read that is responsible for it.
-/

namespace GoblinStore

open GoblinStore.Lib GoblinStore.Core

/-- Where a `read` call is: in the `striped_read` of a tier, or done. -/
inductive ReadStage where
  | tier (tier : Tier)
  | done (result : Except Errc Nat)

/-- A worker and its last `read` call. -/
structure TierRead where
  worker : Worker
  task : ReadTask
  stage : ReadStage
  /-- ghost: the reads that the finished `striped_read` calls of the call have counted -/
  log : List (Seg × Int)

namespace TierRead

/-- A worker before its first call. -/
def init (entries : Nat) : TierRead :=
  ⟨Worker.init entries, ⟨0, fun _ => 0, [], []⟩, .done (.ok 0), []⟩

/-- The segments that the current `striped_read` reads. -/
def segs (r : TierRead) : List Seg :=
  match r.stage with
  | .tier .ssd => r.task.ssd
  | .tier .hdd => r.task.hdd
  | .done _ => []

/-- The reads that the `striped_read` has counted. -/
def counted (r : TierRead) : List (Seg × Int) :=
  r.worker.counted.filterMap fun c => r.segs[c.1.seg]?.map fun seg => (seg, c.2)

/-- Enter the `striped_read` of a tier. -/
def enter (r : TierRead) (tier : Tier) (log : List (Seg × Int)) : TierRead :=
  { r with
    worker := r.worker.enter (match tier with | .ssd => r.task.ssd | .hdd => r.task.hdd).length
    stage := .tier tier
    log := log }

/-- Go on when the `striped_read` has returned. -/
def advance (r : TierRead) : TierRead :=
  match r.stage, r.worker.phase with
  | .tier _, .returned (.error e) => { r with stage := .done (.error e) }
  | .tier .ssd, .returned (.ok _) => r.enter .hdd (r.log ++ r.counted)
  | .tier .hdd, .returned (.ok _) =>
      { r with stage := .done (.ok r.task.want), log := r.log ++ r.counted }
  | _, _ => r

end TierRead

/-- A step: the locked part of a new call has left this task, or something happens on the ring. -/
inductive TierReadEvent where
  | read (task : ReadTask)
  | ring (event : RingEvent)

namespace TierRead

/-- One event. A tier without segments is passed at once. -/
def step (r : TierRead) : TierReadEvent → TierRead
  | .read task =>
      match r.stage with
      | .done _ => (enter { r with task := task } .ssd []).advance.advance
      | .tier _ => r
  | .ring (.call _) => r
  | .ring event => { r with worker := r.worker.step event }.advance.advance

/-- The number of bytes that are needed from a read. -/
def need (task : ReadTask) (seg : Seg) : Nat := min seg.len (task.want - seg.outOff)

/-- The calls leave the ring clean, and a read fails or brings all that is needed from it. -/
def Whole (r : TierRead) : TierReadEvent → Prop
  | .ring event => Orderly r.worker event ∧ match event with
      | .finish i res => ∀ request ∈ r.worker.reactor.inFlight[i]?, ∀ seg ∈ r.segs[request.seg]?,
          res < 0 ∨ (need r.task seg : Int) ≤ res
      | _ => True
  | .read _ => True

end TierRead

/-! ## Results -/

namespace Core

theorem mem_reap_loop {ready : List (Request × Int)} {n : Nat} {c : Request × Int}
    (h : c ∈ (reapLoop ready n).1 ∨ c ∈ (reapLoop ready n).2) : c ∈ ready := by
  induction ready generalizing n with
  | nil =>
      cases n <;> rcases h with h | h <;> cases h
  | cons c' rest ih =>
      cases n with
      | zero => exact h.resolve_left nofun
      | succ n =>
          rw [reapLoop] at h
          split_ifs at h
          · exact List.mem_cons_of_mem _ (ih h)
          · rcases h with h | h
            · rcases List.mem_cons.1 h with rfl | h
              · exact List.mem_cons_self
              · exact List.mem_cons_of_mem _ (ih (Or.inl h))
            · exact List.mem_cons_of_mem _ (ih (Or.inr h))

end Core

namespace Worker

variable {w : Worker}

/-- The results that the call has counted, and those that wait to be reaped. -/
def results (w : Worker) : List (Request × Int) := w.counted ++ w.reactor.ready

theorem push_ready {ring ring' : Reactor} {request : Request} {ok : Bool}
    (h : ring.push request = (ok, ring')) :
    ring'.ready = ring.ready := by
  unfold Lib.Ring.push at h
  split_ifs at h <;> cases h <;> rfl

theorem queue_frame (w : Worker) (next flushed : Nat) : (w.queue next flushed).results = w.results ∧
    (w.queue next flushed).counted = w.counted ∧ (w.queue next flushed).segs = w.segs := by
  unfold queue
  split
  · rename_i reactor hpush
    exact ⟨congrArg (w.counted ++ ·) (push_ready hpush), rfl, rfl⟩
  · dsimp only
    split
    · rename_i reactor hpush
      have hready : reactor.ready = (w.reactor.submit flushed).ready := push_ready hpush
      exact ⟨congrArg (w.counted ++ ·) hready, rfl, rfl⟩
    · exact ⟨rfl, rfl, rfl⟩

theorem reap_frame (w : Worker) (got total : Nat) :
    (∀ c ∈ (w.reap got total).results, c ∈ w.results) ∧
      (∀ c ∈ (w.reap got total).counted, c ∈ w.counted ∨ 0 ≤ c.2) ∧
      (w.reap got total).segs = w.segs := by
  have hready : ∀ c, c ∈ (Reactor.reap w.reactor w.segs).1 ∨
      c ∈ (Reactor.reap w.reactor w.segs).2.ready →
      c ∈ w.results := fun c hc => List.mem_append_right _ (mem_reap_loop hc)
  have hold : ∀ c ∈ w.counted, c ∈ w.results := fun c hc => List.mem_append_left _ hc
  have hkept : ∀ c, c ∈ w.counted ++ (Reactor.reap w.reactor w.segs).2.ready →
      c ∈ w.results := fun c hc =>
    (List.mem_append.1 hc).elim (hold c) fun hc => hready c (Or.inr hc)
  unfold reap
  dsimp only
  by_cases hnone : (Reactor.reap w.reactor w.segs).1 = []
  · rw [if_pos hnone]
    exact ⟨hkept, fun c hc => Or.inl hc, rfl⟩
  rw [if_neg hnone]
  by_cases hneg : ∃ c ∈ (Reactor.reap w.reactor w.segs).1, c.2 < 0
  · rw [if_pos hneg]
    exact ⟨hkept, fun c hc => Or.inl hc, rfl⟩
  rw [if_neg hneg]
  refine ⟨fun c hc => ?_, fun c hc => ?_, rfl⟩
  · rcases List.mem_append.1 hc with hc | hc
    · exact (List.mem_append.1 hc).elim (hold c) fun hc => hready c (Or.inl hc)
    · exact hready c (Or.inr hc)
  · refine (List.mem_append.1 hc).imp_right fun hnew => ?_
    exact Int.not_lt.1 fun hlt => hneg ⟨c, hnew, hlt⟩

/-- What an event adds to the results: a read that ends adds one, and the call counts no
failures. -/
structure Adds (w : Worker) (event : RingEvent) (w' : Worker) : Prop where
  results : ∀ c ∈ w'.results, c ∈ w.results ∨ ∃ i res request, event = .finish i res ∧
    w.reactor.inFlight[i]? = some request ∧ c = (request, res)
  counted : ∀ c ∈ w'.counted, c ∈ w.counted ∨ 0 ≤ c.2
  segs : w'.segs = w.segs

theorem Adds.nothing {event : RingEvent} {w' : Worker} (hresults : w'.results = w.results)
    (hcounted : w'.counted = w.counted) (hsegs : w'.segs = w.segs) : w.Adds event w' where
  results _ hc := Or.inl (hresults ▸ hc)
  counted _ hc := Or.inl (hcounted ▸ hc)
  segs := hsegs

theorem step_adds (w : Worker) {event : RingEvent} (hcall : ∀ segs, event ≠ .call segs) :
    w.Adds event (w.step event) := by
  cases event with
  | call segs => exact absurd rfl (hcall segs)
  | queue flushed =>
      rw [step]
      split
      · rename_i next hphase
        split_ifs
        · obtain ⟨hresults, hcounted, hsegs⟩ := w.queue_frame next flushed
          exact .nothing hresults hcounted hsegs
        · exact .nothing rfl rfl rfl
      · exact .nothing rfl rfl rfl
  | wait taken =>
      rw [step]
      split
      · split_ifs
        · exact .nothing rfl rfl rfl
        · exact .nothing rfl rfl rfl
      · exact .nothing rfl rfl rfl
      · exact .nothing rfl rfl rfl
  | finish i res =>
      refine ⟨fun c hc => ?_, fun c hc => Or.inl hc, rfl⟩
      rw [step, Worker.results, Lib.Ring.finish] at hc
      cases hrequest : w.reactor.inFlight[i]? with
      | none =>
          rw [hrequest] at hc
          exact Or.inl hc
      | some request =>
          rw [hrequest] at hc
          dsimp only at hc
          rw [← List.append_assoc] at hc
          refine (List.mem_append.1 hc).imp_right fun hnew => ?_
          exact ⟨i, res, request, rfl, hrequest, List.mem_singleton.1 hnew⟩
  | reap =>
      rw [step]
      split
      · rename_i got total hphase
        obtain ⟨hresults, hcounted, hsegs⟩ := w.reap_frame got total
        exact ⟨fun c hc => Or.inl (hresults c hc), hcounted, hsegs⟩
      · exact .nothing rfl rfl rfl

end Worker

/-! ## The call -/

namespace TierRead

/-- The finished `striped_read` calls have read all their segments. -/
def Read (task : ReadTask) (log : List (Seg × Int)) : ReadStage → Prop
  | .tier .ssd => True
  | .tier .hdd => ∀ seg ∈ task.ssd, ∃ res, (seg, res) ∈ log
  | .done (.ok n) => n = task.want ∧ ∀ seg ∈ task.ssd ++ task.hdd, ∃ res, (seg, res) ∈ log
  | .done (.error _) => True

/-- No result falls short of what is needed. -/
structure Inv (r : TierRead) : Prop where
  tracks : r.worker.Tracks r.worker.phase
  call : ∀ tier, r.stage = .tier tier → r.worker.segs = r.segs.length
  enough : ∀ c ∈ r.worker.results, ∀ seg ∈ r.segs[c.1.seg]?, c.2 < 0 ∨ (need r.task seg : Int) ≤ c.2
  fine : ∀ c ∈ r.worker.counted, 0 ≤ c.2
  logged : ∀ e ∈ r.log, (need r.task e.1 : Int) ≤ e.2
  read : Read r.task r.log r.stage
  idle : ∀ result, r.stage = .done result → ∃ result', r.worker.phase = .returned result'

variable {r : TierRead}

/-- What a `striped_read` that succeeds has counted. -/
theorem Inv.counted (h : r.Inv) {tier : Tier} (hstage : r.stage = .tier tier) {total : Nat}
    (hphase : r.worker.phase = .returned (.ok total)) :
    (∀ e ∈ r.log ++ r.counted, (need r.task e.1 : Int) ≤ e.2) ∧
      ∀ seg ∈ r.segs, ∃ res, (seg, res) ∈ r.counted := by
  refine ⟨fun e he => ?_, fun seg hseg => ?_⟩
  · rcases List.mem_append.1 he with hold | hnew
    · exact h.logged e hold
    · obtain ⟨c, hc, heq⟩ := List.mem_filterMap.1 hnew
      obtain ⟨seg, hseg, rfl⟩ := Option.map_eq_some_iff.1 heq
      have hfine := h.fine c hc
      exact (h.enough c (List.mem_append_left _ hc) seg hseg).resolve_left (Int.not_lt.2 hfine)
  · obtain ⟨j, hj, rfl⟩ := List.getElem_of_mem hseg
    have hperm := h.tracks.clean.all total hphase
    have hmem : r.worker.request j ∈ r.worker.counted.map Prod.fst := by
      refine hperm.mem_iff.2 (List.mem_map_of_mem (List.mem_range.2 ?_))
      rw [h.call tier hstage]
      exact hj
    obtain ⟨c, hc, hrequest⟩ := List.mem_map.1 hmem
    refine ⟨c.2, List.mem_filterMap.2 ⟨c, hc, ?_⟩⟩
    rw [hrequest]
    show r.segs[j]?.map _ = _
    rw [List.getElem?_eq_getElem hj]
    rfl

/-- Entering the `striped_read` of a tier. -/
theorem enter_inv (htracks : r.worker.Tracks r.worker.phase) {result : Except Errc Nat}
    (hphase : r.worker.phase = .returned result) {tier : Tier} {log : List (Seg × Int)}
    (hlogged : ∀ e ∈ log, (need r.task e.1 : Int) ≤ e.2) (hread : Read r.task log (.tier tier)) :
    (r.enter tier log).Inv := by
  have hring := htracks.clean.ring result hphase
  have hready : r.worker.reactor.ready = [] := by
    have hnil := (List.append_eq_nil_iff.1 hring).2
    exact List.map_eq_nil_iff.1 hnil
  have hstep : ∀ n, (r.worker.enter n).Tracks (r.worker.enter n).phase := fun n => by
    have horderly : Orderly r.worker (.call n) := trivial
    have hnext := htracks.step horderly
    rw [Worker.step, hphase] at hnext
    exact hnext
  refine ⟨hstep _, fun tier' htier => ?_, fun c hc => ?_, nofun, hlogged, hread, nofun⟩
  · cases tier with
    | ssd => rfl
    | hdd => rfl
  · change c ∈ [] ++ r.worker.reactor.ready at hc
    rw [hready] at hc
    cases hc

theorem Inv.advance (h : r.Inv) : r.advance.Inv := by
  unfold TierRead.advance
  split
  · rename_i tier e hstage hphase
    exact ⟨h.tracks, nofun, nofun, h.fine, h.logged, trivial, fun _ _ => ⟨_, hphase⟩⟩
  · rename_i total hstage hphase
    obtain ⟨hlogged, hall⟩ := h.counted hstage hphase
    refine enter_inv h.tracks hphase hlogged fun seg hseg => ?_
    have hsegs : r.segs = r.task.ssd := by rw [segs, hstage]
    obtain ⟨res, hres⟩ := hall seg (hsegs ▸ hseg)
    exact ⟨res, List.mem_append_right _ hres⟩
  · rename_i total hstage hphase
    obtain ⟨hlogged, hall⟩ := h.counted hstage hphase
    refine ⟨h.tracks, nofun, nofun, h.fine, hlogged,
      ⟨rfl, fun seg hseg => ?_⟩, fun _ _ => ⟨_, hphase⟩⟩
    have hsegs : r.segs = r.task.hdd := by rw [segs, hstage]
    have hread := h.read
    rw [hstage] at hread
    rcases List.mem_append.1 hseg with hssd | hhdd
    · obtain ⟨res, hres⟩ := hread seg hssd
      exact ⟨res, List.mem_append_left _ hres⟩
    · obtain ⟨res, hres⟩ := hall seg (hsegs ▸ hhdd)
      exact ⟨res, List.mem_append_right _ hres⟩
  · exact h

/-- A call that has returned does not go on by itself. -/
theorem step_returned {w : Worker} {result : Except Errc Nat} (h : w.phase = .returned result)
    {event : RingEvent} (hcall : ∀ segs, event ≠ .call segs) :
    (w.step event).phase = .returned result := by
  cases event with
  | call segs => exact absurd rfl (hcall segs)
  | finish i res => exact h
  | _ =>
      rw [Worker.step, h]
      exact h

theorem Inv.ring (h : r.Inv) {event : RingEvent} (hcall : ∀ segs, event ≠ .call segs)
    (hwhole : r.Whole (.ring event)) :
    Inv { r with worker := r.worker.step event } := by
  obtain ⟨horderly, hres⟩ := hwhole
  have hadds := r.worker.step_adds hcall
  refine ⟨h.tracks.step horderly, fun tier hstage => hadds.segs.trans (h.call tier hstage),
    fun c hc seg hseg => ?_, fun c hc => (hadds.counted c hc).elim (h.fine c) id, h.logged, h.read,
    fun result hstage => ?_⟩
  · rcases hadds.results c hc with hold | ⟨i, res, request, rfl, hrequest, rfl⟩
    · exact h.enough c hold seg hseg
    · exact hres request hrequest seg hseg
  · obtain ⟨result', hphase⟩ := h.idle result hstage
    exact ⟨result', step_returned hphase hcall⟩

theorem Inv.step (h : r.Inv) {event : TierReadEvent} (hwhole : r.Whole event) :
    (r.step event).Inv := by
  cases event with
  | read task =>
      rw [TierRead.step]
      split
      · rename_i result hstage
        obtain ⟨result', hphase⟩ := h.idle result hstage
        have hread : Read task [] (.tier .ssd) := trivial
        exact (enter_inv (r := { r with task := task }) h.tracks hphase (fun e he => (by cases he))
          hread).advance.advance
      · exact h
  | ring event =>
      cases event with
      | call segs => exact h
      | _ => exact (h.ring (fun segs hcall => by cases hcall) hwhole).advance.advance

theorem init_inv (entries : Nat) : (init entries).Inv :=
  ⟨⟨rfl, fun c hc => (by cases hc), fun _ _ => List.Perm.refl _⟩,
    fun tier hstage => (by cases hstage), nofun, nofun, nofun,
    ⟨rfl, nofun⟩, fun _ _ => ⟨_, rfl⟩⟩

/-- The worker after some events. -/
def after (entries : Nat) (events : List TierReadEvent) : TierRead := run step (init entries) events

/-- A `read` call that succeeds returns its length, and each byte in it that a read is responsible
for was brought by that read. -/
theorem whole_read_counted {entries : Nat} {events : List TierReadEvent}
    (h : Allowed step Whole (init entries) events) {n : Nat}
    (hdone : (after entries events).stage = .done (.ok n)) {seg : Seg}
    (hseg : seg ∈ (after entries events).task.ssd ++ (after entries events).task.hdd) {p : Nat}
    (hlo : seg.outOff ≤ p) (hhi : p < seg.outOff + seg.len) (hp : p < n) :
    ∃ res, (seg, res) ∈ (after entries events).log ∧ ((p - seg.outOff : Nat) : Int) < res := by
  have hinv : (after entries events).Inv :=
    invariant_run (I := Inv) (fun _ _ hok hr => hr.step hok) (init_inv entries) h
  have hread := hinv.read
  rw [hdone] at hread
  obtain ⟨rfl, hall⟩ := hread
  obtain ⟨res, hres⟩ := hall seg hseg
  have hneed := hinv.logged _ hres
  unfold need at hneed
  refine ⟨res, hres, ?_⟩
  dsimp only at hneed
  omega

end TierRead

end GoblinStore
