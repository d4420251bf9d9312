import GoblinStore.Net.LaneInvariant

/-!
# The pump of the GET pipeline

`pump_stream` is called whenever a lane may be sent from or read into. An iteration starts the send
of the next piece if it is ready, plans and reads another piece if a lane is free, and ends the
value once all of it is sent. `Flow` is what it needs of its caller and keeps; when it stops, the
connection is again between two events (`Flow.pump_stream`), and it stops after at most four
iterations that start something (`pump_loop_fuel`).
-/

namespace GoblinStore.Net

open GoblinStore.Lib GoblinStore.Core

variable {P : Type}

/-! ## The queue of pieces -/

theorem lane_succ_ne : ∀ i : Fin 2, i + 1 ≠ i := by decide

theorem lane_val_succ : ∀ i : Fin 2, (i + 1).val = (i.val + 1) % 2 := by decide

theorem lane_succ_succ : ∀ i : Fin 2, ((i + 1).val + 1) % 2 = i.val := by decide

theorem eq_lane_of_ne : ∀ i j : Fin 2, i ≠ j → i = j + 1 := by decide

namespace Queue

variable {lane lane' : Fin 2 → Lane} {nLanes : Nat} {readLane sendLane : Option (Fin 2)}
  {fillI sendI : Fin 2} {planPos sendPos : Nat}

/-- Only the piece of a lane matters. -/
theorem congr (h : Queue lane nLanes readLane sendLane fillI sendI planPos sendPos)
    (hlane : ∀ i, (lane' i).ready = (lane i).ready ∧ (lane' i).off = (lane i).off ∧
      (lane' i).len = (lane i).len) :
    Queue lane' nLanes readLane sendLane fillI sendI planPos sendPos := by
  have hfree : ∀ i, Free lane readLane i → Free lane' readLane i := fun i hi => by
    unfold Free
    rw [(hlane i).1]
    exact hi
  have hfilled : ∀ i off, Filled lane readLane i off →
      Filled lane' readLane i off := fun i off hi => by
    obtain ⟨hready, hoff, hlen⟩ := hlane i
    exact ⟨by rw [hoff]; exact hi.off_eq, by rw [hlen]; exact hi.len_pos,
      by rw [hready]; exact hi.either⟩
  cases h with
  | empty pos fill free send => exact .empty pos fill (fun i => hfree i (free i)) send
  | one filled pos fill free send =>
      refine .one (hfilled _ _ filled) (by rw [(hlane sendI).2.2]; exact pos) fill
        (fun i hi => hfree i (free i hi)) fun i hi => ?_
      rw [(hlane i).1]
      exact send i hi
  | two lanes first ready filled pos fill send =>
      refine .two lanes (hfilled _ _ first) (by rw [(hlane sendI).1]; exact ready) ?_ ?_ fill send
      · rw [(hlane sendI).2.2]
        exact hfilled _ _ filled
      · rw [(hlane sendI).2.2, (hlane (sendI + 1)).2.2]
        exact pos

/-- The next piece to be sent is sent from. -/
theorem send (h : Queue lane nLanes readLane sendLane fillI sendI planPos sendPos)
    (hready : (lane sendI).ready = true) :
    Queue lane nLanes readLane (some sendI) fillI sendI planPos sendPos := by
  cases h with
  | empty pos fill free send =>
      rw [(free sendI).1] at hready
      cases hready
  | one filled pos fill free send =>
      refine .one filled pos fill free fun i hi => ?_
      cases hi
      exact ⟨rfl, hready⟩
  | two lanes first ready filled pos fill send =>
      refine .two lanes first ready filled pos fill fun i hi => ?_
      cases hi
      rfl

variable {i : Fin 2}

/-- The lane that is sent from has the first piece, which is ready. -/
theorem sending (h : Queue lane nLanes readLane sendLane fillI sendI planPos sendPos)
    (hsend : sendLane = some i) : i = sendI ∧ (lane i).ready = true ∧ (lane i).off = sendPos ∧
      sendPos + (lane i).len ≤ planPos ∧ readLane ≠ some i := by
  have hreading : ∀ off, Filled lane readLane i off → (lane i).ready = true →
      readLane ≠ some i := by
    intro off hfilled hready
    rcases hfilled.either with hcomplete | hpartial
    · exact hcomplete.2
    · cases hready.symm.trans hpartial.1
  cases h with
  | empty pos fill free send =>
      rw [send] at hsend
      cases hsend
  | one filled pos fill free send =>
      obtain ⟨rfl, hready⟩ := send i hsend
      exact ⟨rfl, hready, filled.off_eq, pos.ge, hreading _ filled hready⟩
  | two lanes first ready filled pos fill send =>
      cases send i hsend
      exact ⟨rfl, ready, first.off_eq, by omega, hreading _ first ready⟩

/-- The other lane of two. -/
theorem other_lane (hlt : sendI.val < nLanes) (hlanes : nLanes ≤ 2) (hne : fillI ≠ sendI)
    (hfill : fillI.val = (sendI.val + 1) % nLanes) : nLanes = 2 ∧ fillI = sendI + 1 := by
  have htwo : nLanes = 2 := by
    by_contra hone
    have : nLanes = 1 := by omega
    subst this
    exact hne (Fin.ext (by omega))
  subst htwo
  exact ⟨rfl, eq_lane_of_ne _ _ hne⟩

/-- A piece is planned into the lane to be filled. -/
theorem fill (h : Queue lane nLanes readLane sendLane fillI sendI planPos sendPos)
    (hlanes : nLanes ≤ 2) (hlt : sendI.val < nLanes) (hread : readLane = none)
    (hnot : (lane fillI).ready = false) {l : Lane} (hoff : l.off = planPos) (hlen : 0 < l.len)
    {r : Option (Fin 2)} (hr : l.ready = true ∧ r = none ∨ l.ready = false ∧ r = some fillI)
    {n : Fin 2} (hnext : n.val = (fillI.val + 1) % nLanes) :
    Queue (Function.update lane fillI l) nLanes r sendLane n sendI (planPos + l.len) sendPos := by
  have hother : ∀ i, i ≠ fillI → r ≠ some i := by
    intro i hne hri
    rcases hr with ⟨-, rfl⟩ | ⟨-, rfl⟩
    · cases hri
    · cases hri
      exact hne rfl
  have hnew : Filled (Function.update lane fillI l) r fillI planPos := by
    refine ⟨by rw [Function.update_self]; exact hoff, by rw [Function.update_self]; exact hlen, ?_⟩
    rw [Function.update_self]
    rcases hr with ⟨hready, rfl⟩ | ⟨hready, rfl⟩
    · exact Or.inl ⟨hready, nofun⟩
    · exact Or.inr ⟨hready, rfl⟩
  cases h with
  | empty pos fill free send =>
      subst fill
      refine .one (by rw [← pos]; exact hnew) (by rw [Function.update_self, pos]) hnext
        (fun i hi => ?_) ?_
      · refine ⟨?_, hother i hi⟩
        rw [Function.update_of_ne hi]
        exact (free i).1
      · intro i hi
        rw [send] at hi
        cases hi
  | one filled pos fill free send =>
      -- the piece in front is not being read, so it is ready and in the other lane
      have hready : (lane sendI).ready = true := by
        rcases filled.either with hready | hreading
        · exact hready.1
        · rw [hread] at hreading
          cases hreading.2
      have hne : fillI ≠ sendI := by
        rintro rfl
        rw [hnot] at hready
        cases hready
      obtain ⟨rfl, rfl⟩ := other_lane hlt hlanes hne fill
      have hkeep : Function.update lane (sendI + 1) l sendI = lane sendI :=
        Function.update_of_ne hne.symm _ _
      refine .two rfl ⟨?_, ?_, ?_⟩ (by rw [hkeep]; exact hready) ?_ ?_ ?_ fun i hi => (send i hi).1
      · rw [hkeep]
        exact filled.off_eq
      · rw [hkeep]
        exact filled.len_pos
      · rw [hkeep]
        exact Or.inl ⟨hready, hother _ hne.symm⟩
      · rw [hkeep, ← pos]
        exact hnew
      · rw [hkeep, Function.update_self, pos]
      · exact Fin.ext (hnext.trans (lane_succ_succ sendI))
  | two lanes first ready filled pos fill send =>
      -- both lanes are full, and the next to fill is the one that is sent
      rw [fill, ready] at hnot
      cases hnot

/-- The piece that is being read is complete. -/
theorem read_done (h : Queue lane nLanes readLane sendLane fillI sendI planPos sendPos)
    (hread : readLane = some i) :
    Queue (Function.update lane i { lane i with ready := true })
      nLanes none sendLane fillI sendI planPos
        sendPos ∧ (sendLane = none ∨ (lane fillI).ready = true) := by
  have hlen : ∀ j, (Function.update lane i { lane i with ready := true } j).len = (lane j).len := by
    intro j
    rcases eq_or_ne j i with rfl | hne
    · rw [Function.update_self]
    · rw [Function.update_of_ne hne]
  have hoff : ∀ j, (Function.update lane i { lane i with ready := true } j).off = (lane j).off := by
    intro j
    rcases eq_or_ne j i with rfl | hne
    · rw [Function.update_self]
    · rw [Function.update_of_ne hne]
  have hfilled : ∀ j off, Filled lane readLane j off →
      Filled (Function.update lane i { lane i with ready := true }) none j off := by
    intro j off hj
    refine ⟨by rw [hoff]; exact hj.off_eq, by rw [hlen]; exact hj.len_pos, Or.inl ⟨?_, nofun⟩⟩
    rcases eq_or_ne j i with rfl | hne
    · rw [Function.update_self]
    · rw [Function.update_of_ne hne]
      rcases hj.either with hready | hreading
      · exact hready.1
      · rw [hread] at hreading
        cases hreading.2
        exact absurd rfl hne
  cases h with
  | empty pos fill free send => exact absurd hread (free i).2
  | one filled pos fill free send =>
      -- only the one piece can be the one that is read
      have hi : i = sendI := by
        by_contra hne
        exact (free i hne).2 hread
      subst hi
      have hnot : (lane i).ready = false := by
        rcases filled.either with hready | hreading
        · exact absurd hread hready.2
        · exact hreading.1
      have hnone : sendLane = none := by
        by_contra hsome
        obtain ⟨j, hj⟩ := Option.ne_none_iff_exists'.1 hsome
        obtain ⟨rfl, hready⟩ := send j hj
        rw [hnot] at hready
        cases hready
      refine ⟨.one (hfilled _ _ filled) (by rw [hlen]; exact pos) fill
        (fun j hj => ?_) ?_, Or.inl hnone⟩
      · refine ⟨?_, nofun⟩
        rw [Function.update_of_ne hj]
        exact (free j hj).1
      · intro j hj
        rw [hnone] at hj
        cases hj
  | two lanes first ready filled pos fill send =>
      refine ⟨.two lanes (hfilled _ _ first) ?_ ?_ ?_ fill send, Or.inr (by rw [fill]; exact ready)⟩
      · rcases eq_or_ne sendI i with rfl | hne
        · rw [Function.update_self]
        · rw [Function.update_of_ne hne]
          exact ready
      · rw [hlen]
        exact hfilled _ _ filled
      · rw [hlen, hlen]
        exact pos

/-- The piece that is sent from is sent. -/
theorem sent (h : Queue lane nLanes readLane sendLane fillI sendI planPos sendPos)
    (hlt : sendI.val < nLanes) (hsend : sendLane = some i) {l : Lane} (hl : l.ready = false)
    {n : Fin 2} (hnext : n.val = (sendI.val + 1) % nLanes) :
    Queue (Function.update lane i l) nLanes readLane none fillI n planPos
      (sendPos + (lane i).len) := by
  obtain ⟨rfl, -, -, -⟩ := h.sending hsend
  cases h with
  | empty pos fill free send =>
      rw [send] at hsend
      cases hsend
  | one filled pos fill free send =>
      refine .empty pos (Fin.ext (by rw [fill, hnext])) (fun j => ?_) rfl
      rcases eq_or_ne j i with rfl | hne
      · refine ⟨by rw [Function.update_self]; exact hl, ?_⟩
        rcases filled.either with hready | hreading
        · exact hready.2
        · rw [(send j hsend).2] at hreading
          cases hreading.1
      · refine ⟨?_, (free j hne).2⟩
        rw [Function.update_of_ne hne]
        exact (free j hne).1
  | two lanes first ready filled pos fill send =>
      subst lanes
      obtain rfl : n = i + 1 := Fin.ext (hnext.trans (lane_val_succ i).symm)
      have hkeep : Function.update lane i l (i + 1) = lane (i + 1) :=
        Function.update_of_ne (lane_succ_ne i) _ _
      refine .one ⟨?_, ?_, ?_⟩ ?_ ?_ (fun j hj => ?_) nofun
      · rw [hkeep]
        exact filled.off_eq
      · rw [hkeep]
        exact filled.len_pos
      · rw [hkeep]
        exact filled.either
      · rw [hkeep]
        exact pos
      · rw [fill]
        exact (lane_succ_succ i).symm
      · obtain rfl : i = j := by
          by_contra hne
          exact hj (eq_lane_of_ne j i (Ne.symm hne))
        refine ⟨by rw [Function.update_self]; exact hl, ?_⟩
        rcases first.either with hfirst | hreading
        · exact hfirst.2
        · rw [ready] at hreading
          cases hreading.1

end Queue

/-! ## Sending from a lane -/

variable {A : Terms} {cfg : Config} {s : Loop P} {v : Seams P}

variable {i : Fin 2}

/-- A change of one lane that leaves a part of it alone. -/
theorem update_lane {α : Type*} (f : Lane → α) {lane : Fin 2 → Lane} {l : Lane}
    (h : f l = f (lane i)) (j : Fin 2) : f (Function.update lane i l j) = f (lane j) := by
  rcases eq_or_ne j i with rfl | hne
  · rw [Function.update_self]
    exact h
  · rw [Function.update_of_ne hne]

/-- The other lanes' results do not change with a lane. -/
theorem Results.set {lane : Fin 2 → Lane} {readLane : Option (Fin 2)} {pending : List Io}
    (h : ∀ j, Results A j (lane j) readLane pending) {l : Lane}
    (hl : Results A i l readLane pending) (j : Fin 2) :
    Results A j (Function.update lane i l j) readLane pending := by
  rcases eq_or_ne j i with rfl | hne
  · rw [Function.update_self]
    exact hl
  · rw [Function.update_of_ne hne]
    exact h j

/-- Only operations of the stream are outstanding in it. -/
theorem Phase.on_lane (h : Phase cfg s) (hstate : s.c.state = .getStream) :
    ∀ io ∈ s.c.pending, io.onLane = true := by
  intro io hio
  have howns := h.owns io hio
  cases io with
  | recv | poll =>
      rw [Owns, hstate] at howns
      cases howns
  | sendOut bytes =>
      rw [Owns, hstate] at howns
      rcases howns.1 with hfalse | hfalse | hfalse <;> cases hfalse
  | sendHead sent n => cases hstate.symm.trans howns.1
  | sendLane | read => rfl

/-- While no lane is sent from, only reads of the stream are outstanding. -/
theorem Phase.only_reads (h : Phase cfg s) (hstate : s.c.state = .getStream)
    (hsend : s.c.sendLane = none) :
    ∀ io ∈ s.c.pending, io.isRead = true := by
  intro io hio
  have howns := h.owns io hio
  have hlane := h.on_lane hstate io hio
  cases io with
  | sendLane i buf sent n segs done => cases hsend.symm.trans howns.2.1
  | read i buf seg => rfl
  | _ => cases hlane

/-- While no lane is read into or sent from, nothing of the stream is outstanding. -/
theorem Phase.pending_nil (h : Phase cfg s) (hstate : s.c.state = .getStream)
    (hsend : s.c.sendLane = none) (hread : s.c.readLane = none) : s.c.pending = [] := by
  refine List.eq_nil_iff_forall_not_mem.2 fun io hio => ?_
  have howns := h.owns io hio
  have hisRead := h.only_reads hstate hsend io hio
  cases io with
  | read i buf seg => cases hread.symm.trans howns.1
  | _ => cases hisRead

theorem start_cases (s : Loop P) (io : Io) :
    (s.c.closing = true ∧ s.start io = s) ∨
      (s.c.closing = false ∧ s.room = 0 ∧ s.start io = s.closeConn) ∨
      (s.c.closing = false ∧ 0 < s.room ∧ s.start io = { s with
        room := s.room - 1
        c := { s.c with inflight := s.c.inflight + 1, pending := s.c.pending ++ [io] } }) := by
  unfold Loop.start Loop.submit
  split_ifs with hclosing hfull
  · exact Or.inl ⟨hclosing, rfl⟩
  · exact Or.inr (Or.inl ⟨by simpa using hclosing, hfull, rfl⟩)
  · exact Or.inr (Or.inr ⟨by simpa using hclosing, Nat.pos_of_ne_zero hfull, rfl⟩)

theorem start_lane_send_eq (hsend : s.c.sendLane = some i) :
    s.startLaneSend = s.start (.sendLane i (s.c.lane i).buf (s.c.lane i).sent
      ((s.c.lane i).len - (s.c.lane i).sent) (s.c.lane i).segs (s.c.lane i).done) := by
  unfold Loop.startLaneSend
  split_ifs with hclosing
  · unfold Loop.start
    rw [if_pos hclosing]
  · rw [hsend]

/-- The lane to be sent from has a complete piece, and no other send is outstanding. -/
structure Launch (A : Terms) (cfg : Config) (s : Loop P) (i : Fin 2) : Prop where
  base : Base A cfg s
  phase : Phase cfg s
  data : Data A s.c
  state : s.c.state = .getStream
  lane : s.c.sendLane = some i
  held : s.c.closing = false → (s.c.lane i).haveBuf = true
  only : ∀ io ∈ s.c.pending, io.isRead = true
  reading : s.c.closing = false → s.c.readLane ≠ none → ∃ io ∈ s.c.pending, io.isRead = true

theorem Base.lanes_pos (h : Base A cfg s) (hheld : (s.c.lane i).haveBuf = true) :
    0 < s.c.nLanes :=
  Nat.lt_of_le_of_lt (Nat.zero_le _) ((h.bufs.held i).1 hheld)

theorem Launch.sending (h : Launch A cfg s i) (hclosing : s.c.closing = false) : s.c.Sending i := by
  obtain ⟨-, hsending⟩ :=
    (h.phase.queue hclosing h.state (h.base.lanes_pos (h.held hclosing))).2.sending h.lane
  exact hsending

/-- The reads of a complete piece have brought all that is needed. -/
theorem Launch.covered (h : Launch A cfg s i) (hclosing : s.c.closing = false) (hwhole : A.whole)
    (buf sent n : Nat) : (Io.sendLane i buf sent n (s.c.lane i).segs
      (s.c.lane i).done).Covered := by
  intro seg hseg
  obtain ⟨res, hres, hpos⟩ := (h.base.results i).complete (h.sending hclosing).1 seg hseg
  rcases (h.base.results i).whole hwhole _ hres with hbad | hgood
  · exact absurd hpos (Int.not_lt.2 hbad)
  · exact ⟨res, hres, hgood⟩

/-- The send is started, or the connection is closing. -/
theorem Launch.start (h : Launch A cfg s i) :
    (s.startLaneSend.c.closing = true ∧ Inv A cfg s.startLaneSend) ∨
      (s.startLaneSend.c.closing = false ∧ 0 < s.room ∧ (∃ io, s.startLaneSend = { s with
          room := s.room - 1
          c := { s.c with inflight := s.c.inflight + 1, pending := s.c.pending ++ [io] } }) ∧
        Base A cfg s.startLaneSend ∧ Phase cfg s.startLaneSend ∧ Tracked s.startLaneSend.c ∧
        Data A s.startLaneSend.c) := by
  rw [start_lane_send_eq h.lane]
  rcases start_cases s (.sendLane i (s.c.lane i).buf (s.c.lane i).sent
    ((s.c.lane i).len - (s.c.lane i).sent) (s.c.lane i).segs (s.c.lane i).done) with
    ⟨hclosing, heq⟩ | ⟨hclosing, hfull, heq⟩ | ⟨hclosing, hroom, heq⟩
  · rw [heq]
    refine Or.inl ⟨hclosing, h.base, Or.inl ⟨h.phase, fun hopen => ?_, fun hopen => ?_, h.data⟩⟩
    · rw [hclosing] at hopen
      cases hopen
    · rw [hclosing] at hopen
      cases hopen
  · rw [heq]
    exact Or.inl ⟨rfl, { h.base with }, Or.inl ⟨{ h.phase with queue := nofun },
      nofun, nofun, h.data⟩⟩
  · rw [heq]
    have howns : Owns s.c (.sendLane i (s.c.lane i).buf (s.c.lane i).sent
        ((s.c.lane i).len - (s.c.lane i).sent) (s.c.lane i).segs (s.c.lane i).done) :=
      ⟨h.state, h.lane, h.held hclosing, rfl, rfl, rfl, h.sending hclosing⟩
    refine Or.inr ⟨hclosing, hroom, ⟨_, rfl⟩,
      h.base.submit (fun hwhole => h.covered hclosing hwhole _ _ _) _,
      h.phase.send howns rfl h.only _, fun _ => ⟨fun _ => ?_, fun hread => ?_⟩, h.data⟩
    · exact ⟨_, List.mem_append_right _ (List.mem_singleton_self _), rfl⟩
    · obtain ⟨io, hio, hisRead⟩ := h.reading hclosing hread
      exact ⟨io, List.mem_append_left _ hio, hisRead⟩

/-- The send is started, or the connection is closing. -/
theorem Launch.inv (h : Launch A cfg s i) : Inv A cfg s.startLaneSend := by
  rcases h.start with ⟨-, hinv⟩ | ⟨-, -, ⟨io, heq⟩, hbase, hphase, htracked, hdata⟩
  · exact hinv
  · refine ⟨hbase, Or.inl ⟨hphase, htracked, fun _ _ => ?_, hdata⟩⟩
    rw [heq]
    exact List.append_ne_nil_of_right_ne_nil _ (List.cons_ne_nil _ _)

/-! ## Planning a piece -/

/-- The lane with the piece at `off`, of which this many reads are outstanding. -/
def Lane.plan (lane : Lane) (piece : LanePiece) (off reads : Nat) : Lane :=
  { lane with
    len := piece.len
    sent := 0
    reads := reads
    err := false
    ready := piece.segs.isEmpty
    off := off
    segs := piece.segs
    done := [] }

namespace Loop

/-- The reads of these segments have been submitted. -/
def readInto (s : Loop P) (i : Fin 2) (segs : List Seg) : Loop P :=
  { s with
    room := s.room - segs.length
    c := { s.c with
      lane := Function.update s.c.lane i
        { s.c.lane i with reads := (s.c.lane i).reads + segs.length }
      inflight := s.c.inflight + segs.length
      pending := s.c.pending ++ segs.map (Io.read i (s.c.lane i).buf) } }

/-- The piece has been planned into the lane, and the reads of these of its segments submitted. -/
def filled (s : Loop P) (i : Fin 2) (piece : LanePiece) (segs : List Seg)
    (readLane : Option (Fin 2)) : Loop P :=
  { s with
    room := s.room - segs.length
    mem := Function.update s.mem (s.c.lane i).buf piece.buf
    c := { s.c with
      lane := Function.update s.c.lane i ((s.c.lane i).plan piece s.c.planPos segs.length)
      planPos := s.c.planPos + piece.len
      fillI := s.c.next s.c.fillI
      undefined := s.c.undefined || s.c.nLanes == 0
      stale := s.c.stale || piece.segs.isEmpty && !s.c.agrees piece.buf s.c.planPos piece.len
      readLane := readLane
      inflight := s.c.inflight + segs.length
      pending := s.c.pending ++ segs.map (Io.read i (s.c.lane i).buf) } }

end Loop

theorem filled_lane_self (s : Loop P) (i : Fin 2) (piece : LanePiece) (segs : List Seg)
    (r : Option (Fin 2)) :
    (s.filled i piece segs r).c.lane i = (s.c.lane i).plan piece s.c.planPos segs.length :=
  Function.update_self _ _ _

theorem filled_lane_of_ne (s : Loop P) {j : Fin 2} (h : j ≠ i) (piece : LanePiece) (segs : List Seg)
    (r : Option (Fin 2)) : (s.filled i piece segs r).c.lane j = s.c.lane j :=
  Function.update_of_ne h _ _

theorem read_into_nil (s : Loop P) (i : Fin 2) : s.readInto i [] = s := by
  simp [Loop.readInto]

theorem read_into_cons (s : Loop P) (i : Fin 2) (seg : Seg) (rest : List Seg) :
    Loop.readInto { s with
      room := s.room - 1
      c := { s.c with
        lane := Function.update s.c.lane i { s.c.lane i with reads := (s.c.lane i).reads + 1 }
        inflight := s.c.inflight + 1
        pending := s.c.pending ++ [.read i (s.c.lane i).buf seg] } } i rest =
        s.readInto i (seg :: rest) := by
  simp only [Loop.readInto, Function.update_self, Function.update_idem, List.length_cons,
    List.map_cons, List.append_assoc, List.singleton_append, Nat.sub_sub, Nat.add_assoc,
    Nat.add_comm 1]

/-- All reads are submitted, or as many as there is room for. -/
theorem submit_reads_eq (i : Fin 2) (segs : List Seg) (s : Loop P) : Loop.submitReads i segs s =
    if segs.length ≤ s.room then
      (true, { s.readInto i segs with c := { (s.readInto i segs).c with readLane := some i } })
    else (false, s.readInto i (segs.take s.room)) := by
  induction segs generalizing s with
  | nil =>
      rw [Loop.submitReads, read_into_nil]
      exact (if_pos (Nat.zero_le _)).symm
  | cons seg rest ih =>
      rw [Loop.submitReads, Loop.submit]
      split_ifs with hroom hfits hfits
      · rw [hroom] at hfits
        cases hfits
      · rw [hroom, List.take_zero, read_into_nil]
      · refine (ih _).trans ?_
        rw [List.length_cons] at hfits
        rw [if_pos (show rest.length ≤ s.room - 1 by omega), ← read_into_cons s i seg rest]
        rfl
      · refine (ih _).trans ?_
        rw [List.length_cons] at hfits
        have htake : (seg :: rest).take s.room = seg :: rest.take (s.room - 1) := by
          obtain ⟨n, hn⟩ := Nat.exists_eq_succ_of_ne_zero hroom
          rw [hn]
          rfl
        rw [if_neg (show ¬ rest.length ≤ s.room - 1 by omega), htake, ← read_into_cons s i seg]
        rfl

theorem plan_lane_read_eq {rs : State.ReadStream} {piece : LanePiece} (hrs : s.c.rs = some rs)
    (hpiece : planPiece cfg s.σ rs s.c.planPos s.c.getSize s.iobufs.blockBytes
      (s.mem (s.c.lane i).buf) = some piece) : Loop.planLaneRead cfg s i =
    if piece.segs.length ≤ s.room then
      (true, s.filled i piece piece.segs (if piece.segs.isEmpty then s.c.readLane else some i))
    else (false, s.filled i piece (piece.segs.take s.room) s.c.readLane) := by
  unfold Loop.planLaneRead
  simp only [hrs, hpiece]
  split_ifs with hempty hfits hfits
  · rw [List.isEmpty_iff] at hempty
    simp only [hempty, Loop.filled, Lane.plan]
    simp [Conn.setLane]
  · rw [List.isEmpty_iff] at hempty
    rw [hempty] at hfits
    exact absurd (Nat.zero_le _) hfits
  · rw [submit_reads_eq, if_pos (by exact hfits)]
    simp only [Loop.readInto, Loop.filled, Lane.plan, Conn.setLane, Function.update_self,
      Function.update_idem, Nat.zero_add]
  · rw [submit_reads_eq, if_neg (by exact hfits)]
    simp only [Loop.readInto, Loop.filled, Lane.plan, Conn.setLane, Function.update_self,
      Function.update_idem, Nat.zero_add]

/-! ## Iterations -/

/-- The parts of an iteration. -/
theorem pump_once_cases (cfg : Config) (s : Loop P) (v : Seams P) :
    ∃ s₁, (s.sendable = true ∧ s₁ = s.sendNext ∨ s.sendable = false ∧ s₁ = s) ∧
      ((s.sendable = true ∧ s₁.c.closing = true ∧ s.pumpOnce cfg v = (false, s₁)) ∨
        (s.sendable = true → s₁.c.closing = false) ∧ ∃ ok s₂,
          (s₁.fillable = true ∧ Loop.planLaneRead cfg s₁ s₁.c.fillI = (ok, s₂) ∨
            s₁.fillable = false ∧ ok = true ∧ s₂ = s₁) ∧
          s.pumpOnce cfg v =
            if ok = false then (false, s₂.abortGet)
            else if (s₂.c.sendLane.isNone && s₂.c.readLane.isNone &&
                s₂.c.getSize ≤ s₂.c.sendPos) = true then
              (false, s₂.onValueSent v)
            else (s.sendable || s₁.fillable, s₂)) := by
  refine ⟨if s.sendable then s.sendNext else s, ?_, ?_⟩
  · cases hsend : s.sendable with
    | false => exact Or.inr ⟨rfl, rfl⟩
    | true => exact Or.inl ⟨rfl, rfl⟩
  · generalize hs₁ : (if s.sendable = true then s.sendNext else s) = s₁
    unfold Loop.pumpOnce
    dsimp only
    rw [hs₁]
    by_cases hclose : (s.sendable && s₁.c.closing) = true
    · rw [if_pos hclose]
      rw [Bool.and_eq_true] at hclose
      exact Or.inl ⟨hclose.1, hclose.2, rfl⟩
    · rw [if_neg hclose]
      refine Or.inr ⟨fun hsend => by simpa [hsend] using hclose, ?_⟩
      cases hfill : s₁.fillable with
      | false => exact ⟨true, s₁, Or.inr ⟨rfl, rfl, rfl⟩, by simp⟩
      | true =>
          rcases hplan : Loop.planLaneRead cfg s₁ s₁.c.fillI with ⟨ok, s₂⟩
          refine ⟨ok, s₂, Or.inl ⟨rfl, rfl⟩, ?_⟩
          cases ok <;> simp

theorem fillable_iff : s.fillable = true ↔ s.c.readLane = none ∧ s.c.planPos < s.c.getSize ∧
    (s.c.lane s.c.fillI).haveBuf = true ∧ (s.c.lane s.c.fillI).ready = false ∧
      s.c.sendLane ≠ some s.c.fillI := by
  simp [Loop.fillable, and_assoc]

theorem sendable_iff : s.sendable = true ↔ s.c.sendLane = none ∧ s.c.sendPos < s.c.getSize ∧
    (s.c.lane s.c.sendI).ready = true := by
  simp [Loop.sendable, and_assoc]

theorem plan_lane_read_ok {s' : Loop P} (h : Loop.planLaneRead cfg s i = (true, s')) :
    ∃ piece : LanePiece, piece.segs.length ≤ s.room ∧
      s' = s.filled i piece piece.segs (if piece.segs.isEmpty then s.c.readLane else some i) := by
  cases hrs : s.c.rs with
  | none => simp [Loop.planLaneRead, hrs] at h
  | some rs =>
      cases hpiece : planPiece cfg s.σ rs s.c.planPos s.c.getSize s.iobufs.blockBytes
          (s.mem (s.c.lane i).buf) with
      | none => simp [Loop.planLaneRead, hrs, hpiece] at h
      | some piece =>
          rw [plan_lane_read_eq hrs hpiece] at h
          split at h
          · rename_i hfits
            cases h
            exact ⟨piece, hfits, rfl⟩
          · cases h

/-- What an iteration can use up: the send, the batch of reads, and the lanes without a complete
piece. -/
def pumpRank (c : Conn) : Nat :=
  (if c.sendLane.isNone then 1 else 0) + (if c.readLane.isNone then 1 else 0) +
    ((if (c.lane 0).ready then 0 else 1) + if (c.lane 1).ready then 0 else 1)

theorem start_frame (s : Loop P) (io : Io) : (s.start io).c.sendLane = s.c.sendLane ∧
    (s.start io).c.readLane = s.c.readLane ∧ (s.start io).c.lane = s.c.lane := by
  rcases start_cases s io with ⟨-, heq⟩ | ⟨-, -, heq⟩ | ⟨-, -, heq⟩ <;> rw [heq] <;>
    exact ⟨rfl, rfl, rfl⟩

/-- Lane `i` is sent from, and `n` bytes of its piece are sent. -/
def Loop.sending (s : Loop P) (i : Fin 2) (n : Nat) : Loop P :=
  { s with c := { s.c with
    lane := Function.update s.c.lane i { s.c.lane i with sent := n }
    sendLane := some i } }

theorem sending_lane {n : Nat} {α : Type*} (f : Lane → α)
    (h : ∀ l : Lane, f { l with sent := n } = f l) (j : Fin 2) :
    f ((s.sending i n).c.lane j) = f (s.c.lane j) :=
  update_lane f (h (s.c.lane i)) j

theorem send_next_eq (s : Loop P) : s.sendNext = (s.sending s.c.sendI 0).startLaneSend := rfl

theorem send_next_rank (h : s.sendable = true) : pumpRank s.sendNext.c < pumpRank s.c := by
  have hnone : s.c.sendLane = none := (sendable_iff.1 h).1
  have hready : ∀ j, ((s.sending s.c.sendI 0).c.lane j).ready = (s.c.lane j).ready :=
    sending_lane Lane.ready fun _ => rfl
  rw [send_next_eq, start_lane_send_eq rfl]
  unfold pumpRank
  obtain ⟨hsend, hread, hlane⟩ := start_frame (s.sending s.c.sendI 0) _
  rw [hsend, hread, hlane]
  rw [hready, hready, hnone]
  show 0 + (if s.c.readLane.isNone = true then 1 else 0) + _ <
    1 + (if s.c.readLane.isNone = true then 1 else 0) + _
  omega

theorem filled_rank {piece : LanePiece} (hread : s.c.readLane = none)
    (hready : (s.c.lane i).ready = false) :
    pumpRank (s.filled i piece piece.segs (if piece.segs.isEmpty then s.c.readLane else some i)).c <
      pumpRank s.c := by
  unfold pumpRank Loop.filled Lane.plan
  dsimp only
  rw [hread]
  match i, hready with
  | 0, hready => cases piece.segs.isEmpty <;> simp [hready]
  | 1, hready => cases piece.segs.isEmpty <;> simp [hready]

theorem pump_once_rank (cfg : Config) (v : Seams P) (h : (s.pumpOnce cfg v).1 = true) :
    pumpRank (s.pumpOnce cfg v).2.c < pumpRank s.c := by
  obtain ⟨s₁, hfirst, ⟨-, -, heq⟩ | ⟨-, ok, s₂, hsecond, heq⟩⟩ := pump_once_cases cfg s v
  · rw [heq] at h
    cases h
  have hle : pumpRank s₁.c ≤ pumpRank s.c ∧ (s.sendable = true → pumpRank s₁.c < pumpRank s.c) := by
    rcases hfirst with ⟨hsend, rfl⟩ | ⟨hsend, rfl⟩
    · exact ⟨(send_next_rank hsend).le, fun _ => send_next_rank hsend⟩
    · exact ⟨le_rfl, fun htrue => absurd (hsend.symm.trans htrue) (by decide)⟩
  have hle₂ : ok = true → pumpRank s₂.c ≤ pumpRank s₁.c ∧
      (s₁.fillable = true → pumpRank s₂.c < pumpRank s₁.c) := by
    intro hok
    rcases hsecond with ⟨hfill, hplan⟩ | ⟨hfill, -, rfl⟩
    · suffices hlt : pumpRank s₂.c < pumpRank s₁.c from ⟨hlt.le, fun _ => hlt⟩
      subst hok
      obtain ⟨piece, -, rfl⟩ := plan_lane_read_ok hplan
      obtain ⟨hread, -, -, hready, -⟩ := fillable_iff.1 hfill
      exact filled_rank hread hready
    · exact ⟨le_rfl, fun htrue => absurd (hfill.symm.trans htrue) (by decide)⟩
  rw [heq] at h ⊢
  split_ifs at h ⊢ with hok hend
  have hok : ok = true := by simpa using hok
  rcases (Bool.or_eq_true _ _).mp h with hsend | hfill
  · exact Nat.lt_of_le_of_lt (hle₂ hok).1 (hle.2 hsend)
  · exact Nat.lt_of_lt_of_le ((hle₂ hok).2 hfill) hle.1

theorem pump_rank_le (c : Conn) : pumpRank c ≤ 4 := by
  unfold pumpRank
  split_ifs <;> omega

/-- The iterations of `pump_stream` come to an end. -/
theorem pump_loop_rank (v : Seams P) (fuel extra : Nat) (h : pumpRank s.c < fuel) :
    Loop.pumpLoop cfg v (fuel + extra) s = Loop.pumpLoop cfg v fuel s := by
  induction fuel generalizing s with
  | zero => cases h
  | succ fuel ih =>
      rw [Nat.succ_add, Loop.pumpLoop, Loop.pumpLoop]
      have hrank := pump_once_rank (s := s) cfg v
      rcases hpump : Loop.pumpOnce cfg s v with ⟨again, s'⟩
      rw [hpump] at hrank
      cases again with
      | false => rfl
      | true => exact ih (Nat.lt_of_lt_of_le (hrank rfl) (Nat.le_of_lt_succ h))

/-- More iterations change nothing. -/
theorem pump_loop_fuel (cfg : Config) (v : Seams P) (extra : Nat) (s : Loop P) :
    Loop.pumpLoop cfg v (5 + extra) s = s.pumpStream cfg v :=
  pump_loop_rank v 5 extra (Nat.lt_succ_of_le (pump_rank_le s.c))

/-! ## The pump keeps the invariant -/

/-- What the next send needs of the submission queue. -/
def Loop.sendNeed (s : Loop P) : Nat := if s.c.sendLane.isNone then 1 else 0

/-- The submission queue has room for the next send and for the reads of any piece. -/
def Loop.Spare (cfg : Config) (s : Loop P) : Prop :=
  s.sendNeed ≤ s.room ∧ (s.c.readLane = none → ∀ rs, s.c.rs = some rs → ∀ pos buf piece,
    planPiece cfg s.σ rs pos s.c.getSize s.iobufs.blockBytes buf = some piece →
      piece.segs.length + s.sendNeed ≤ s.room)

/-- The stream, before an iteration of the pump. -/
structure Flow (A : Terms) (cfg : Config) (s : Loop P) : Prop where
  base : Base A cfg s
  phase : Phase cfg s
  data : Data A s.c
  tracked : Tracked s.c
  state : s.c.state = .getStream
  closed : s.c.closing = true → s.c.sendLane = none
  room : A.roomy → s.Spare cfg ∨ s.room = 0 ∧ (s.c.sendLane = none ∨ s.fillable = false)

theorem Flow.get (h : Flow A cfg s) : s.c.Getting cfg := h.phase.get (by rw [h.state]; rfl)

/-- As long as bytes are missing, the GET has lanes. -/
theorem Flow.lanes (h : Flow A cfg s) (hmore : s.c.sendPos < s.c.getSize) : 0 < s.c.nLanes := by
  by_contra hzero
  have hover := h.get.2 (by omega)
  rw [if_pos h.state] at hover
  omega

theorem Base.sending (h : Base A cfg s) (i : Fin 2) (n : Nat) : Base A cfg (s.sending i n) where
  __ := h
  bufs := h.bufs.set rfl rfl
  results := Results.set h.results
    ⟨(h.results i).complete, (h.results i).awaited, (h.results i).positive, (h.results i).whole,
    (h.results i).fine, (h.results i).reading⟩
  windows hintact hstale hstate j hheld hready := by
    rw [sending_lane Lane.haveBuf (fun _ => rfl)] at hheld
    rw [sending_lane Lane.ready (fun _ => rfl)] at hready
    rw [sending_lane Lane.buf (fun _ => rfl), sending_lane Lane.len (fun _ => rfl),
      sending_lane Lane.off (fun _ => rfl)]
    exact h.windows hintact hstale hstate j hheld hready

theorem Phase.sending (h : Phase cfg s) (hstate : s.c.state = .getStream)
    (honly : ∀ io ∈ s.c.pending, io.isRead = true) (hqueue : s.c.closing = false → 0 < s.c.nLanes →
      Queue s.c.lane s.c.nLanes s.c.readLane (some i)
      s.c.fillI s.c.sendI s.c.planPos s.c.sendPos) (n : Nat) :
    Phase cfg (s.sending i n) where
  __ := h
  owns io hio := by
    have howns := h.owns io hio
    have hisRead := honly io hio
    cases io with
    | read j buf seg =>
        refine ⟨howns.1, ?_, ?_⟩
        · rw [sending_lane Lane.haveBuf (fun _ => rfl)]
          exact howns.2.1
        · rw [sending_lane Lane.buf (fun _ => rfl)]
          exact howns.2.2
    | _ => cases hisRead
  reads j hread := by
    rw [sending_lane Lane.reads (fun _ => rfl)]
    exact h.reads j hread
  outside hne := absurd hstate hne
  get _ := by
    obtain ⟨hlanes, hhead⟩ := h.get (by rw [hstate]; rfl)
    exact ⟨fun hpos => ⟨(hlanes hpos).1, fun hne => absurd hstate hne⟩, hhead⟩
  queue hopen hstream hpos :=
    ⟨(h.queue hopen hstream hpos).1,
      (hqueue hopen hpos).congr fun j =>
      ⟨sending_lane Lane.ready (fun _ => rfl) j, sending_lane Lane.off (fun _ => rfl) j,
      sending_lane Lane.len (fun _ => rfl) j⟩⟩

/-- The next piece is the one to be sent from. -/
theorem Flow.picked (h : Flow A cfg s) (hsend : s.sendable = true) :
    Launch A cfg (s.sending s.c.sendI 0) s.c.sendI := by
  obtain ⟨hnone, hmore, hready⟩ := sendable_iff.1 hsend
  have honly := h.phase.only_reads h.state hnone
  refine ⟨h.base.sending _ _, h.phase.sending h.state honly (fun hopen hpos => ?_) _, ?_, h.state,
    rfl, fun hopen => ?_, honly, fun hopen => (h.tracked hopen).2⟩
  · exact (h.phase.queue hopen h.state hpos).2.send hready
  · have hcursor : (s.sending s.c.sendI 0).c.cursor = s.c.cursor := by
      simp [Conn.cursor, Loop.sending, h.state, hnone]
    obtain ⟨hhits, hfirst, ⟨hle, hmax, -⟩, hout, houtSent, hlength, hexact⟩ :=
      (data_iff_streaming h.state).1 h.data
    refine (data_iff_streaming (c := (s.sending s.c.sendI 0).c) h.state).2
      ⟨hhits, ?_, ⟨hle, hmax, fun i hi => ?_⟩, hout, houtSent, ?_, ?_⟩
    · rw [hcursor]
      exact hfirst
    · cases hi
      simp [Loop.sending]
    · rw [hcursor]
      exact hlength
    · rw [hcursor]
      exact hexact
  · rw [sending_lane Lane.haveBuf (fun _ => rfl)]
    exact (h.base.bufs.held _).2 (h.phase.queue hopen h.state (h.lanes hmore)).1

/-- The first part of an iteration. -/
theorem Flow.send_next (h : Flow A cfg s) (hsend : s.sendable = true) :
    (s.sendNext.c.closing = true ∧ Inv A cfg s.sendNext) ∨
      (s.sendNext.c.closing = false ∧ Flow A cfg s.sendNext) := by
  obtain ⟨hnone, -, -⟩ := sendable_iff.1 hsend
  rw [send_next_eq]
  rcases (h.picked hsend).start with
    hclosed | ⟨hopen, hpos, ⟨io, heq⟩, hbase, hphase, htracked, hdata⟩
  · exact Or.inl hclosed
  · refine Or.inr ⟨hopen, hbase, hphase, hdata, htracked, ?_, fun hclose => ?_,
      fun hroomy => Or.inl ?_⟩
    · rw [heq]
      exact h.state
    · cases hopen.symm.trans hclose
    · have hroom : 0 < s.room := hpos
      rcases h.room hroomy with ⟨hneed, hspare⟩ | ⟨hzero, -⟩
      · unfold Loop.sendNeed at hneed hspare
        rw [hnone] at hneed hspare
        rw [heq]
        refine ⟨Nat.zero_le _, fun hread rs hrs pos buf piece hpiece => ?_⟩
        have hfits := hspare hread rs hrs pos buf piece hpiece
        show piece.segs.length + 0 ≤ s.room - 1
        simp only [Option.isNone_none, if_true] at hfits
        omega
      · omega

theorem indexed_head_len_le {σ : State} (h : Residency cfg σ) (d : Digest) :
    σ.indexedHeadLen d ≤ cfg.tiers.ramHead := by
  unfold State.indexedHeadLen
  cases hm : σ.index.lookup d with
  | none => exact Nat.zero_le _
  | some m =>
      show m.headLen ≤ cfg.tiers.ramHead
      unfold ObjectMeta.headLen
      cases hr : m.head with
      | none => exact Nat.zero_le _
      | some r =>
          show r.len ≤ cfg.tiers.ramHead
          rw [(h.indexed d m hm).len_eq r hr]
          exact Nat.min_le_right _ _

/-- The next piece can be planned. -/
theorem Flow.piece (h : Flow A cfg s) (hfill : s.fillable = true) : ∃ rs piece, s.c.rs = some rs ∧
    planPiece cfg s.σ rs s.c.planPos s.c.getSize s.iobufs.blockBytes
      (s.mem (s.c.lane s.c.fillI).buf) =
      some piece ∧ 0 < piece.len ∧ s.c.planPos + piece.len ≤ s.c.getSize := by
  obtain ⟨-, hmore, hheld, -, -⟩ := fillable_iff.1 hfill
  obtain ⟨⟨rs, hrs, hmaps, hsize⟩, -⟩ := h.get.1 (h.base.lanes_pos hheld)
  have hchunk := h.base.chunk
  refine ⟨rs, _, hrs, plan_piece_eq hmaps (indexed_head_len_le h.base.residency _)
    hmore hsize _ _, ?_, ?_⟩
  · show 0 < min s.iobufs.blockBytes (s.c.getSize - s.c.planPos)
    omega
  · show s.c.planPos + min s.iobufs.blockBytes (s.c.getSize - s.c.planPos) ≤ s.c.getSize
    omega

theorem Base.filled (h : Base A cfg s) {piece : LanePiece} {segs : List Seg} {r : Option (Fin 2)}
    (hheld : (s.c.lane i).haveBuf = true)
    (hr : r = none ∨ r = some i ∧ segs = piece.segs ∧ piece.segs.isEmpty = false) :
    Base A cfg (s.filled i piece segs r) where
  __ := h
  bufs := h.bufs.set rfl rfl
  count := by
    show s.c.inflight + segs.length = (s.c.pending ++ segs.map _).length
    rw [h.count, List.length_append, List.length_map]
  sane hroomy := by
    have hlanes := h.lanes_pos hheld
    show (s.c.undefined || s.c.nLanes == 0) = false
    rw [h.sane hroomy, Bool.false_or, beq_eq_false_iff_ne]
    omega
  results := by
    have hother : ∀ j, j ≠ i → r ≠ some j := by
      rintro j hne rfl
      rcases hr with hr | ⟨hr, -, -⟩ <;> cases hr
      exact hne rfl
    intro j
    rcases eq_or_ne j i with rfl | hne
    · rw [filled_lane_self]
      refine ⟨fun hready seg hseg => ?_, fun hread seg hseg => ?_, fun _ _ e he => ?_,
        fun _ e he => ?_, fun _ _ => rfl, fun hread => ?_⟩
      · have hnil : piece.segs = [] := List.isEmpty_iff.1 hready
        change seg ∈ piece.segs at hseg
        rw [hnil] at hseg
        cases hseg
      · rcases hr with rfl | ⟨-, rfl, -⟩
        · cases hread
        · exact Or.inr ⟨_, List.mem_append_right _ (List.mem_map_of_mem hseg)⟩
      · cases he
      · cases he
      · rcases hr with rfl | ⟨-, -, hsome⟩
        · cases hread
        · exact hsome
    · rw [filled_lane_of_ne s hne]
      exact ⟨(h.results j).complete, fun hread => absurd hread (hother j hne),
        fun hread => absurd hread (hother j hne), (h.results j).whole,
        fun _ hread => absurd hread (hother j hne), fun hread => absurd hread (hother j hne)⟩
  sends hwhole io hio := by
    rcases List.mem_append.1 hio with hold | hnew
    · exact h.sends hwhole io hold
    · obtain ⟨seg, -, rfl⟩ := List.mem_map.1 hnew
      trivial
  windows hintact hstale hstate j hj hready p hp := by
    obtain ⟨hold, hagrees⟩ := Bool.or_eq_false_iff.1 hstale
    rcases eq_or_ne j i with rfl | hne
    · rw [filled_lane_self] at hready hp ⊢
      have hempty : piece.segs.isEmpty = true := hready
      rw [hempty, Bool.true_and, Bool.not_eq_false'] at hagrees
      show Function.update s.mem (s.c.lane j).buf piece.buf (s.c.lane j).buf p =
          s.c.object (s.c.planPos + p)
      rw [Function.update_self]
      exact of_decide_eq_true hagrees p hp
    · rw [filled_lane_of_ne s hne] at hj hready hp ⊢
      show Function.update s.mem (s.c.lane i).buf piece.buf (s.c.lane j).buf p = _
      rw [Function.update_of_ne (h.bufs.ne hj hheld hne)]
      exact h.windows hintact hold hstate j hj hready p hp
  served hintact hstale := h.served hintact (Bool.or_eq_false_iff.1 hstale).1

/-- An operation that is no read of the stream does not depend on a lane that is not sent from. -/
theorem Flow.owns_filled (h : Flow A cfg s) (hread : s.c.readLane = none)
    (hne : s.c.sendLane ≠ some s.c.fillI) {io : Io} (hio : io ∈ s.c.pending) {piece : LanePiece}
    {segs : List Seg} {r : Option (Fin 2)} (hr : ∀ j, j ≠ s.c.fillI → r ≠ some j) :
    Owns (s.filled s.c.fillI piece segs r).c io := by
  have howns := h.phase.owns io hio
  cases io with
  | sendLane j buf sent n planned done =>
      have hj : j ≠ s.c.fillI := by
        rintro rfl
        exact hne howns.2.1
      obtain ⟨hstate, hsend, hheld, hbuf, hsent, hn, hready, hoff, hpos, -⟩ := howns
      refine ⟨hstate, hsend, ?_⟩
      unfold Conn.Sending
      rw [filled_lane_of_ne s hj]
      exact ⟨hheld, hbuf, hsent, hn, hready, hoff,
        Nat.le_trans hpos (Nat.le_add_right _ _), hr j hj⟩
  | read j buf seg => cases hread.symm.trans howns.1
  | _ => exact howns

section

variable {piece : LanePiece} {r : Option (Fin 2)}

/-- The reads of the new piece are the only ones, and the piece is the last of the queue. -/
theorem Flow.phase_filled (h : Flow A cfg s) (hfill : s.fillable = true) (hlen : 0 < piece.len)
    (hr : piece.segs.isEmpty = true ∧ r = none ∨ piece.segs.isEmpty = false ∧ r = some s.c.fillI) :
    Phase cfg (s.filled s.c.fillI piece piece.segs r) := by
  obtain ⟨hnone, -, hheld, hnot, hne⟩ := fillable_iff.1 hfill
  have hnoread : s.c.pending.filter Io.isRead = [] := by
    rw [List.filter_eq_nil_iff]
    intro io hio
    have howns := h.phase.owns io hio
    cases io with
    | read j buf seg => cases hnone.symm.trans howns.1
    | _ => exact Bool.false_ne_true
  refine ⟨fun io hio => ?_, ?_, fun i hi => ?_, fun hstate => absurd h.state hstate, h.phase.rest,
    fun _ => ⟨fun hpos => ⟨(h.get.1 hpos).1, fun hstate => absurd h.state hstate⟩, h.get.2⟩,
    fun hopen hstate hpos => ?_, h.phase.waits⟩
  · rcases List.mem_append.1 hio with hold | hnew
    · refine h.owns_filled hnone hne hold fun j hj hread => ?_
      rcases hr with ⟨-, rfl⟩ | ⟨-, rfl⟩
      · cases hread
      · cases hread
        exact hj rfl
    · obtain ⟨seg, hseg, rfl⟩ := List.mem_map.1 hnew
      have hread : r = some s.c.fillI := by
        refine (hr.resolve_left fun hempty => ?_).2
        exact List.ne_nil_of_mem hseg (List.isEmpty_iff.1 hempty.1)
      refine ⟨hread, ?_, ?_⟩ <;> rw [filled_lane_self]
      · exact hheld
      · rfl
  · show ((s.c.pending ++ _).filter fun io => !io.isRead).length ≤ 1
    have hno : (piece.segs.map (Io.read s.c.fillI (s.c.lane s.c.fillI).buf)).filter
        (fun io => !io.isRead) = [] := by
      rw [List.filter_eq_nil_iff]
      intro io hio
      obtain ⟨seg, -, rfl⟩ := List.mem_map.1 hio
      exact Bool.false_ne_true
    rw [List.filter_append, hno, List.append_nil]
    exact h.phase.single
  · have hread : r = some i := hi
    rcases hr with ⟨-, rfl⟩ | ⟨-, rfl⟩
    · cases hread
    · cases hread
      rw [filled_lane_self]
      show piece.segs.length = ((s.c.pending ++ _).filter Io.isRead).length
      rw [List.filter_append, hnoread, List.nil_append, List.filter_eq_self.2, List.length_map]
      intro io hio
      obtain ⟨seg, -, rfl⟩ := List.mem_map.1 hio
      rfl
  · -- `fill_i` goes round the lanes, of which there are at most two
    obtain ⟨hlt, hqueue⟩ := h.phase.queue hopen hstate hpos
    refine ⟨hlt, hqueue.fill h.base.bufs.lanes hlt hnone hnot rfl hlen hr ?_⟩
    show ((s.c.fillI.val + 1) % s.c.nLanes) % 2 = (s.c.fillI.val + 1) % s.c.nLanes
    exact Nat.mod_eq_of_lt (Nat.lt_of_lt_of_le (Nat.mod_lt _ hpos) h.base.bufs.lanes)

/-- Nothing of what is being sent is in the lane that is filled. -/
theorem Flow.data_filled (h : Flow A cfg s) (hfill : s.fillable = true)
    (hend : s.c.planPos + piece.len ≤ s.c.getSize) :
    Data A (s.filled s.c.fillI piece piece.segs r).c := by
  obtain ⟨-, -, -, -, hne⟩ := fillable_iff.1 hfill
  have hlane : ∀ i, s.c.sendLane = some i →
      (s.filled s.c.fillI piece piece.segs r).c.lane i = s.c.lane i := by
    rintro i hi
    refine filled_lane_of_ne s ?_ _ _ _
    rintro rfl
    exact hne hi
  have hstate : (s.filled s.c.fillI piece piece.segs r).c.state = .getStream := h.state
  have hcursor : (s.filled s.c.fillI piece piece.segs r).c.cursor = s.c.cursor := by
    unfold Conn.cursor
    rw [h.state, hstate]
    show s.c.sendPos + (s.c.sendLane.map _).getD 0 = s.c.sendPos + (s.c.sendLane.map _).getD 0
    cases hsend : s.c.sendLane with
    | none => rfl
    | some i => rw [Option.map_some, Option.map_some, hlane i hsend]
  obtain ⟨hhits, hfirst, ⟨hle, hmax, hsent⟩, hout, houtSent, hlength, hexact⟩ :=
    (data_iff_streaming h.state).1 h.data
  refine (data_iff_streaming hstate).2
    ⟨hhits, ?_, ⟨?_, ?_, fun i hi => ?_⟩, hout, houtSent, ?_, fun hintact hstale => ?_⟩
  · rw [hcursor]
    exact hfirst
  · show s.c.sendPos ≤ s.c.planPos + piece.len
    omega
  · show s.c.planPos + piece.len ≤ max s.c.first s.c.getSize
    omega
  · rw [hlane i hi]
    exact hsent i hi
  · rw [hcursor]
    exact hlength
  · rw [hcursor]
    exact hexact hintact (Bool.or_eq_false_iff.1 hstale).1

end

/-- A piece has been planned, and its reads are under way. -/
theorem Flow.filled (h : Flow A cfg s) (hfill : s.fillable = true) {piece : LanePiece}
    (hlen : 0 < piece.len) (hend : s.c.planPos + piece.len ≤ s.c.getSize)
    (hspare : s.Spare cfg → piece.segs.length + s.sendNeed ≤ s.room) :
    Flow A cfg (s.filled s.c.fillI piece piece.segs
      (if piece.segs.isEmpty then s.c.readLane else some s.c.fillI)) := by
  obtain ⟨hnone, -, hheld, -, -⟩ := fillable_iff.1 hfill
  rw [hnone]
  generalize hr' : (if piece.segs.isEmpty then none else some s.c.fillI) = r
  have hr : piece.segs.isEmpty = true ∧ r = none ∨
      piece.segs.isEmpty = false ∧ r = some s.c.fillI := by
    rw [← hr']
    cases piece.segs.isEmpty with
    | true => exact Or.inl ⟨rfl, rfl⟩
    | false => exact Or.inr ⟨rfl, rfl⟩
  refine ⟨h.base.filled hheld ?_, h.phase_filled hfill hlen hr, h.data_filled hfill hend,
    fun hopen => ⟨fun hsend => ?_, fun hread => ?_⟩, h.state, h.closed, fun hroomy => ?_⟩
  · rcases hr with ⟨-, rfl⟩ | ⟨hsome, rfl⟩
    · exact Or.inl rfl
    · exact Or.inr ⟨rfl, rfl, hsome⟩
  · obtain ⟨io, hio, hnot⟩ := (h.tracked hopen).1 hsend
    exact ⟨io, List.mem_append_left _ hio, hnot⟩
  · rcases hr with ⟨-, rfl⟩ | ⟨hsome, -⟩
    · exact absurd rfl hread
    · obtain ⟨seg, hseg⟩ := List.exists_mem_of_ne_nil _ (List.isEmpty_eq_false_iff.1 hsome)
      exact ⟨.read s.c.fillI (s.c.lane s.c.fillI).buf seg,
        List.mem_append_right _ (List.mem_map_of_mem hseg), rfl⟩
  · rcases h.room hroomy with hold | ⟨hzero, hsend⟩
    · have hfits := hspare hold
      refine Or.inl ⟨?_, fun hread rs hrs pos buf piece' hpiece => ?_⟩
      · show s.sendNeed ≤ s.room - piece.segs.length
        omega
      · rcases hr with ⟨hempty, -⟩ | ⟨-, rfl⟩
        · show piece'.segs.length + s.sendNeed ≤ s.room - piece.segs.length
          rw [List.isEmpty_iff.1 hempty]
          exact hold.2 hnone rs hrs pos buf piece' hpiece
        · cases hread
    · refine Or.inr ⟨?_, Or.inl (hsend.resolve_right fun hfalse => ?_)⟩
      · show s.room - piece.segs.length = 0
        omega
      · cases hfill.symm.trans hfalse

/-- The second part of an iteration. -/
theorem Flow.plan_lane_read (h : Flow A cfg s) (hfill : s.fillable = true) {ok : Bool} {s' : Loop P}
    (hplan : Loop.planLaneRead cfg s s.c.fillI = (ok, s')) :
    if ok = false then Inv A cfg s'.abortGet else Flow A cfg s' := by
  obtain ⟨hread, -, hheld, -, -⟩ := fillable_iff.1 hfill
  obtain ⟨rs, piece, hrs, hpiece, hlen, hend⟩ := h.piece hfill
  have hspare : s.Spare cfg → piece.segs.length + s.sendNeed ≤ s.room :=
    fun hspare => hspare.2 hread rs hrs _ _ piece hpiece
  rw [plan_lane_read_eq hrs hpiece] at hplan
  split at hplan
  · cases hplan
    exact h.filled hfill hlen hend hspare
  · rename_i hfull
    cases hplan
    -- refused: the reads that were submitted are still outstanding
    have hqueues : s.c.Alone := h.phase.waits.alone_of_valuing (congrArg St.valuing h.state)
    refine (h.base.filled hheld (Or.inl hread)).abort h.state (fun io hio => ?_)
      hqueues fun hroomy => ?_
    · rcases List.mem_append.1 hio with hold | hnew
      · exact h.phase.on_lane h.state io hold
      · obtain ⟨seg, -, rfl⟩ := List.mem_map.1 hnew
        rfl
    rcases h.room hroomy with hold | ⟨hzero, hsend⟩
    · have hfits := hspare hold
      omega
    · have hnone : s.c.sendLane = none :=
        hsend.resolve_right fun hfalse => absurd (hfill.symm.trans hfalse) (by decide)
      show s.c.pending ++ ((piece.segs.take s.room).map _) = []
      rw [h.phase.pending_nil h.state hnone hread, hzero]
      rfl

/-- The end of the value. -/
theorem Flow.value_sent (h : Flow A cfg s) (hv : v.Sound A cfg) (hsend : s.c.sendLane = none)
    (hread : s.c.readLane = none) (hend : s.c.getSize ≤ s.c.sendPos) :
    Inv A cfg (s.onValueSent v) := by
  obtain ⟨hhits, hfirst, ⟨hle, hmax, -⟩, hout, houtSent, hlength, hexact⟩ :=
    (data_iff_streaming h.state).1 h.data
  have hcursor : s.c.cursor = s.c.sendPos := by
    simp [Conn.cursor, h.state, hsend]
  have hqueues : s.c.Alone := h.phase.waits.alone_of_valuing (congrArg St.valuing h.state)
  rw [hcursor] at hfirst hlength hexact
  rw [window_nil _ hend] at hlength
  refine h.base.value_sent hv (h.phase.pending_nil h.state hsend hread) hqueues hread hsend
    ⟨?_, ?_, ?_, fun hintact hstale => ?_⟩ fun hintact hstale => ?_
  · show (s.c.served ++ _).length = s.c.hits
    rw [List.length_append]
    exact hhits
  · show s.c.outSent ≤ s.c.out.length
    rw [houtSent]
    exact Nat.zero_le _
  · show s.c.sent.length + (s.c.out.drop s.c.outSent).length = s.c.owed.length
    rw [hout, List.drop_nil]
    exact hlength
  · show s.c.sent ++ s.c.out.drop s.c.outSent = s.c.owed
    rw [hout, List.drop_nil, ← (hexact hintact hstale).2, window_nil _ hend]
  · -- a window that ends before it begins is empty, like one that ends where it begins
    rw [(hexact hintact hstale).1]
    unfold window
    rw [show s.c.sendPos - s.c.first = s.c.getSize - s.c.first by omega]

/-- A stream that can go on with nothing waits for something. -/
theorem Flow.inv (h : Flow A cfg s) (hsend : s.sendable = false) (hfill : s.fillable = false)
    (hend : ¬ (s.c.sendLane.isNone && s.c.readLane.isNone && s.c.getSize ≤ s.c.sendPos) = true) :
    Inv A cfg s := by
  refine ⟨h.base, Or.inl ⟨h.phase, h.tracked, fun hopen hstate hpending => ?_, h.data⟩⟩
  have hnone : s.c.sendLane = none := by
    by_contra hsome
    obtain ⟨io, hio, -⟩ := (h.tracked hopen).1 hsome
    rw [hpending] at hio
    cases hio
  have hread : s.c.readLane = none := by
    by_contra hsome
    obtain ⟨io, hio, -⟩ := (h.tracked hopen).2 hsome
    rw [hpending] at hio
    cases hio
  have hmore : s.c.sendPos < s.c.getSize := by
    by_contra hover
    refine hend ?_
    simp [hnone, hread, Nat.not_lt.1 hover]
  have hlanes := h.lanes hmore
  obtain ⟨hlt, hqueue⟩ := h.phase.queue hopen h.state hlanes
  have hnot : (s.c.lane s.c.sendI).ready ≠ true := fun hready =>
    absurd (hsend.symm.trans (sendable_iff.2 ⟨hnone, hmore, hready⟩)) (by decide)
  have hfilled : ∀ off, ¬ Filled s.c.lane s.c.readLane s.c.sendI off := by
    intro off hfilled
    rcases hfilled.either with hready | hreading
    · exact hnot hready.1
    · cases hread.symm.trans hreading.2
  cases hqueue with
  | empty pos fill free send =>
      refine absurd (hfill.symm.trans
        (fillable_iff.2 ⟨hread, by omega, ?_, (free _).1, ?_⟩)) (by decide)
      · rw [fill]
        exact (h.base.bufs.held _).2 hlt
      · rw [hnone]
        exact nofun
  | one filled pos fill free send => exact hfilled _ filled
  | two lanes first ready filled pos fill send => exact hnot ready

theorem Flow.pump_once (h : Flow A cfg s) (hv : v.Sound A cfg) :
    if (s.pumpOnce cfg v).1 = true then Flow A cfg (s.pumpOnce cfg v).2
    else Inv A cfg (s.pumpOnce cfg v).2 := by
  obtain ⟨s₁, hfirst, ⟨hsend, hclosed, heq⟩ | ⟨hopen, ok, s₂, hsecond, heq⟩⟩ :=
    pump_once_cases cfg s v
  · rw [heq]
    rcases hfirst with ⟨-, rfl⟩ | ⟨hnot, -⟩
    · rcases h.send_next hsend with ⟨-, hinv⟩ | ⟨hopen, -⟩
      · exact hinv
      · cases hopen.symm.trans hclosed
    · cases hsend.symm.trans hnot
  · have hflow : Flow A cfg s₁ := by
      rcases hfirst with ⟨hsend, rfl⟩ | ⟨-, rfl⟩
      · rcases h.send_next hsend with ⟨hclosed, -⟩ | ⟨-, hflow⟩
        · cases (hopen hsend).symm.trans hclosed
        · exact hflow
      · exact h
    have hplan : if ok = false then Inv A cfg s₂.abortGet else Flow A cfg s₂ := by
      rcases hsecond with ⟨hfill, hplan⟩ | ⟨-, rfl, rfl⟩
      · exact hflow.plan_lane_read hfill hplan
      · exact hflow
    rw [heq]
    split at hplan
    · rename_i hok
      rw [if_pos hok]
      exact hplan
    · rename_i hok
      rw [if_neg hok]
      split
      · rename_i hend
        simp only [Bool.and_eq_true, Option.isNone_iff_eq_none, decide_eq_true_eq] at hend
        exact hplan.value_sent hv hend.1.1 hend.1.2 hend.2
      · rename_i hend
        cases hagain : s.sendable || s₁.fillable with
        | true => exact hplan
        | false =>
            rw [Bool.or_eq_false_iff] at hagain
            rcases hfirst with ⟨hsend, -⟩ | ⟨hnosend, rfl⟩
            · cases hsend.symm.trans hagain.1
            · rcases hsecond with ⟨hfill, -⟩ | ⟨hnofill, -, rfl⟩
              · cases hfill.symm.trans hagain.2
              · exact h.inv hnosend hnofill hend

theorem Flow.pump_loop (h : Flow A cfg s) (hv : v.Sound A cfg) {fuel : Nat}
    (hfuel : pumpRank s.c < fuel) :
    Inv A cfg (Loop.pumpLoop cfg v fuel s) := by
  induction fuel generalizing s with
  | zero => cases hfuel
  | succ fuel ih =>
      rw [Loop.pumpLoop]
      have honce := h.pump_once hv
      have hrank := pump_once_rank (s := s) cfg v
      rcases hpump : Loop.pumpOnce cfg s v with ⟨again, s'⟩
      rw [hpump] at honce hrank
      cases again with
      | false => exact honce
      | true => exact ih honce (Nat.lt_of_lt_of_le (hrank rfl) (Nat.le_of_lt_succ hfuel))

/-- When the pump stops, the connection is between two events. -/
theorem Flow.pump_stream (h : Flow A cfg s) (hv : v.Sound A cfg) : Inv A cfg (s.pumpStream cfg v) :=
  h.pump_loop hv (Nat.lt_succ_of_le (pump_rank_le s.c))

end GoblinStore.Net
