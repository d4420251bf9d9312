import GoblinStore.Net.Completions

/-!
# The events of the stream

A send from a lane and the reads of a piece complete independently of each other. Either way the
pump runs again unless more of the same is outstanding, so the invariant of the pump (`Flow`) is
what has to be shown.
-/

namespace GoblinStore.Net

open GoblinStore.Lib GoblinStore.Core

variable {P : Type} {A : Terms} {cfg : Config} {s : Loop P} {v : Seams P} {k : Nat} {io : Io}

/-! ## Sends from a lane -/

variable {i : Fin 2}

/-- Once the send of a lane has completed, the lane can be sent from again. -/
theorem Phase.launch (h : Phase cfg s) (hbase : Base A cfg s) (htracked : Tracked s.c)
    (hdata : Data A s.c) {buf sent n : Nat} {segs : List Seg} {done : List (Seg × Int)}
    (hk : s.c.pending[k]? = some (.sendLane i buf sent n segs done)) (room : Nat) :
    Launch A cfg (s.taken k room) i := by
  obtain ⟨hstate, hsend, hheld, -⟩ := h.owns _ (List.mem_of_getElem? hk)
  refine ⟨hbase.taken hk (Or.inl rfl) room, h.taken hk rfl room, hdata, hstate, hsend,
    fun _ => hheld, h.only_taken hk rfl room, fun hopen hread => ?_⟩
  obtain ⟨io', hio', hisRead⟩ := (htracked hopen).2 hread
  refine ⟨io', mem_taken_of_ne hk room hio' ?_, hisRead⟩
  rintro rfl
  cases hisRead

/-- These bytes of the value have been sent. -/
def Loop.wired (s : Loop P) (bytes : List UInt8) : Loop P :=
  { s with c := { s.c with wire := s.c.wire ++ bytes, sent := s.c.sent ++ bytes } }

/-- The cursor moves on with the bytes that are sent. -/
theorem Launch.streaming (h : Launch A cfg s i) (hsending : s.c.Sending i) {m : Nat}
    {bytes : List UInt8} (hm : m ≤ (s.c.lane i).len - (s.c.lane i).sent) (hlen : bytes.length = m)
    (hbytes : A.intact → s.c.stale = false →
      bytes = (List.range m).map fun j => s.c.object (s.c.sendPos + (s.c.lane i).sent + j)) :
    ((s.wired bytes).sending i ((s.c.lane i).sent + m)).c.Streaming A := by
  obtain ⟨hhits, hfirst, ⟨hle, hmax, hsent⟩, hout, houtSent, hlength, hexact⟩ :=
    (data_iff_streaming h.state).1 h.data
  obtain ⟨-, -, hpos, -⟩ := hsending
  have hsent := hsent i h.lane
  have hcursor : s.c.cursor = s.c.sendPos + (s.c.lane i).sent := by
    unfold Conn.cursor
    rw [h.state, h.lane]
    rfl
  have hcursor' : ((s.wired bytes).sending i ((s.c.lane i).sent + m)).c.cursor =
      s.c.cursor + m := by
    rw [hcursor]
    simp [Conn.cursor, Loop.sending, Loop.wired, h.state, Nat.add_assoc]
  rw [← hcursor] at hbytes
  have hsplit := window_split s.c.object (show s.c.cursor + m ≤ max s.c.cursor s.c.getSize by omega)
  refine ⟨hhits, ?_, ⟨hle, hmax, fun j hj => ?_⟩, hout, houtSent, ?_,
    fun hintact hstale => ⟨?_, ?_⟩⟩
  · rw [hcursor']
    exact Nat.le_trans hfirst (Nat.le_add_right _ _)
  · cases hj
    show (Function.update s.c.lane i { s.c.lane i with sent := (s.c.lane i).sent + m } i).sent ≤
      (Function.update s.c.lane i { s.c.lane i with sent := (s.c.lane i).sent + m } i).len
    rw [Function.update_self]
    show (s.c.lane i).sent + m ≤ (s.c.lane i).len
    omega
  · rw [hsplit, List.length_append, List.length_map, List.length_range] at hlength
    rw [hcursor']
    show (s.c.sent ++ bytes).length + _ = s.c.owed.length
    rw [List.length_append, hlen, Nat.add_assoc]
    exact hlength
  · rw [hcursor']
    show s.c.wire ++ bytes = window s.c.object s.c.first (s.c.cursor + m)
    rw [(hexact hintact hstale).1, hbytes hintact hstale]
    exact window_append s.c.object hfirst m
  · have howed := (hexact hintact hstale).2
    rw [hsplit, ← hbytes hintact hstale, ← List.append_assoc] at howed
    rw [hcursor']
    exact howed

/-- `next` stays among the lanes. -/
theorem Base.next_val (h : Base A cfg s) (hpos : 0 < s.c.nLanes) (i : Fin 2) :
    (s.c.next i).val = (i.val + 1) % s.c.nLanes :=
  Nat.mod_eq_of_lt (Nat.lt_of_lt_of_le (Nat.mod_lt _ hpos) h.bufs.lanes)

theorem wired_nil (s : Loop P) : s.wired [] = s := by
  unfold Loop.wired
  rw [List.append_nil, List.append_nil]

/-- A part of the piece has been sent. -/
theorem Launch.sent (h : Launch A cfg s i) {n : Nat} {bytes : List UInt8}
    (hstream : ((s.wired bytes).sending i n).c.Streaming A) :
    Launch A cfg ((s.wired bytes).sending i n) i := by
  have hbase : Base A cfg (s.wired bytes) := { h.base with }
  have hphase : Phase cfg (s.wired bytes) := { h.phase with }
  refine ⟨hbase.sending i n, hphase.sending h.state h.only (fun hopen hpos => ?_) n,
    (data_iff_streaming (c := ((s.wired bytes).sending i n).c) h.state).2 hstream, h.state, rfl,
    fun hopen => ?_, h.only, h.reading⟩
  · rw [← h.lane]
    exact (h.phase.queue hopen h.state hpos).2
  · rw [sending_lane Lane.haveBuf (fun _ => rfl)]
    exact h.held hopen

/-- The piece of lane `i` is sent: the next one comes from the next lane. -/
def Loop.cleared (s : Loop P) (i : Fin 2) : Loop P :=
  { s with c := { s.c with
    lane := Function.update s.c.lane i (s.c.lane i).clear
    sendPos := s.c.sendPos + (s.c.lane i).len
    sendLane := none
    sendI := s.c.next s.c.sendI
    undefined := s.c.undefined || s.c.nLanes == 0 } }

theorem Launch.base_cleared (h : Launch A cfg s i) (hread : s.c.readLane ≠ some i)
    (hpos : 0 < s.c.nLanes) : Base A cfg (s.cleared i) where
  __ := h.base
  bufs := h.base.bufs.set rfl rfl
  sane hroomy := by
    show (s.c.undefined || s.c.nLanes == 0) = false
    rw [h.base.sane hroomy, Bool.false_or, beq_eq_false_iff_ne]
    exact Nat.ne_of_gt hpos
  results := Results.set h.base.results
    ⟨nofun, fun heq => absurd heq hread, fun heq => absurd heq hread,
      (h.base.results i).whole, fun _ heq => absurd heq hread, fun _ => rfl⟩
  windows hintact hstale hstate j hheld hready := by
    change (Function.update s.c.lane i _ j).haveBuf = true at hheld
    change (Function.update s.c.lane i _ j).ready = true at hready
    show ∀ p < (Function.update s.c.lane i _ j).len, s.mem (Function.update s.c.lane i _ j).buf p =
      s.c.object ((Function.update s.c.lane i _ j).off + p)
    rcases eq_or_ne j i with rfl | hne
    · rw [Function.update_self] at hready
      cases hready
    · rw [Function.update_of_ne hne] at hheld hready ⊢
      exact h.base.windows hintact hstale hstate j hheld hready

theorem Launch.phase_cleared (h : Launch A cfg s i) (hread : s.c.readLane ≠ some i)
    (hpos : 0 < s.c.nLanes) : Phase cfg (s.cleared i) where
  __ := h.phase
  owns io hio := by
    have howns := h.phase.owns io hio
    have hisRead := h.only io hio
    cases io with
    | read j buf seg =>
        have hne : j ≠ i := by
          rintro rfl
          exact hread howns.1
        have hlane : (s.cleared i).c.lane j = s.c.lane j := Function.update_of_ne hne _ _
        exact ⟨howns.1, by rw [hlane]; exact howns.2.1, by rw [hlane]; exact howns.2.2⟩
    | _ => cases hisRead
  reads j hj := by
    have hne : j ≠ i := by
      rintro rfl
      exact hread hj
    show (Function.update s.c.lane i _ j).reads = _
    rw [Function.update_of_ne hne]
    exact h.phase.reads j hj
  outside hne := absurd h.state hne
  get hvalue := by
    obtain ⟨hlanes, -⟩ := h.phase.get hvalue
    refine ⟨fun _ => ⟨(hlanes hpos).1, fun hne => absurd h.state hne⟩, fun hzero => ?_⟩
    exact absurd hpos (by rw [show s.c.nLanes = 0 from hzero]; exact Nat.lt_irrefl 0)
  queue hopen hstate _ := by
    obtain ⟨hlt, hqueue⟩ := h.phase.queue hopen hstate hpos
    have hnext := h.base.next_val hpos s.c.sendI
    refine ⟨?_, hqueue.sent hlt h.lane rfl hnext⟩
    show (s.c.next s.c.sendI).val < s.c.nLanes
    rw [hnext]
    exact Nat.mod_lt _ hpos

/-- The pump goes on after a piece has been sent. -/
theorem Launch.flow (h : Launch A cfg s i) (hsending : s.c.Sending i)
    (hheld : (s.c.lane i).haveBuf = true) (hall : (s.c.lane i).sent = (s.c.lane i).len)
    (henough : s.Enough A cfg) : Flow A cfg (s.cleared i) := by
  obtain ⟨-, -, hplan, hread⟩ := hsending
  have hpos := h.base.lanes_pos hheld
  obtain ⟨hhits, hfirst, ⟨-, hmax, -⟩, hout, houtSent, hlength, hexact⟩ :=
    (data_iff_streaming h.state).1 h.data
  have hcursor : (s.cleared i).c.cursor = s.c.cursor := by
    simp [Conn.cursor, Loop.cleared, h.state, h.lane, hall]
  refine ⟨h.base_cleared hread hpos, h.phase_cleared hread hpos,
    (data_iff_streaming (c := (s.cleared i).c) h.state).2
    ⟨hhits, ?_, ⟨hplan, hmax, fun j hj => by cases hj⟩, hout, houtSent, ?_, ?_⟩,
    fun hopen => ⟨fun hnone => absurd rfl hnone, h.reading hopen⟩, h.state, fun _ => rfl,
    fun hroomy => ?_⟩
  · rw [hcursor]
    exact hfirst
  · rw [hcursor]
    exact hlength
  · rw [hcursor]
    exact hexact
  · rcases henough hroomy with hzero | ⟨hone, hfits⟩
    · exact Or.inr ⟨hzero, Or.inl rfl⟩
    · exact Or.inl ⟨hone, fun _ => hfits⟩

theorem Base.close (h : Base A cfg s) (hphase : Phase cfg s) (hdata : Data A s.c) :
    Inv A cfg s.closeConn :=
  ⟨{ h with },
    Or.inl ⟨{ hphase with queue := nofun }, nofun, nofun, hdata⟩⟩

/-- The cursor of a lane's send is in the window of what the buffer holds. -/
theorem Launch.sent_bytes (h : Launch A cfg s i) (hsending : s.c.Sending i)
    (hheld : (s.c.lane i).haveBuf = true) {m : Nat} (hm : m ≤ (s.c.lane i).len - (s.c.lane i).sent)
    (hintact : A.intact) (hstale : s.c.stale = false) :
    (List.range m).map (fun j => s.mem (s.c.lane i).buf ((s.c.lane i).sent + j)) =
      (List.range m).map fun j => s.c.object (s.c.sendPos + (s.c.lane i).sent + j) := by
  obtain ⟨hready, hoff, -, -⟩ := hsending
  refine List.map_congr_left fun j hj => ?_
  have hlt := List.mem_range.1 hj
  rw [h.base.windows hintact hstale h.state i hheld hready _ (by omega), hoff, Nat.add_assoc]

theorem on_lane_sent_eq (hsend : s.c.sendLane = some i) (n : Nat) :
    s.onLaneSent cfg n v = if (s.c.lane i).sent + n < (s.c.lane i).len then
        (s.sending i ((s.c.lane i).sent + n)).startLaneSend
      else Loop.pumpStream cfg ((s.sending i ((s.c.lane i).sent + n)).cleared i) v := by
  unfold Loop.onLaneSent
  rw [hsend]
  dsimp only
  split_ifs
  · unfold Loop.sending Conn.setLane
    rw [← hsend]
  · unfold Loop.cleared Loop.sending Conn.setLane
    dsimp only
    rw [Function.update_self, Function.update_idem]
    rfl

/-- A send from a lane has completed. -/
theorem Launch.on_send (h : Launch A cfg s i) (hv : v.Sound A cfg) (hsending : s.c.Sending i)
    (hheld : (s.c.lane i).haveBuf = true) (henough : s.Enough A cfg) {res : Int}
    (hres : res ≤ ((s.c.lane i).len - (s.c.lane i).sent : Nat)) :
    Inv A cfg (Loop.onSend cfg (s.wired ((List.range res.toNat).map fun j =>
      s.mem (s.c.lane i).buf ((s.c.lane i).sent + j))) res v) := by
  unfold Loop.onSend
  by_cases hpos : 0 < res
  · rw [if_neg (by omega), if_neg (by omega)]
    have hm : res.toNat ≤ (s.c.lane i).len - (s.c.lane i).sent := by omega
    have hstream := h.streaming hsending hm (by rw [List.length_map, List.length_range])
      (h.sent_bytes hsending hheld hm)
    have hsent := h.sent hstream
    revert hstream hsent
    generalize (List.range res.toNat).map _ = bytes
    intro hstream hsent
    have hstate : (s.wired bytes).c.state = .getStream := h.state
    rw [hstate]
    show Inv A cfg (Loop.onLaneSent cfg (s.wired bytes) res.toNat v)
    rw [on_lane_sent_eq (s := s.wired bytes) h.lane]
    split_ifs with hmore
    · exact hsent.inv
    · have hmore : ¬ (s.c.lane i).sent + res.toNat < (s.c.lane i).len := hmore
      have hle : (s.c.lane i).sent ≤ (s.c.lane i).len :=
        ((data_iff_streaming h.state).1 h.data).2.2.1.2.2 i h.lane
      refine Flow.pump_stream (hsent.flow ?_ ?_ ?_ henough) hv
      · unfold Conn.Sending
        rw [sending_lane Lane.ready (fun _ => rfl), sending_lane Lane.off (fun _ => rfl),
          sending_lane Lane.len (fun _ => rfl)]
        exact hsending
      · rw [sending_lane Lane.haveBuf (fun _ => rfl)]
        exact hheld
      · rw [sending_lane Lane.len (fun _ => rfl)]
        show (Function.update s.c.lane i _ i).sent = (s.c.lane i).len
        rw [Function.update_self]
        show (s.c.lane i).sent + res.toNat = (s.c.lane i).len
        omega
  · -- nothing has been taken
    have hzero : res.toNat = 0 := by omega
    rw [hzero]
    show Inv A cfg (if res < 0 then if res = Loop.kAgain then _ else _ else if res =
        0 then _ else _)
    rw [List.range_zero, List.map_nil, wired_nil]
    split_ifs
    · rw [h.state]
      exact h.inv
    · exact h.base.close h.phase h.data
    · exact h.base.close h.phase h.data
    · omega

/-! ## Reads -/

/-- A lane after one of its reads. -/
def Lane.arrive (lane : Lane) (seg : Seg) (res : Int) (ready : Bool) : Lane :=
  { lane with
    err := lane.err || decide (res ≤ 0)
    reads := lane.reads - 1
    done := lane.done ++ [(seg, res)]
    ready := ready }

/-- The loop after a read into lane `i`: the last read of the piece makes `r` empty, and `ready` if
none of them failed. -/
def Loop.arrived (s : Loop P) (mem : Nat → Nat → UInt8) (i : Fin 2) (seg : Seg) (res : Int)
    (ready : Bool) (r : Option (Fin 2)) (stale : Bool) : Loop P :=
  { s with
    mem := mem
    c := { s.c with
      lane := Function.update s.c.lane i ((s.c.lane i).arrive seg res ready)
      readLane := r
      stale := stale } }

theorem arrived_lane_self (s : Loop P) (mem : Nat → Nat → UInt8) (i : Fin 2) (seg : Seg) (res : Int)
    (ready : Bool) (r : Option (Fin 2)) (stale : Bool) :
    (s.arrived mem i seg res ready r stale).c.lane i = (s.c.lane i).arrive seg res ready :=
  Function.update_self _ _ _

theorem arrived_lane_of_ne (s : Loop P) (mem : Nat → Nat → UInt8) {j : Fin 2} (h : j ≠ i)
    (seg : Seg) (res : Int) (ready : Bool) (r : Option (Fin 2)) (stale : Bool) :
    (s.arrived mem i seg res ready r stale).c.lane j = s.c.lane j :=
  Function.update_of_ne h _ _

/-- The read has brought its result. -/
theorem Results.arrive {lane : Lane} {buf : Nat} {seg : Seg} {pending : List Io}
    (h : Results A i lane (some i) pending) {pending' : List Io}
    (hpending : ∀ io ∈ pending, io = .read i buf seg ∨ io ∈ pending') {res : Int}
    (hwhole : A.whole → res ≤ 0 ∨ (seg.len : Int) ≤ res) (hfine : A.succeed → 0 < res) :
    Results A i (lane.arrive seg res false) (some i) pending' where
  complete hready := by cases hready
  awaited _ seg' hseg' := by
    rcases h.awaited rfl seg' hseg' with ⟨res', hdone⟩ | ⟨buf', hold⟩
    · exact Or.inl ⟨res', List.mem_append_left _ hdone⟩
    · rcases hpending _ hold with heq | hkept
      · cases heq
        exact Or.inl ⟨res, List.mem_append_right _ (List.mem_singleton_self _)⟩
      · exact Or.inr ⟨buf', hkept⟩
  positive _ herr e he := by
    obtain ⟨hold, hres⟩ := Bool.or_eq_false_iff.1
      (show (lane.err || decide (res ≤ 0)) = false from herr)
    rcases List.mem_append.1 he with hdone | hnew
    · exact h.positive rfl hold e hdone
    · rw [List.mem_singleton.1 hnew]
      exact Int.not_le.1 (of_decide_eq_false hres)
  whole hw e he := by
    rcases List.mem_append.1 he with hdone | hnew
    · exact h.whole hw e hdone
    · rw [List.mem_singleton.1 hnew]
      exact hwhole hw
  fine hsucceed _ := by
    show (lane.err || decide (res ≤ 0)) = false
    rw [h.fine hsucceed rfl, Bool.false_or]
    exact decide_eq_false (Int.not_le.2 (hfine hsucceed))
  reading _ := rfl

/-- Once no read of the piece is outstanding, nothing is waited for. -/
theorem Results.settle {lane : Lane} {pending : List Io} (h : Results A i lane (some i) pending)
    (hpending : ∀ io ∈ pending, io.isRead = false) {ready : Bool}
    (hready : ready = true → lane.err = false) :
    Results A i { lane with ready := ready } none pending where
  complete heq seg hseg := by
    rcases h.awaited rfl seg hseg with ⟨res, hdone⟩ | ⟨buf, hold⟩
    · exact ⟨res, hdone, h.positive rfl (hready heq) _ hdone⟩
    · exact absurd (hpending _ hold) Bool.false_ne_true.symm
  awaited heq := by cases heq
  positive heq := by cases heq
  whole := h.whole
  fine _ heq := by cases heq
  reading heq := by cases heq

section Arrived

variable {i : Fin 2} {buf : Nat} {seg : Seg} {res : Int} {ready : Bool} {r : Option (Fin 2)}
  {stale : Bool} {mem : Nat → Nat → UInt8}

theorem Base.arrived (h : Base A cfg s) (hread : s.c.readLane = some i)
    (hheld : (s.c.lane i).haveBuf = true) (hk : s.c.pending[k]? = some io)
    (hr : r = some i ∨ r = none)
    (hresults : Results A i ((s.c.lane i).arrive seg res ready) r (s.c.pending.eraseIdx k))
    (hmem : ∀ b ≠ (s.c.lane i).buf, mem b = s.mem b) (hstale : stale = false → s.c.stale = false ∧
      (ready = true → ∀ p < (s.c.lane i).len, mem (s.c.lane i).buf p =
        s.c.object ((s.c.lane i).off + p)))
    (room : Nat) : Base A cfg ((s.taken k room).arrived mem i seg res ready r stale) where
  __ := h
  bufs := h.bufs.set rfl rfl
  count := h.taken_count hk
  results j := by
    rcases eq_or_ne j i with rfl | hne
    · rw [arrived_lane_self]
      exact hresults
    · rw [arrived_lane_of_ne _ _ hne]
      have hnot : r ≠ some j := by
        rcases hr with rfl | rfl
        · exact fun heq => hne (Option.some.inj heq).symm
        · exact fun hnone => by cases hnone
      exact ⟨(h.results j).complete, fun heq => absurd heq hnot, fun heq => absurd heq hnot,
        (h.results j).whole, fun _ heq => absurd heq hnot, fun heq => absurd heq hnot⟩
  sends hwhole io' hio' := h.sends hwhole io' (mem_of_taken room hio')
  windows hintact hfalse hstate j := by
    obtain ⟨hold, hready⟩ := hstale hfalse
    rcases eq_or_ne j i with rfl | hne
    · rw [arrived_lane_self]
      exact fun _ => hready
    · rw [arrived_lane_of_ne _ _ hne]
      intro hheld' hready'
      show ∀ p < (s.c.lane j).len, mem (s.c.lane j).buf p = s.c.object ((s.c.lane j).off + p)
      rw [hmem _ (h.bufs.ne hheld' hheld hne)]
      exact h.windows hintact hold hstate j hheld' hready'
  served hintact hfalse := h.served hintact (hstale hfalse).1

/-- Lanes are read only while a value is streamed. -/
theorem Phase.streaming (h : Phase cfg s) (hread : s.c.readLane = some i) :
    s.c.state = .getStream := by
  by_contra hne
  cases (h.outside hne).1.symm.trans hread

theorem Phase.arrived (h : Phase cfg s) (hread : s.c.readLane = some i)
    (hk : s.c.pending[k]? = some (.read i buf seg)) (room : Nat)
    (hr : r = some i ∨ r = none ∧ ∀ io ∈ (s.taken k room).c.pending, io.isRead = false)
    (hqueue : s.c.closing = false → 0 < s.c.nLanes → Queue
      (Function.update s.c.lane i ((s.c.lane i).arrive seg res ready))
      s.c.nLanes r s.c.sendLane s.c.fillI s.c.sendI s.c.planPos s.c.sendPos) :
    Phase cfg ((s.taken k room).arrived mem i seg res ready r stale) := by
  have hstate := h.streaming hread
  refine ⟨fun io hio => ?_, ?_, fun j hj => ?_, fun hne => absurd hstate hne, h.rest,
    fun hvalue => ?_, fun hopen hstream hpos =>
    ⟨(h.queue hopen hstream hpos).1, hqueue hopen hpos⟩, h.waits⟩
  · have howns := h.owns io (mem_of_taken room hio)
    have hlane := h.on_lane hstate io (mem_of_taken room hio)
    cases io with
    | sendLane j buf' sent n segs done =>
        have hne : j ≠ i := by
          rintro rfl
          exact howns.2.2.2.2.2.2.2.2.2 hread
        have hkeep := arrived_lane_of_ne (s.taken k room) mem hne seg res ready r stale
        obtain ⟨-, hsend, hheld, hbuf, hsent, hn, hready, hoff, hplan, hnot⟩ := howns
        rw [Owns, Conn.Sending, hkeep]
        refine ⟨hstate, hsend, hheld, hbuf, hsent, hn, hready, hoff, hplan, ?_⟩
        rcases hr with rfl | ⟨rfl, -⟩
        · exact fun heq => hne (Option.some.inj heq).symm
        · exact fun hnone => by cases hnone
    | read j buf' seg' =>
        rcases hr with rfl | ⟨rfl, hnone⟩
        · obtain ⟨hj, hheld, hbuf⟩ := howns
          cases Option.some.inj (hread.symm.trans hj)
          rw [Owns, arrived_lane_self]
          exact ⟨rfl, hheld, hbuf⟩
        · exact absurd (hnone _ hio) Bool.false_ne_true.symm
    | _ => cases hlane
  · exact Nat.le_trans ((List.eraseIdx_sublist _ _).filter _).length_le h.single
  · rcases hr with rfl | ⟨rfl, -⟩
    · cases Option.some.inj hj
      have hlen := ((taken_perm hk).filter Io.isRead).length_eq
      rw [List.filter_cons_of_pos rfl, List.length_cons, ← h.reads i hread] at hlen
      rw [arrived_lane_self]
      show (s.c.lane i).reads - 1 = ((s.c.pending.eraseIdx k).filter Io.isRead).length
      omega
    · cases hj
  · obtain ⟨hlanes, hzero⟩ := h.get hvalue
    exact ⟨fun hpos => ⟨(hlanes hpos).1, fun hne => absurd hstate hne⟩, hzero⟩

theorem Data.arrived (h : Data A s.c) (hstate : s.c.state = .getStream)
    (hstale : stale = false → s.c.stale = false) (room : Nat) :
    Data A ((s.taken k room).arrived mem i seg res ready r stale).c := by
  have hsent : ∀ j, ((Function.update s.c.lane i ((s.c.lane i).arrive seg res ready)) j).sent =
      (s.c.lane j).sent :=
    update_lane Lane.sent rfl
  have hlen : ∀ j, ((Function.update s.c.lane i ((s.c.lane i).arrive seg res ready)) j).len =
      (s.c.lane j).len :=
    update_lane Lane.len rfl
  have hcursor : ((s.taken k room).arrived mem i seg res ready r stale).c.cursor = s.c.cursor := by
    simp only [Conn.cursor, Loop.arrived, Loop.taken, hsent]
  obtain ⟨hhits, hfirst, ⟨hle, hmax, hbound⟩, hout, houtSent, hlength, hexact⟩ :=
    (data_iff_streaming hstate).1 h
  refine (data_iff_streaming
    (c := ((s.taken k room).arrived mem i seg res ready r stale).c) hstate).2
    ⟨hhits, ?_, ⟨hle, hmax, fun j hj => ?_⟩, hout, houtSent, ?_, fun hintact hfalse => ?_⟩
  · rw [hcursor]
    exact hfirst
  · show (Function.update s.c.lane i ((s.c.lane i).arrive seg res ready) j).sent ≤
      (Function.update s.c.lane i ((s.c.lane i).arrive seg res ready) j).len
    rw [hsent, hlen]
    exact hbound j hj
  · rw [hcursor]
    exact hlength
  · rw [hcursor]
    exact hexact hintact (hstale hfalse)

theorem on_read_eq (hread : s.c.readLane = some i) (hready : (s.c.lane i).ready = false) :
    s.onRead cfg seg res v =
      if (s.c.lane i).reads - 1 ≠ 0 then s.arrived s.mem i seg res false (some i) s.c.stale
      else if s.c.closing then s.arrived s.mem i seg res false none s.c.stale
      else if (s.c.lane i).err || decide (res ≤ 0) then
      (s.arrived s.mem i seg res false none s.c.stale).abortGet
      else Loop.pumpStream cfg (s.arrived s.mem i seg res true none (s.c.stale ||
        !s.c.agrees (s.mem (s.c.lane i).buf) (s.c.lane i).off (s.c.lane i).len)) v := by
  have harrive : { s.c.lane i with
      err := (s.c.lane i).err || decide (res ≤ 0)
      reads := (s.c.lane i).reads - 1
      done := (s.c.lane i).done ++ [(seg, res)] } = (s.c.lane i).arrive seg res false := by
    unfold Lane.arrive
    rw [← hready]
  unfold Loop.onRead Loop.arrived Conn.setLane
  rw [hread]
  dsimp only
  split_ifs
  · rw [← harrive, ← hread]
  · rw [← harrive]
  · rw [← harrive]
  · rw [Function.update_idem]
    rfl

/-- A read that does not complete its piece leaves the pieces as they were. -/
theorem Phase.queue_arrived (h : Phase cfg s) (hopen : s.c.closing = false)
    (hstate : s.c.state = .getStream) (hpos : 0 < s.c.nLanes)
    (hready : (s.c.lane i).ready = false) :
    Queue (Function.update s.c.lane i ((s.c.lane i).arrive seg res false))
      s.c.nLanes s.c.readLane s.c.sendLane
      s.c.fillI s.c.sendI s.c.planPos s.c.sendPos :=
  (h.queue hopen hstate hpos).2.congr fun j => ⟨update_lane Lane.ready hready.symm j,
    update_lane (l := (s.c.lane i).arrive seg res false) Lane.off rfl j,
    update_lane (l := (s.c.lane i).arrive seg res false) Lane.len rfl j⟩

/-- The last read of a piece has completed, and none has failed: the pump goes on. -/
theorem Phase.flow_read (h : Phase cfg s) (hbase : Base A cfg s) (hdata : Data A s.c)
    (hk : s.c.pending[k]? = some (.read i buf seg)) {room : Nat}
    (hroom : A.roomy → room = 0 ∨ s.Roomy cfg room) (hopen : s.c.closing = false)
    (hmem : ∀ b ≠ buf, mem b = s.mem b)
    (hsends : s.c.sendLane ≠ none → ∃ io ∈ (s.taken k room).c.pending, io.isRead = false)
    (hnone : ∀ io ∈ (s.taken k room).c.pending, io.isRead = false)
    (hresults : Results A i ((s.c.lane i).arrive seg res true) none (s.taken k room).c.pending) :
    Flow A cfg ((s.taken k room).arrived mem i seg res true none (s.c.stale ||
      !s.c.agrees (mem (s.c.lane i).buf) (s.c.lane i).off (s.c.lane i).len)) := by
  obtain ⟨hread, hheld, hbuf⟩ := h.owns _ (List.mem_of_getElem? hk)
  subst hbuf
  have hstate := h.streaming hread
  have hqueue := @Phase.queue_arrived _ _ _ _ seg res h hopen hstate (hbase.lanes_pos hheld)
    ((hbase.results i).reading hread)
  obtain ⟨hdone, hfill⟩ := hqueue.read_done hread
  rw [Function.update_self, Function.update_idem] at hdone
  refine ⟨hbase.arrived hread hheld hk (Or.inr rfl) hresults hmem (fun hfalse => ?_) room,
    h.arrived hread hk room (Or.inr ⟨rfl, hnone⟩) fun _ _ => hdone,
    hdata.arrived hstate (fun hfalse => ?_) room, fun _ => ⟨hsends, fun hread => absurd rfl hread⟩,
    hstate, fun hclosing => ?_, fun hroomy => ?_⟩
  · obtain ⟨hold, hagrees⟩ := Bool.or_eq_false_iff.1 hfalse
    rw [Bool.not_eq_false'] at hagrees
    exact ⟨hold, fun _ => of_decide_eq_true hagrees⟩
  · exact (Bool.or_eq_false_iff.1 hfalse).1
  · cases hopen.symm.trans hclosing
  · rcases hroom hroomy with hzero | ⟨hone, hfits⟩
    · refine Or.inr ⟨hzero, hfill.imp_right fun hready => ?_⟩
      refine Bool.eq_false_iff.2 fun hfillable => ?_
      obtain ⟨-, -, -, hnot, -⟩ := fillable_iff.1 hfillable
      change (Function.update s.c.lane i _ s.c.fillI).ready = false at hnot
      rcases eq_or_ne s.c.fillI i with heq | hne
      · rw [heq, Function.update_self] at hready
        cases hready
      · rw [Function.update_of_ne hne] at hnot hready
        cases hnot.symm.trans hready
    · have hneed : (if s.c.sendLane.isNone then 1 else 0) ≤ 1 := by split <;> omega
      refine Or.inl ⟨Nat.le_trans hneed hone, fun _ rs hrs pos buf piece hpiece => ?_⟩
      exact Nat.le_trans (Nat.add_le_add_left hneed _) (hfits rs hrs pos buf piece hpiece)

/-- A read that was waited for has completed. -/
theorem Phase.on_read (h : Phase cfg s) (hbase : Base A cfg s) (htracked : Tracked s.c)
    (hdata : Data A s.c) (hv : v.Sound A cfg) (hk : s.c.pending[k]? = some (.read i buf seg))
    {room : Nat} (hroom : A.roomy → (room = 0 ∨ s.Roomy cfg room) ∧
      ((s.c.lane i).reads = 1 → (s.c.lane i).err = true ∨ res ≤ 0 →
      s.c.closing = true ∨ s.c.sendLane = none))
    (hwhole : A.whole → res ≤ 0 ∨ (seg.len : Int) ≤ res) (hfine : A.succeed → 0 < res)
    (hmem : ∀ b ≠ buf, mem b = s.mem b) :
    Inv A cfg (Loop.onRead cfg { s.taken k room with mem := mem } seg res v) := by
  obtain ⟨hread, hheld, hbuf⟩ := h.owns _ (List.mem_of_getElem? hk)
  subst hbuf
  have hstate := h.streaming hread
  have hresults := hbase.results i
  rw [hread] at hresults
  have harrive := hresults.arrive
    (fun io hio => List.mem_cons.1 ((taken_perm hk).mem_iff.2 hio)) hwhole hfine
  have hlen := ((taken_perm hk).filter Io.isRead).length_eq
  rw [List.filter_cons_of_pos rfl, List.length_cons, ← h.reads i hread] at hlen
  have hsends : s.c.closing = false → s.c.sendLane ≠ none →
      ∃ io ∈ (s.taken k room).c.pending, io.isRead = false := by
    intro hopen hsome
    obtain ⟨io, hio, hisRead⟩ := (htracked hopen).1 hsome
    refine ⟨io, mem_taken_of_ne hk room hio ?_, hisRead⟩
    rintro rfl
    cases hisRead
  rw [on_read_eq (s := { s.taken k room with mem := mem }) hread (hresults.reading rfl)]
  show Inv A cfg (if (s.c.lane i).reads - 1 ≠ 0 then
      (s.taken k room).arrived mem i seg res false (some i) s.c.stale
    else if s.c.closing then (s.taken k room).arrived mem i seg res false none s.c.stale
    else if (s.c.lane i).err || decide (res ≤ 0) then
      ((s.taken k room).arrived mem i seg res false none s.c.stale).abortGet
    else Loop.pumpStream cfg ((s.taken k room).arrived mem i seg res true none (s.c.stale ||
      !s.c.agrees (mem (s.c.lane i).buf) (s.c.lane i).off (s.c.lane i).len)) v)
  by_cases hmore : (s.c.lane i).reads - 1 ≠ 0
  · -- other reads of the piece are outstanding
    rw [if_pos hmore]
    have hreads : ∃ io ∈ (s.taken k room).c.pending, io.isRead = true := by
      obtain ⟨io, hio⟩ := List.exists_mem_of_length_pos
        (show 0 < ((s.c.pending.eraseIdx k).filter Io.isRead).length by omega)
      exact ⟨io, (List.mem_filter.1 hio).1, (List.mem_filter.1 hio).2⟩
    refine ⟨hbase.arrived hread hheld hk (Or.inl rfl) harrive hmem (fun hfalse => ⟨hfalse, nofun⟩)
      room, Or.inl ⟨h.arrived hread hk room (Or.inl rfl) fun hopen hpos => ?_,
      fun hopen => ⟨hsends hopen, fun _ => hreads⟩, fun _ _ hnil => ?_,
      hdata.arrived hstate id room⟩⟩
    · rw [← hread]
      exact h.queue_arrived hopen hstate hpos (hresults.reading rfl)
    · obtain ⟨io, hio, -⟩ := hreads
      change (s.taken k room).c.pending = [] at hnil
      rw [hnil] at hio
      cases hio
  · rw [if_neg hmore]
    have hnone : ∀ io ∈ (s.taken k room).c.pending, io.isRead = false := by
      have hnil : (s.c.pending.eraseIdx k).filter Io.isRead = [] :=
        List.eq_nil_of_length_eq_zero (by omega)
      intro io hio
      exact Bool.eq_false_iff.2 (List.filter_eq_nil_iff.1 hnil io hio)
    have hsettle : Results A i ((s.c.lane i).arrive seg res false) none
        (s.taken k room).c.pending :=
      harrive.settle hnone nofun
    have hfailed : Base A cfg ((s.taken k room).arrived mem i seg res false none s.c.stale) :=
      hbase.arrived hread hheld hk (Or.inr rfl) hsettle hmem (fun hfalse => ⟨hfalse, nofun⟩) room
    split_ifs with hclosing herr
    · -- the connection is closing
      have hclosed : ∀ {R : Prop}, s.c.closing = false → R := fun hopen =>
        absurd (hclosing.symm.trans hopen) (by decide)
      exact ⟨hfailed, Or.inl ⟨h.arrived hread hk room (Or.inr ⟨rfl, hnone⟩) fun hopen =>
        hclosed hopen,
        fun hopen => hclosed hopen, fun hopen => hclosed hopen, hdata.arrived hstate id room⟩⟩
    · -- a read has failed
      have hqueues := h.waits.alone_of_valuing (congrArg St.valuing hstate)
      refine hfailed.abort hstate
        (fun io hio => h.on_lane hstate io (mem_of_taken room hio)) hqueues
        fun hroomy => ?_
      have herr : (s.c.lane i).err = true ∨ res ≤ 0 := by simpa using herr
      have hsend := ((hroom hroomy).2 (by omega) herr).resolve_left hclosing
      refine List.eq_nil_iff_forall_not_mem.2 fun io hio => ?_
      have hisRead := h.only_reads hstate hsend io (mem_of_taken room hio)
      cases (hnone io hio).symm.trans hisRead
    · have herr : ((s.c.lane i).arrive seg res false).err = false := Bool.eq_false_iff.2 herr
      have hopen : s.c.closing = false := Bool.eq_false_iff.2 hclosing
      exact Flow.pump_stream (h.flow_read hbase hdata hk (fun hroomy => (hroom hroomy).1) hopen hmem
        (hsends hopen)
        hnone (harrive.settle hnone fun _ => herr)) hv

end Arrived

end GoblinStore.Net
