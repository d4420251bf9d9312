import GoblinStore.Net.Pump

/-!
# The events of a connection

Every event keeps the invariant (`Inv.step`). What is asked of an event depends on what is to be
shown: `Careful` keeps `abort_get` from releasing a lane in use, `Whole` excludes short reads and
`Reads` failing ones. Nothing is asked for the rest of the invariant.
-/

namespace GoblinStore.Net

open GoblinStore.Lib GoblinStore.Core

variable {P : Type}

/-! ## Conditions on events -/

/-- There is room for a send and for the reads of any piece of the GET. -/
def Loop.Roomy (cfg : Config) (s : Loop P) (room : Nat) : Prop :=
  0 < room ∧ ∀ rs, s.c.rs = some rs → ∀ pos buf piece,
    planPiece cfg s.σ rs pos s.c.getSize s.iobufs.blockBytes buf = some piece →
    piece.segs.length < room

/-- The submission queue is full or has room for a whole iteration of the pump, and no batch of
reads ends with an error while a send from the other lane is outstanding. -/
def Careful (cfg : Config) (s : Loop P) : LoopEvent P → Prop
  | .complete k res room _ _ => (room = 0 ∨ s.Roomy cfg room) ∧
      ∀ i buf seg, s.c.pending[k]? = some (.read i buf seg) → (s.c.lane i).reads = 1 →
        (s.c.lane i).err = true ∨ res ≤ 0 → s.c.closing = true ∨ s.c.sendLane = none
  | _ => True

/-- A read fails or brings all that is needed from it. -/
def Whole (s : Loop P) : LoopEvent P → Prop
  | .complete k res _ _ _ =>
      ∀ i buf seg, s.c.pending[k]? = some (.read i buf seg) → res ≤ 0 ∨ (seg.len : Int) ≤ res
  | _ => True

/-- Reads succeed. -/
def Reads (s : Loop P) : LoopEvent P → Prop
  | .complete k res _ _ _ => ∀ i buf seg, s.c.pending[k]? = some (.read i buf seg) → 0 < res
  | _ => True

/-! ## Taking a completion -/

variable {A : Terms} {cfg : Config} {s : Loop P} {v : Seams P} {k : Nat} {io : Io}

/-- An outstanding operation has completed. -/
def Loop.taken (s : Loop P) (k room : Nat) : Loop P :=
  { s with
    room := room
    c := { s.c with inflight := s.c.inflight - 1, pending := s.c.pending.eraseIdx k } }

theorem taken_perm (hk : s.c.pending[k]? = some io) :
    (io :: s.c.pending.eraseIdx k).Perm s.c.pending := by
  obtain ⟨hlt, rfl⟩ := List.getElem?_eq_some_iff.1 hk
  exact List.getElem_cons_eraseIdx_perm hlt

theorem mem_of_taken (room : Nat) {io' : Io} (h : io' ∈ (s.taken k room).c.pending) :
    io' ∈ s.c.pending :=
  List.mem_of_mem_eraseIdx h

theorem mem_taken_of_ne (hk : s.c.pending[k]? = some io) (room : Nat) {io' : Io}
    (h : io' ∈ s.c.pending) (hne : io' ≠ io) : io' ∈ (s.taken k room).c.pending := by
  have hmem := (taken_perm hk).mem_iff.2 h
  exact (List.mem_cons.1 hmem).resolve_left hne

theorem Base.taken_count (h : Base A cfg s) (hk : s.c.pending[k]? = some io) :
    s.c.inflight - 1 = (s.c.pending.eraseIdx k).length := by
  have hlen := (taken_perm hk).length_eq
  rw [List.length_cons] at hlen
  rw [h.count]
  omega

/-- The completion is not of a read that is waited for. -/
theorem Base.taken (h : Base A cfg s) (hk : s.c.pending[k]? = some io)
    (hio : io.isRead = false ∨ s.c.readLane = none) (room : Nat) : Base A cfg (s.taken k room) where
  __ := h
  count := h.taken_count hk
  results i := by
    have hold := h.results i
    refine { hold with awaited := fun hread seg hseg => ?_ }
    rcases hold.awaited hread seg hseg with hdone | ⟨buf, hpending⟩
    · exact Or.inl hdone
    · refine Or.inr ⟨buf, mem_taken_of_ne hk room hpending ?_⟩
      rintro rfl
      rcases hio with hfalse | hnone
      · cases hfalse
      · cases hnone.symm.trans hread
  sends hwhole io' hio' := h.sends hwhole io' (mem_of_taken room hio')

/-- Once the operation of the socket has completed, only reads are outstanding. -/
theorem Phase.only_taken (h : Phase cfg s) (hk : s.c.pending[k]? = some io)
    (hio : io.isRead = false) (room : Nat) :
    ∀ io' ∈ (s.taken k room).c.pending, io'.isRead = true := by
  have hlen := ((taken_perm hk).filter fun io => !io.isRead).length_eq
  have hsingle := h.single
  rw [List.filter_cons_of_pos (by simp [hio]), List.length_cons] at hlen
  have hnil : (s.c.pending.eraseIdx k).filter (fun io => !io.isRead) = [] :=
    List.eq_nil_of_length_eq_zero (by omega)
  intro io' hio'
  have hnot := List.filter_eq_nil_iff.1 hnil io' hio'
  simpa using hnot

theorem Phase.taken (h : Phase cfg s) (hk : s.c.pending[k]? = some io) (hio : io.isRead = false)
    (room : Nat) :
    Phase cfg (s.taken k room) where
  __ := h
  owns io' hio' := h.owns io' (mem_of_taken room hio')
  single := Nat.le_trans ((List.eraseIdx_sublist _ _).filter _).length_le h.single
  reads i hread := by
    have hlen := ((taken_perm hk).filter Io.isRead).length_eq
    rw [List.filter_cons_of_neg (by simp [hio])] at hlen
    rw [← h.reads i hread] at hlen
    exact hlen.symm

/-- The operation of the socket has completed outside of the stream. -/
theorem Phase.still (h : Phase cfg s) (hbase : Base A cfg s) (hdata : Data A s.c)
    (hk : s.c.pending[k]? = some io) (hio : io.isRead = false) (hstate : s.c.state ≠ .getStream)
    (room : Nat) :
    Still A cfg (s.taken k room) where
  __ := h
  base := hbase.taken hk (Or.inl hio) room
  pending := by
    refine List.eq_nil_iff_forall_not_mem.2 fun io' hio' => ?_
    have howns := h.owns io' (mem_of_taken room hio')
    have hisRead := h.only_taken hk hio room io' hio'
    cases io' with
    | read i buf seg => cases (h.outside hstate).1.symm.trans howns.1
    | _ => cases hisRead
  state := hstate
  readLane := (h.outside hstate).1
  sendLane := (h.outside hstate).2
  data := hdata

/-! ## Entering the stream -/

/-- The reads of a piece depend on the indexed head only by its length. -/
theorem plan_piece_segs {σ σ' : State} (hindex : σ'.index = σ.index) {rs : State.ReadStream}
    {pos stop bufLen : Nat} {buf : Nat → UInt8} {piece' : LanePiece}
    (h : planPiece cfg σ' rs pos stop bufLen buf = some piece') :
    ∃ piece, planPiece cfg σ rs pos stop bufLen buf = some piece ∧ piece.segs = piece'.segs := by
  have hhead : σ'.indexedHeadLen rs.digest = σ.indexedHeadLen rs.digest := by
    unfold State.indexedHeadLen
    rw [hindex]
  have hplan : (State.plan cfg σ' rs pos (min bufLen (stop - pos)) buf).1 =
      (State.plan cfg σ rs pos (min bufLen (stop - pos)) buf).1 := by
    unfold State.plan
    rw [hhead]
    split_ifs <;> rfl
  unfold planPiece at h ⊢
  dsimp only at h ⊢
  rw [hplan] at h
  split_ifs at h ⊢ with htotal
  cases h
  exact ⟨_, rfl, rfl⟩

/-- What an event says about the submission queue. -/
def Loop.Enough (A : Terms) (cfg : Config) (s : Loop P) : Prop :=
  A.roomy → s.room = 0 ∨ s.Roomy cfg s.room

/-- Giving the pin back. -/
theorem unpin_if_held_eq (cfg : Config) (s : Loop P) : ∃ σ, (Residency cfg s.σ → Residency cfg σ) ∧
    σ.index = s.σ.index ∧ s.unpinIfHeld = { s with σ := σ, c := { s.c with headPin := none } } := by
  unfold Loop.unpinIfHeld
  cases hpin : s.c.headPin with
  | none =>
      refine ⟨s.σ, id, rfl, ?_⟩
      dsimp only
      rw [← hpin]
  | some pin =>
      exact ⟨s.σ.unpinHead pin.1, fun h => Residency.apply h (.unpinHead pin.1),
        (State.unpin_head_same s.σ pin.1).index, rfl⟩

theorem unpin_get_pos (s : Loop P) :
    { s.unpinIfHeld with c := { s.unpinIfHeld.c with getPos := s.c.getPos } } = s.unpinIfHeld := by
  unfold Loop.unpinIfHeld
  split <;> rfl

/-- The stream starts where the head ends. -/
theorem Still.enter (h : Still A cfg s) (hv : v.Sound A cfg) (hstate : s.c.state.valuing = true)
    (henough : s.Enough A cfg) {pos : Nat} (hpos : s.c.nLanes = 0 → s.c.getSize ≤ pos)
    (hout : s.c.out = [] ∧ s.c.outSent = 0) (hcursor : s.c.cursor = pos)
    (hmax : pos ≤ max s.c.first s.c.getSize)
    (htodo : s.c.todo = window s.c.object pos s.c.getSize) :
    Inv A cfg (Loop.enterStream cfg { s.unpinIfHeld with c :=
      { s.unpinIfHeld.c with getPos := pos } } v) := by
  obtain ⟨σ, hσ, hindex, heq⟩ := unpin_if_held_eq cfg s
  rw [heq]
  unfold Loop.enterStream
  have hfresh : 0 < s.c.nLanes → s.c.Fresh := fun hlanes => ((h.get hstate).1 hlanes).2 h.state
  obtain ⟨⟨hhits, hfirst, -⟩, ⟨-, -, hlength⟩, hexact⟩ := h.data
  rw [hstate] at hhits
  rw [htodo] at hlength
  refine Flow.pump_stream ?_ hv
  refine ⟨{ h.base with
    residency := hσ h.base.residency, windows := fun _ _ _ i hheld hready => ?_ },
      ⟨fun io hio => ?_, ?_, fun i hread => ?_, fun hne => absurd rfl hne, nofun,
      fun _ => ⟨fun hlanes => ?_, hpos⟩, fun _ _ hlanes => ?_, ?_⟩,
    (data_iff_streaming rfl).2 ⟨hhits, ?_, ⟨le_rfl, hmax, fun i hi => ?_⟩, hout.1, hout.2, ?_, ?_⟩,
    fun _ => ⟨fun hsend => absurd h.sendLane hsend, fun hread => absurd h.readLane hread⟩, rfl,
    fun _ => h.sendLane, fun hroomy => ?_⟩
  · -- no lane is ready yet, so no window has to hold anything
    have hnot := (hfresh (h.base.lanes_pos hheld)).1 i
    cases hnot.symm.trans hready
  · change io ∈ s.c.pending at hio
    rw [h.pending] at hio
    cases hio
  · show (s.c.pending.filter _).length ≤ 1
    rw [h.pending]
    exact Nat.zero_le _
  · cases h.readLane.symm.trans hread
  · exact ⟨((h.get hstate).1 hlanes).1, fun hne => absurd rfl hne⟩
  · obtain ⟨hready, hfill, hsend⟩ := hfresh hlanes
    refine ⟨?_, .empty rfl ?_ (fun i => ⟨hready i, ?_⟩) h.sendLane⟩
    · show s.c.sendI.val < s.c.nLanes
      rw [hsend]
      exact hlanes
    · exact hfill.trans hsend.symm
    · show s.c.readLane ≠ some i
      rw [h.readLane]
      exact nofun
  · have hqueues := h.waits.alone_of_valuing hstate
    exact Conn.tidy hqueues.1 hqueues.2 rfl nofun
  · show s.c.first ≤ pos + (s.c.sendLane.map fun i => (s.c.lane i).sent).getD 0
    rw [h.sendLane, ← hcursor]
    exact hfirst hstate
  · cases h.sendLane.symm.trans hi
  · show s.c.sent.length + (window s.c.object
      (pos + (s.c.sendLane.map fun i => (s.c.lane i).sent).getD 0) s.c.getSize).length =
      s.c.owed.length
    rw [h.sendLane]
    exact hlength
  · intro hintact hstale
    obtain ⟨hwire, howed⟩ := hexact hintact hstale
    show s.c.wire = window s.c.object s.c.first
        (pos + (s.c.sendLane.map fun i => (s.c.lane i).sent).getD 0) ∧
      s.c.sent ++ window s.c.object
      (pos + (s.c.sendLane.map fun i => (s.c.lane i).sent).getD 0) s.c.getSize =
        s.c.owed
    rw [hcursor] at hwire
    rw [htodo] at howed
    rw [h.sendLane]
    exact ⟨hwire hstate, howed⟩
  · rcases henough hroomy with hzero | ⟨hone, hfits⟩
    · exact Or.inr ⟨hzero, Or.inl h.sendLane⟩
    · have hneed : (if s.c.sendLane.isNone then 1 else 0) ≤ 1 := by split <;> omega
      refine Or.inl ⟨Nat.le_trans hneed hone, fun _ rs hrs pos buf piece hpiece => ?_⟩
      -- the pin has changed the store, not the segments of a piece
      obtain ⟨piece', hpiece', hsegs⟩ := plan_piece_segs hindex hpiece
      have hlt := hfits rs hrs pos buf piece' hpiece'
      rw [hsegs] at hlt
      exact Nat.le_trans (Nat.add_le_add_left hneed _) hlt

/-! ## Sends outside of the stream -/

variable {c : Conn}

/-- The front of what is still to be sent of `out` has been sent. -/
theorem Data.out_sent (h : Data A c) (hhead : c.state ≠ .getSendHead)
    (hstream : c.state ≠ .getStream) {n : Nat} (hn : n ≤ (c.out.drop c.outSent).length) :
    Data A { c with
      sent := c.sent ++ (c.out.drop c.outSent).take n, outSent := c.outSent + n } := by
  obtain ⟨hplaced, ⟨hout, -, hlength⟩, hexact⟩ := h
  have hdrop : c.out.drop c.outSent =
      (c.out.drop c.outSent).take n ++ c.out.drop (c.outSent + n) := by
    rw [← List.drop_drop]
    exact (List.take_append_drop n _).symm
  have htodo : c.todo = (c.out.drop c.outSent).take n ++
      Conn.todo { c with
        sent := c.sent ++ (c.out.drop c.outSent).take n, outSent := c.outSent + n } := by
    unfold Conn.todo
    dsimp only
    split
    · rw [← List.append_assoc, ← hdrop]
    · rename_i hs
      exact absurd hs hhead
    · rename_i hs
      exact absurd hs hstream
    · exact hdrop
  rw [List.length_drop] at hn
  refine ⟨hplaced, ⟨?_, fun hs => ?_, ?_⟩, fun hintact hstale => ⟨(hexact hintact hstale).1, ?_⟩⟩
  · show c.outSent + n ≤ c.out.length
    omega
  · exact (hs.elim hhead hstream).elim
  · show (c.sent ++ _).length + _ = c.owed.length
    rw [htodo, List.length_append] at hlength
    rw [List.length_append, Nat.add_assoc]
    exact hlength
  · show (c.sent ++ _) ++ _ = c.owed
    rw [List.append_assoc, ← htodo]
    exact (hexact hintact hstale).2

/-- All of `out` has been sent. -/
theorem Data.out_clear (h : Data A c) (hall : c.out.length ≤ c.outSent) :
    Data A { c with out := [], outSent := 0 } := by
  obtain ⟨hplaced, ⟨-, -, hlength⟩, hexact⟩ := h
  have hnil : c.out.drop c.outSent = [] := List.drop_eq_nil_of_le hall
  have htodo : c.todo = Conn.todo { c with out := [], outSent := 0 } := by
    unfold Conn.todo
    rw [hnil]
    rfl
  rw [htodo] at hlength
  refine ⟨hplaced, ⟨Nat.zero_le _, fun _ => ⟨rfl, rfl⟩, hlength⟩, fun hintact hstale => ?_⟩
  have hexact := hexact hintact hstale
  exact ⟨hexact.1, by rw [← htodo]; exact hexact.2⟩

/-- The header has been sent: the value is still to be sent from where its window starts. -/
theorem Data.header_sent (h : Data A c) (hs : c.state = .getHeader) (hout : c.out = []) :
    c.cursor = c.getPos ∧ c.getPos = c.first ∧ c.todo = window c.object c.getPos c.getSize := by
  have hpos := h.1.2.2.1 hs
  refine ⟨?_, hpos, ?_⟩
  · unfold Conn.cursor
    rw [hs]
  · unfold Conn.todo
    rw [hs, hout, hpos, List.drop_nil]
    rfl

/-- The pinned head comes next. -/
theorem Data.send_head (h : Data A c) (hs : c.state = .getHeader)
    (hout : c.out = [] ∧ c.outSent = 0) (hhi : c.getPos < c.headHi) :
    Data A { c with headSent := c.getPos, state := .getSendHead } := by
  obtain ⟨hcursor, hpos, htodo⟩ := h.header_sent hs hout.1
  obtain ⟨⟨hhits, hfirst, -⟩, ⟨-, -, hlength⟩, hexact⟩ := h
  have hvalue : c.state.valuing = true := by
    rw [hs]
    rfl
  rw [hvalue] at hhits
  rw [hcursor] at hfirst
  rw [htodo] at hlength
  refine ⟨⟨hhits, fun _ => hfirst hvalue, nofun, fun _ => hhi.le, nofun⟩,
    ⟨?_, fun _ => hout, hlength⟩, fun hintact hstale => ?_⟩
  · show c.outSent ≤ _
    rw [hout.2]
    exact Nat.zero_le _
  · obtain ⟨hwire, howed⟩ := hexact hintact hstale
    rw [hcursor] at hwire
    rw [htodo] at howed
    exact ⟨fun _ => hwire hvalue, howed⟩

/-- Bytes of the pinned head have been sent. -/
theorem Data.head_sent (h : Data A c) (hs : c.state = .getSendHead) {n : Nat} {bytes : List UInt8}
    {stale : Bool} (hn : n ≤ c.headHi - c.headSent) (hlen : bytes.length = n)
    (hstale : stale = false →
      c.stale = false ∧ bytes = (List.range n).map fun i => c.object (c.headSent + i)) :
    Data A { c with
      headSent := c.headSent + n, wire := c.wire ++ bytes, sent := c.sent ++ bytes,
      stale := stale } := by
  obtain ⟨⟨hhits, hfirst, -, hhi, -⟩, ⟨hout, hflush, hlength⟩, hexact⟩ := h
  have hcursor : c.cursor = c.headSent := by
    unfold Conn.cursor
    rw [hs]
  have htodo : c.todo = window c.object c.headSent c.getSize := by
    unfold Conn.todo
    rw [hs, ← hcursor]
  have hvalue : c.state.valuing = true := by
    rw [hs]
    rfl
  have hhi := hhi hs
  have hfirst := hfirst hvalue
  have hsize : c.headHi ≤ c.getSize := Nat.min_le_right _ _
  rw [hcursor] at hfirst
  have hsplit := window_split c.object (show c.headSent + n ≤ max c.headSent c.getSize by omega)
  have hcursor' : Conn.cursor { c with
      headSent := c.headSent + n, wire := c.wire ++ bytes, sent := c.sent ++ bytes,
        stale := stale } =
      c.headSent + n := by
    unfold Conn.cursor
    dsimp only
    rw [hs]
  have htodo' : Conn.todo { c with
      headSent := c.headSent + n, wire := c.wire ++ bytes, sent := c.sent ++ bytes,
        stale := stale } =
      window c.object (c.headSent + n) c.getSize := by
    unfold Conn.todo
    rw [hcursor']
    dsimp only
    rw [hs]
  refine ⟨⟨hhits, fun _ => ?_, fun heq => ?_, fun _ => ?_, fun heq => ?_⟩, ⟨hout, hflush, ?_⟩,
    fun hintact hfalse => ⟨fun _ => ?_, ?_⟩⟩
  · rw [hcursor']
    exact Nat.le_trans hfirst (Nat.le_add_right _ _)
  · cases hs.symm.trans heq
  · show c.headSent + n ≤ c.headHi
    omega
  · cases hs.symm.trans heq
  · rw [htodo, hsplit, List.length_append, List.length_map, List.length_range] at hlength
    rw [htodo']
    show (c.sent ++ bytes).length + _ = c.owed.length
    rw [List.length_append, hlen, Nat.add_assoc]
    exact hlength
  · obtain ⟨hold, hbytes⟩ := hstale hfalse
    have hwire := (hexact hintact hold).1 hvalue
    rw [hcursor] at hwire
    rw [hcursor']
    show c.wire ++ bytes = window c.object c.first (c.headSent + n)
    rw [hwire, hbytes]
    exact window_append c.object hfirst n
  · obtain ⟨hold, hbytes⟩ := hstale hfalse
    have howed := (hexact hintact hold).2
    rw [htodo, hsplit, ← hbytes, ← List.append_assoc] at howed
    rw [htodo']
    exact howed

namespace Still

/-- A change of what the sends outside of the stream keep track of. -/
theorem adjust (h : Still A cfg s) {st : St} (hst : st ≠ .getStream)
    (hrest : st.resting = true → s.c.nLanes = 0)
    (hvalue : st.valuing = true → s.c.state.valuing = true)
    (hwaits : Conn.Tidy { s.c with state := st }) {out : List UInt8} {outSent headSent : Nat}
    {wire sent : List UInt8} {stale : Bool} (hserved : stale = false → s.c.stale = false)
    (hdata : Data A { s.c with
      state := st, out := out, outSent := outSent, headSent := headSent, wire := wire, sent := sent,
      stale := stale }) :
    Still A cfg { s with c := { s.c with
      state := st, out := out, outSent := outSent, headSent := headSent, wire := wire, sent := sent,
      stale := stale } } where
  __ := h
  base := { h.base with
    windows := fun _ _ hstate => absurd hstate hst,
    served := fun hintact hstale => h.base.served hintact (hserved hstale) }
  state := hst
  rest := hrest
  get hvalue' := by
    obtain ⟨hlanes, hhead⟩ := h.get (hvalue hvalue')
    refine ⟨fun hpos => ⟨(hlanes hpos).1, fun _ => (hlanes hpos).2 h.state⟩, fun hzero => ?_⟩
    have hle := hhead hzero
    rw [if_neg h.state] at hle
    exact Nat.le_trans hle (by rw [if_neg hst]; exact le_rfl)
  waits := hwaits
  data := hdata

theorem on_recv (h : Still A cfg s) (hv : v.Sound A cfg) (hstate : s.c.state.reading = true)
    (res : Int) (data : Nat → UInt8) : Inv A cfg (s.onRecv res data v) := by
  unfold Loop.onRecv
  split_ifs
  · exact h.close
  · exact hv.process _ (h.act h.base.residency _) hstate

/-- Bytes of `out` have been sent. -/
theorem on_out_sent (h : Still A cfg s) (hv : v.Sound A cfg)
    (hstate : s.c.state.reading = true ∨ s.c.state = .getHeader ∨ s.c.state = .getTrailer)
    (henough : s.Enough A cfg) {n : Nat} (hn : n ≤ (s.c.out.drop s.c.outSent).length) :
    Inv A cfg (Loop.onOutSent cfg { s with c := { s.c with
      sent := s.c.sent ++ (s.c.out.drop s.c.outSent).take n } } n v) := by
  have hhead : s.c.state ≠ .getSendHead := by
    rintro heq
    rw [heq] at hstate
    rcases hstate with hs | hs | hs <;> cases hs
  have hsent := h.data.out_sent hhead h.state hn
  unfold Loop.onOutSent
  dsimp only
  by_cases hmore : s.c.outSent + n < s.c.out.length
  · rw [if_pos hmore]
    exact (h.adjust h.state h.rest id h.waits id hsent).start_send hstate
  · rw [if_neg hmore]
    have hcleared := hsent.out_clear (Nat.not_lt.1 hmore)
    have hstill := h.adjust h.state h.rest id h.waits id hcleared
    cases hs : s.c.state with
    | getHeader =>
        have hvalue : s.c.state.valuing = true := by
          rw [hs]
          rfl
        have hqueues := h.waits.alone_of_valuing hvalue
        rw [hs] at hstill hcleared
        dsimp only
        split_ifs with hhi
        · have hnext := hcleared.send_head rfl ⟨rfl, rfl⟩ hhi
          have hstart := @adjust _ _ _ _ h .getSendHead nofun nofun
            (fun _ => hvalue) (Conn.tidy hqueues.1 hqueues.2 rfl nofun) _ _ _ _ _ _ id hnext
          exact hstart.start ⟨rfl, rfl, rfl⟩ rfl trivial
        · obtain ⟨hcursor, hpos, htodo⟩ := hcleared.header_sent rfl rfl
          have hhi : ¬ s.c.getPos < min s.c.pinLen s.c.getSize := hhi
          have hpos : s.c.getPos = s.c.first := hpos
          have henter := hstill.enter hv rfl henough (fun hzero => ?_) ⟨rfl, rfl⟩ hcursor ?_ htodo
          · rw [unpin_get_pos] at henter
            exact henter
          · -- without lanes the pinned head holds the window
            have hhead : s.c.getSize ≤ s.c.pinLen := (hstill.get rfl).2 hzero
            show s.c.getSize ≤ s.c.getPos
            omega
          · show s.c.getPos ≤ max s.c.first s.c.getSize
            omega
    | getTrailer =>
        rw [hs] at hstill
        exact hstill.base.finish_get hv h.pending (hstill.waits.alone rfl nofun)
          (hstill.settled rfl)
    | getStream => exact absurd hs h.state
    | getSendHead => exact absurd hs hhead
    | idle =>
        rw [hs] at hstill
        dsimp only
        split_ifs
        · exact hstill.close_orderly rfl
        · exact hv.startRecv _ hstill rfl
    | setBody =>
        rw [hs] at hstill
        dsimp only
        split_ifs
        · exact hstill.close_orderly rfl
        · exact hv.startRecv _ hstill rfl
    | setWait | getWait =>
        rw [hs] at hstate
        rcases hstate with heq | heq | heq <;> cases heq

/-- Bytes of the pinned head have been sent. -/
theorem on_head_sent (h : Still A cfg s) (hv : v.Sound A cfg) (hs : s.c.state = .getSendHead)
    (henough : s.Enough A cfg) {n : Nat} {bytes : List UInt8} {stale : Bool}
    (hn : n ≤ s.c.headHi - s.c.headSent) (hlen : bytes.length = n) (hstale : stale = false →
      s.c.stale = false ∧ bytes = (List.range n).map fun i => s.c.object (s.c.headSent + i)) :
    Inv A cfg (Loop.onHeadSent cfg { s with c := { s.c with
      wire := s.c.wire ++ bytes, sent := s.c.sent ++ bytes, stale := stale } } n v) := by
  have hdata := h.data.head_sent hs hn hlen hstale
  have hstill := h.adjust h.state h.rest id h.waits (fun hfalse => (hstale hfalse).1) hdata
  have hvalue : s.c.state.valuing = true := by
    rw [hs]
    rfl
  have hhi : s.c.headSent + n ≤ s.c.headHi := hdata.1.2.2.2.1 hs
  have hsize : s.c.headHi ≤ s.c.getSize := Nat.min_le_right _ _
  unfold Loop.onHeadSent
  dsimp only
  split_ifs with hmore
  · exact hstill.start ⟨hs, rfl, rfl⟩ rfl trivial
  · have hend : s.c.headSent + n = s.c.headHi := Nat.le_antisymm hhi (Nat.not_lt.1 hmore)
    refine hstill.enter hv hvalue henough (fun hzero => ?_) (hdata.2.1.2.1 (Or.inl hs)) ?_ ?_ ?_
    · -- without lanes the pinned head holds the window
      have hhead := (h.get hvalue).2 hzero
      rw [if_neg h.state] at hhead
      exact Nat.le_min.2 ⟨hhead, le_rfl⟩
    · unfold Conn.cursor
      dsimp only
      rw [hs]
      exact hend
    · exact Nat.le_trans hsize (Nat.le_max_right _ _)
    · unfold Conn.todo Conn.cursor
      dsimp only
      rw [hs]
      exact congrArg (window s.c.object · s.c.getSize) hend

end Still

end GoblinStore.Net
