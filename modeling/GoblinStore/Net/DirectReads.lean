import GoblinStore.Net.Pump

/-!
# The disk reads of a GET and `O_DIRECT`

`O_DIRECT` asks for file offsets, buffer offsets and lengths in whole device blocks.
`plan_lane_read` rounds the lengths and takes the offsets for granted. The tail of a GET is read in
pieces of a lane's size, from the end of the pinned head or the start of the window on (`tailStart`,
`tailPieces`). Its reads are legal exactly if there are none, or the tail starts with a block and
the head that is indexed when a piece is planned ends with one (`get_reads_legal_iff`); a byte range
may start anywhere (`range_reads_illegal`).
-/

namespace GoblinStore

open GoblinStore.Lib GoblinStore.Core GoblinStore.Net Pool

/-- What `O_DIRECT` asks of a read into a page-aligned buffer. -/
def Seg.Legal (seg : Seg) : Prop :=
  kDeviceBlock ∣ seg.fileOff ∧ kDeviceBlock ∣ seg.outOff ∧ kDeviceBlock ∣ seg.len

instance : DecidablePred Seg.Legal := fun _ => inferInstanceAs (Decidable (_ ∧ _ ∧ _))

/-! ## One range of a tier -/

section Tier

variable {pool : DrivePool} {bucket x n outBase bufLen : Nat} {fds : ObjectFiles}

/-- The length of a rounded read takes care of itself. -/
theorem rounded_legal_iff (hbuf : kDeviceBlock ∣ bufLen) (seg : Seg) :
    (seg.rounded bufLen).Legal ↔ kDeviceBlock ∣ seg.fileOff ∧ kDeviceBlock ∣ seg.outOff := by
  refine ⟨fun h => ⟨h.1, h.2.1⟩, fun h => ⟨h.1, h.2, ?_⟩⟩
  show kDeviceBlock ∣ min (alignUp seg.len kDeviceBlock) (bufLen - seg.outOff)
  rcases Nat.le_total (alignUp seg.len kDeviceBlock) (bufLen - seg.outOff) with hle | hle
  · rw [Nat.min_eq_left hle]
    exact align_up_aligned _
  · rw [Nat.min_eq_right hle]
    exact Nat.dvd_sub hbuf h.2

/-- The reads of a range are legal exactly if the first one is. -/
theorem add_drive_segs_legal_iff (hunit : kDeviceBlock ∣ pool.stripeUnit)
    (hbuf : kDeviceBlock ∣ bufLen) (hn : 0 < n) :
    (∀ seg ∈ addDriveSegs pool bucket fds x n outBase, (seg.rounded bufLen).Legal) ↔
      kDeviceBlock ∣ x ∧ kDeviceBlock ∣ outBase := by
  simp only [rounded_legal_iff hbuf]
  constructor
  · intro h
    obtain ⟨hoff, hout⟩ := h _ (add_drive_segs_first hn)
    exact ⟨(DrivePool.file_offset_aligned_iff hunit).1 hoff, hout⟩
  · rintro ⟨hx, hout⟩ seg hseg
    have hstart := add_drive_segs_start hseg
    obtain ⟨y, k, hlo, -, -, rfl⟩ := mem_add_drive_segs hseg
    -- a later read starts with a stripe unit
    have hy : kDeviceBlock ∣ y := by
      rcases hstart with hfirst | hlater
      · dsimp only at hfirst
        rwa [show y = x by omega]
      · dsimp only at hlater
        rw [show x + (outBase + (y - x) - outBase) = y by omega] at hlater
        exact hunit.trans (Nat.dvd_of_mod_eq_zero hlater)
    exact ⟨(DrivePool.file_offset_aligned_iff hunit).2 hy, Nat.dvd_add hout (Nat.dvd_sub hy hx)⟩

end Tier

/-! ## One piece -/

/-- The head that is indexed at planning does not end inside a block of the piece's SSD part. -/
def HeadAligned (σ : State) (rs : State.ReadStream) (pos len : Nat) : Prop :=
  max pos (σ.indexedHeadLen rs.digest) < min (pos + len) rs.layout.ssdBytes →
    kDeviceBlock ∣ max pos (σ.indexedHeadLen rs.digest)

/-- A stream as `open_snapshot` makes it: files on the HDD tier only for an object that reaches
it. -/
structure Opened (cfg : Config) (rs : State.ReadStream) : Prop where
  layout_eq : rs.layout = cfg.layout rs.size
  hdd : rs.hdd ≠ none → 0 < rs.layout.hddBytes

section Piece

variable {cfg : Config} {σ : State} {rs : State.ReadStream} {pos stop bufLen : Nat}
  {buf : Nat → UInt8} {piece : LanePiece}

theorem Opened.of_snapshot {d : Digest} {faults : Faults} {snap : State.Snapshot}
    (hsnap : (State.openSnapshot cfg σ d faults).1 = some snap) (hrs : snap.rs = some rs) :
    Opened cfg rs := by
  obtain ⟨-, -, -, hfiles⟩ := State.open_snapshot_files hsnap
  obtain ⟨-, hopen, heq⟩ := hfiles rs hrs
  refine ⟨by rw [heq], fun hhdd => Nat.pos_of_ne_zero fun hzero => hhdd ?_⟩
  -- without HDD bytes no HDD file is opened
  rw [heq] at hzero
  unfold State.openFiles at hopen
  split at hopen
  · cases hopen
  · split at hopen
    · simp only [Prod.mk.injEq, Option.some.injEq] at hopen
      exact hopen.1.2.symm
    · rw [if_pos hzero] at hopen
      simp only [Prod.mk.injEq, Option.some.injEq] at hopen
      exact hopen.1.2.symm

theorem Opened.ssd_aligned (h : Opened cfg rs) (hhdd : rs.hdd ≠ none) :
    kDeviceBlock ∣ rs.layout.ssdBytes := by
  have hpos := h.hdd hhdd
  rw [h.layout_eq] at hpos ⊢
  rcases Nat.lt_or_ge cfg.tiers.ramHead rs.size with hdisk | hram
  · exact ((cfg.layout_tiers hdisk).2 hpos).1
  · rw [Config.layout, compute_layout_ram_only hram] at hpos
    exact absurd hpos (Nat.lt_irrefl 0)

/-- The segments of a piece, and its length. -/
theorem plan_piece_segs (h : planPiece cfg σ rs pos stop bufLen buf = some piece)
    (hpos : pos < rs.size) (hstop : stop ≤ rs.size) :
    piece.len = min bufLen (stop - pos) ∧
      piece.segs = State.planSsd cfg rs pos piece.len (σ.indexedHeadLen rs.digest) ++
        State.planHdd cfg rs pos piece.len := by
  unfold planPiece at h
  dsimp only at h
  split_ifs at h with htotal
  cases h
  refine ⟨rfl, ?_⟩
  unfold State.plan
  rw [if_neg (by omega)]
  dsimp only
  rw [Nat.min_eq_left (show min bufLen (stop - pos) ≤ rs.size - pos by omega)]

/-- A range that is not empty has reads. -/
theorem add_drive_segs_ne_nil (pool : DrivePool) (bucket : Nat) (fds : ObjectFiles)
    (x outBase : Nat) {n : Nat} (hn : 0 < n) : addDriveSegs pool bucket fds x n outBase ≠ [] := by
  unfold addDriveSegs
  rw [DrivePool.plan_reads_cons hn]
  exact List.cons_ne_nil _ _

theorem plan_ssd_ne_nil {want ramEnd : Nat} :
    State.planSsd cfg rs pos want ramEnd ≠ [] ↔
      max pos ramEnd < min (pos + want) rs.layout.ssdBytes := by
  unfold State.planSsd
  dsimp only
  split_ifs with hpart
  · exact ⟨fun _ => hpart, fun _ => add_drive_segs_ne_nil _ _ _ _ _ (by omega)⟩
  · exact ⟨fun hne => absurd rfl hne, fun hlt => absurd hlt hpart⟩

/-- The SSD reads of a piece. -/
theorem plan_ssd_legal_iff (hbuf : kDeviceBlock ∣ bufLen) {want ramEnd : Nat} :
    (∀ seg ∈ State.planSsd cfg rs pos want ramEnd, (seg.rounded bufLen).Legal) ↔
      (max pos ramEnd < min (pos + want) rs.layout.ssdBytes → kDeviceBlock ∣ max pos ramEnd ∧
      kDeviceBlock ∣ pos) := by
  unfold State.planSsd
  dsimp only
  split_ifs with hpart
  · rw [add_drive_segs_legal_iff cfg.ssd_aligned hbuf (by omega)]
    refine ⟨fun h _ => ⟨h.1, ?_⟩, fun h => ⟨(h hpart).1, Nat.dvd_sub (h hpart).1 (h hpart).2⟩⟩
    exact (Nat.dvd_sub_iff_right (Nat.le_max_left pos ramEnd) h.1).1 h.2
  · exact ⟨fun _ hlt => absurd hlt hpart, fun _ seg hseg => absurd hseg List.not_mem_nil⟩

/-- The HDD reads of a piece. -/
theorem plan_hdd_legal_iff (h : Opened cfg rs) (hbuf : kDeviceBlock ∣ bufLen) {want : Nat} :
    (∀ seg ∈ State.planHdd cfg rs pos want, (seg.rounded bufLen).Legal) ↔
      (State.planHdd cfg rs pos want ≠ [] → kDeviceBlock ∣ pos) := by
  by_cases hnil : State.planHdd cfg rs pos want = []
  · rw [hnil]
    exact ⟨fun _ hne => absurd rfl hne, fun _ seg hseg => absurd hseg List.not_mem_nil⟩
  refine Iff.trans ?_ (forall_prop_of_true hnil).symm
  unfold State.planHdd at hnil ⊢
  split at hnil
  · rename_i pool fds hpool hfds
    have hssd := h.ssd_aligned (by rw [hfds]; exact Option.some_ne_none fds)
    dsimp only at hnil ⊢
    split_ifs at hnil ⊢ with hpart
    · have hlen : 0 < pos + want - max pos rs.layout.ssdBytes := by
        refine Nat.pos_of_ne_zero fun hzero => hnil ?_
        rw [hzero]
        rfl
      rw [add_drive_segs_legal_iff (cfg.hdd_aligned pool hpool) hbuf hlen]
      rcases Nat.le_total pos rs.layout.ssdBytes with hle | hle
      · rw [Nat.max_eq_right hle, Nat.sub_self]
        exact ⟨fun h => (Nat.dvd_sub_iff_right hle hssd).1 h.2,
          fun h => ⟨Nat.dvd_zero _, Nat.dvd_sub hssd h⟩⟩
      · rw [Nat.max_eq_left hle, Nat.sub_self]
        exact ⟨fun h => (Nat.dvd_sub_iff_left hle hssd).1 h.1,
          fun h => ⟨Nat.dvd_sub h hssd, Nat.dvd_zero _⟩⟩
    · exact absurd rfl hnil
  · exact absurd rfl hnil

/-- The reads of a piece are legal exactly if there are none, or the piece starts with a block and
the indexed head ends with one. -/
theorem piece_legal_iff (h : Opened cfg rs) (hbuf : kDeviceBlock ∣ bufLen)
    (hpiece : planPiece cfg σ rs pos stop bufLen buf = some piece) (hpos : pos < rs.size)
    (hstop : stop ≤ rs.size) :
    (∀ read ∈ piece.reads bufLen, read.Legal) ↔
      (piece.segs ≠ [] → kDeviceBlock ∣ pos) ∧ HeadAligned σ rs pos piece.len := by
  obtain ⟨-, hsegs⟩ := plan_piece_segs hpiece hpos hstop
  have hssd : (∀ seg ∈ State.planSsd cfg rs pos piece.len (σ.indexedHeadLen rs.digest),
      (seg.rounded bufLen).Legal) ↔ _ :=
    plan_ssd_legal_iff hbuf
  have hhdd : (∀ seg ∈ State.planHdd cfg rs pos piece.len, (seg.rounded bufLen).Legal) ↔
      _ := plan_hdd_legal_iff h hbuf
  have hsome : piece.segs ≠ [] ↔ max pos (σ.indexedHeadLen rs.digest) <
      min (pos + piece.len) rs.layout.ssdBytes ∨
      State.planHdd cfg rs pos piece.len ≠ [] := by
    rw [hsegs, ← plan_ssd_ne_nil, Ne, List.append_eq_nil_iff, not_and_or]
  unfold LanePiece.reads HeadAligned
  rw [List.forall_mem_map, hsome, hsegs, List.forall_mem_append, hssd, hhdd]
  constructor
  · rintro ⟨hfast, hslow⟩
    exact ⟨fun hsome => hsome.elim (fun hpart => (hfast hpart).2) hslow,
      fun hpart => (hfast hpart).1⟩
  · rintro ⟨hstart, hhead⟩
    exact ⟨fun hpart => ⟨hhead hpart, hstart (Or.inl hpart)⟩, fun hsome => hstart (Or.inr hsome)⟩

end Piece

/-! ## The tail of a GET -/

/-- Where the pieces of a GET start: after the part of the window that is sent from the pinned
head. -/
def tailStart (pinLen : Nat) (window : Nat × Nat) : Nat :=
  if window.1 < min pinLen window.2 then min pinLen window.2 else window.1

/-- A piece, with the state and the position at which it was planned. -/
structure PlannedPiece where
  σ : State
  pos : Nat
  piece : LanePiece

/-- The pieces up to `stop`, from `pos` on; a lane that comes free finds a state of the store and
old bytes in its buffer. A piece that cannot be mapped ends the GET. -/
def tailPieces (cfg : Config) (rs : State.ReadStream) (stop bufLen : Nat) :
    List (State × (Nat → UInt8)) → Nat → List PlannedPiece
  | [], _ => []
  | (σ, buf) :: lanes, pos =>
      if pos < stop then
        match planPiece cfg σ rs pos stop bufLen buf with
        | none => []
        | some piece => ⟨σ, pos, piece⟩ :: tailPieces cfg rs stop bufLen lanes (pos + piece.len)
      else []

section Tail

variable {cfg : Config} {rs : State.ReadStream} {stop bufLen pos : Nat}

/-- A step of the connection that plans a piece takes the next one. -/
theorem tail_pieces_plan_lane_read {P : Type} {s s' : Loop P} {i : Fin 2} (hrs : s.c.rs = some rs)
    (hpos : s.c.planPos < s.c.getSize) (h : Loop.planLaneRead cfg s i = (true, s'))
    (lanes : List (State × (Nat → UInt8))) :
    ∃ piece, tailPieces cfg rs s.c.getSize s.iobufs.blockBytes
      ((s.σ, s.mem (s.c.lane i).buf) :: lanes) s.c.planPos =
        ⟨s.σ, s.c.planPos, piece⟩ :: tailPieces cfg rs s'.c.getSize s'.iobufs.blockBytes lanes
        s'.c.planPos ∧
      s'.c.pending = s.c.pending ++ piece.segs.map (Io.read i (s.c.lane i).buf) := by
  cases hpiece : planPiece cfg s.σ rs s.c.planPos s.c.getSize s.iobufs.blockBytes
    (s.mem (s.c.lane i).buf) with
  | none => simp [Loop.planLaneRead, hrs, hpiece] at h
  | some piece =>
      rw [plan_lane_read_eq hrs hpiece] at h
      split at h
      · cases h
        refine ⟨piece, ?_, rfl⟩
        rw [tailPieces, if_pos hpos, hpiece]
        rfl
      · cases h

/-- Every piece is planned inside the window, and a multiple of the lane's size after the start. -/
theorem mem_tail_pieces {lanes : List (State × (Nat → UInt8))} (hstop : stop ≤ rs.size)
    {p : PlannedPiece} (hp : p ∈ tailPieces cfg rs stop bufLen lanes pos) :
    p.pos < stop ∧ (∃ buf, planPiece cfg p.σ rs p.pos stop bufLen buf = some p.piece) ∧
      ∃ k, p.pos = pos + k * bufLen := by
  induction lanes generalizing pos with
  | nil => cases hp
  | cons lane rest ih =>
      rw [tailPieces] at hp
      split_ifs at hp with hlt
      · split at hp
        · cases hp
        · rename_i piece hpiece
          rcases List.mem_cons.1 hp with rfl | hrest
          · exact ⟨hlt, ⟨lane.2, hpiece⟩, 0, by rw [Nat.zero_mul, Nat.add_zero]⟩
          · obtain ⟨hin, hplan, k, hk⟩ := ih hrest
            obtain ⟨hlen, -⟩ := plan_piece_segs hpiece (by omega) hstop
            -- a piece that is followed by another one fills its lane
            have hfull : piece.len = bufLen := by omega
            refine ⟨hin, hplan, k + 1, ?_⟩
            rw [hk, hfull, Nat.succ_mul]
            omega
      · cases hp

end Tail

/-- Where the pieces of a GET on this snapshot start. -/
def State.Snapshot.getStart (snap : State.Snapshot) (reqRange : Option ByteRange)
    (unmodified : Bool) : Nat :=
  tailStart snap.info.headLen (getWindow reqRange unmodified snap.info.size)

/-- The pieces of a GET on this snapshot. -/
def State.Snapshot.getPieces (cfg : Config) (snap : State.Snapshot) (rs : State.ReadStream)
    (bufLen : Nat) (reqRange : Option ByteRange) (unmodified : Bool)
    (lanes : List (State × (Nat → UInt8))) : List PlannedPiece :=
  tailPieces cfg rs (getWindow reqRange unmodified snap.info.size).2 bufLen lanes
    (snap.getStart reqRange unmodified)

/-- For every object, every window and every lane size: the reads of a GET are legal exactly if its
pieces have none, or the tail starts with a device block and, whenever a piece is planned, the head
that is indexed then does not end inside a block of the piece's SSD part. -/
theorem get_reads_legal_iff {cfg : Config} {σ : State} {d : Digest} {faults : Faults}
    {snap : State.Snapshot} {rs : State.ReadStream}
    (hsnap : (State.openSnapshot cfg σ d faults).1 = some snap) (hrs : snap.rs = some rs)
    {bufLen : Nat} (hpow : isPowerOfTwo bufLen = true) (hge : kDeviceBlock ≤ bufLen)
    (reqRange : Option ByteRange) (unmodified : Bool) (lanes : List (State × (Nat → UInt8))) :
    (∀ p ∈ snap.getPieces cfg rs bufLen reqRange unmodified lanes,
      ∀ read ∈ p.piece.reads bufLen, read.Legal) ↔
      (∀ p ∈ snap.getPieces cfg rs bufLen reqRange unmodified lanes, p.piece.segs = []) ∨
        (kDeviceBlock ∣ snap.getStart reqRange unmodified ∧
          ∀ p ∈ snap.getPieces cfg rs bufLen reqRange unmodified lanes,
            HeadAligned p.σ rs p.pos p.piece.len) := by
  have hopened := Opened.of_snapshot hsnap hrs
  have hbuf : kDeviceBlock ∣ bufLen := device_block_dvd (is_power_of_two_iff.1 hpow) hge
  have hsize : rs.size = snap.info.size := ((State.open_snapshot_spec hsnap).2.2 rs hrs).size_eq
  have hstop := get_window_le snap.info.size reqRange unmodified
  rw [← hsize] at hstop
  -- the pieces start like the tail, and each one is legal on its own terms
  have hpos : ∀ p ∈ snap.getPieces cfg rs bufLen reqRange unmodified lanes,
      (kDeviceBlock ∣ p.pos ↔ kDeviceBlock ∣ snap.getStart reqRange unmodified) := by
    intro p hp
    obtain ⟨-, -, k, hk⟩ := mem_tail_pieces (by rwa [hsize] at hstop ⊢) hp
    rw [hk]
    exact (Nat.dvd_add_iff_left (hbuf.mul_left k)).symm
  have hpiece : ∀ p ∈ snap.getPieces cfg rs bufLen reqRange unmodified lanes,
      ((∀ read ∈ p.piece.reads bufLen, read.Legal) ↔
        (p.piece.segs ≠ [] → kDeviceBlock ∣ snap.getStart reqRange unmodified) ∧
          HeadAligned p.σ rs p.pos p.piece.len) := by
    intro p hp
    obtain ⟨hlt, ⟨buf, hplan⟩, -⟩ := mem_tail_pieces (by rwa [hsize] at hstop ⊢) hp
    rw [← hpos p hp]
    exact piece_legal_iff hopened hbuf hplan (by rw [hsize] at *; omega) (by rwa [hsize] at hstop ⊢)
  constructor
  · intro hall
    by_cases hsome : ∃ p ∈ snap.getPieces cfg rs bufLen reqRange unmodified lanes, p.piece.segs ≠ []
    · obtain ⟨p, hp, hne⟩ := hsome
      exact Or.inr ⟨((hpiece p hp).1 (hall p hp)).1 hne,
        fun q hq => ((hpiece q hq).1 (hall q hq)).2⟩
    · push Not at hsome
      exact Or.inl hsome
  · rintro (hnone | ⟨hstart, hheads⟩) p hp
    · rw [LanePiece.reads, hnone p hp]
      exact fun read hread => absurd hread List.not_mem_nil
    · exact (hpiece p hp).2 ⟨fun _ => hstart, hheads p hp⟩

/-- Two lanes of 16 KiB come free while nothing else happens. -/
def quietLanes : List (State × (Nat → UInt8)) :=
  List.replicate 2 (State.after twoDriveConfig storeChunks, fun _ => 0)

/-- The pieces of a GET on the chunks. -/
def chunksPieces (reqRange : Option ByteRange) : Option (List PlannedPiece) :=
  chunksSnapshot.bind fun snap => snap.rs.map fun rs =>
    snap.getPieces twoDriveConfig rs 16384 reqRange false quietLanes

/-- A range from the third chunk on. -/
theorem get_reads_legal_iff_chunk : ∃ snap rs, chunksSnapshot = some snap ∧ snap.rs = some rs ∧
    ((∀ p ∈ snap.getPieces twoDriveConfig rs 16384 (some ⟨.from, 8192, 0⟩) false quietLanes,
      p.piece.segs = []) ∨
      (kDeviceBlock ∣ snap.getStart (some ⟨.from, 8192, 0⟩) false ∧
        ∀ p ∈ snap.getPieces twoDriveConfig rs 16384 (some ⟨.from, 8192, 0⟩) false quietLanes,
          HeadAligned p.σ rs p.pos p.piece.len)) := by
  obtain ⟨snap, hsnap⟩ : ∃ snap, chunksSnapshot = some snap :=
    Option.isSome_iff_exists.1 (by decide +kernel)
  have hstream : (chunksSnapshot.bind fun snap => snap.rs).isSome = true := by decide +kernel
  rw [hsnap, Option.bind_some] at hstream
  obtain ⟨rs, hrs⟩ := Option.isSome_iff_exists.1 hstream
  have hlegal : (chunksPieces (some ⟨.from, 8192, 0⟩)).all (fun pieces => pieces.all fun p =>
      (p.piece.reads 16384).all fun read => decide read.Legal) = true := by decide +kernel
  rw [chunksPieces, hsnap, Option.bind_some, hrs, Option.map_some, Option.all_some,
    List.all_eq_true] at hlegal
  refine ⟨snap, rs, hsnap, hrs, (get_reads_legal_iff hsnap hrs (by decide) (by decide)
    _ false quietLanes).1 ?_⟩
  intro p hp read hread
  exact of_decide_eq_true (List.all_eq_true.1 (hlegal p hp) read hread)

/-- The range `bytes=5000-`: for each read of its only piece the place in the file, the place in the
buffer and the length. -/
theorem range_reads_illegal :
    (chunksPieces (some ⟨.from, 5000, 0⟩)).map (fun pieces => pieces.map fun p =>
      (p.piece.reads 16384).map fun read => (read.fileOff, read.outOff, read.len)) =
        some [[(904, 0, 4096), (4096, 3192, 4096), (4096, 7288, 4096), (8192, 11384, 4096)]] ∧
      (chunksPieces (some ⟨.from, 5000, 0⟩)).map (fun pieces => pieces.map fun p =>
        (p.piece.reads 16384).map fun read => decide read.Legal) =
        some [[false, false, false, false]] := by
  decide +kernel

end GoblinStore
