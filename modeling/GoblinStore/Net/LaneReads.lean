import GoblinStore.Storage.Snapshots

/-!
# The disk reads of one piece

`plan_lane_read` rounds each read of a piece up to the device block, into the lane's buffer. A piece
that starts inside a block makes the read of its first stripe unit end inside a block too, so the
rounded read goes on into the next unit of the same drive and writes what it finds there over the
beginning of the next unit of the object. Unless the bytes happen to be equal, the piece is wrong
when that read completes last (`range_piece_bytes`, `range_piece_wrong_bytes`).
-/

namespace GoblinStore

open GoblinStore.Lib GoblinStore.Core Pool

/-! ## Byte ranges -/

/-- The forms of a single byte range. -/
inductive RangeKind where
  | closed
  | from
  | suffix
  deriving DecidableEq, Repr

/-- A requested range: first byte and last byte, or the number of trailing bytes. -/
structure ByteRange where
  kind : RangeKind
  a : Nat
  b : Nat
  deriving DecidableEq, Repr

/-- Offset and length of the range in an object of this size; `none` is unsatisfiable. -/
def resolveRange (r : ByteRange) (size : Nat) : Option (Nat × Nat) :=
  match r.kind with
  | .closed =>
      if size ≤ r.a then none else some (r.a, (min r.b (size - 1) + wrap64 - r.a + 1) % wrap64)
  | .from => if size ≤ r.a then none else some (r.a, size - r.a)
  | .suffix => if size = 0 then none else some (size - min r.a size, min r.a size)

/-- The window `[get_pos, get_size)` that `frame_get_hit` sets: nothing for an unmodified object or
an unsatisfiable range, and the whole object without a range. -/
def getWindow (reqRange : Option ByteRange) (unmodified : Bool) (size : Nat) : Nat × Nat :=
  if unmodified then (0, 0)
  else
    match reqRange with
    | none => (0, size)
    | some r =>
        match resolveRange r size with
        | none => (0, 0)
        | some (off, len) => (off, (off + len) % wrap64)

/-- The window lies in the object. -/
theorem get_window_le (size : Nat) (reqRange : Option ByteRange) (unmodified : Bool) :
    (getWindow reqRange unmodified size).2 ≤ size := by
  unfold getWindow
  split_ifs
  · exact Nat.zero_le _
  · split
    · exact le_rfl
    · rename_i r
      split
      · exact Nat.zero_le _
      · rename_i off len hrange
        show (off + len) % wrap64 ≤ size
        rcases Nat.lt_or_ge size wrap64 with hsize | hhuge
        swap
        · exact Nat.le_trans (Nat.le_of_lt (Nat.mod_lt _ (by decide))) hhuge
        unfold resolveRange at hrange
        cases hkind : r.kind with
        | closed =>
            simp only [hkind] at hrange
            split_ifs at hrange with hend
            cases hrange
            simp only [wrap64] at *
            omega
        | «from» =>
            simp only [hkind] at hrange
            split_ifs at hrange with hend
            cases hrange
            rw [Nat.mod_eq_of_lt (by omega)]
            omega
        | suffix =>
            simp only [hkind] at hrange
            split_ifs at hrange with hend
            cases hrange
            rw [Nat.mod_eq_of_lt (by omega)]
            omega

/-! ## The reads of a piece -/

/-- The read that is submitted: whole device blocks, as far as the buffer goes. -/
def Seg.rounded (bufLen : Nat) (seg : Seg) : Seg :=
  { seg with len := min (alignUp seg.len kDeviceBlock) (bufLen - seg.outOff) }

/-- A planned piece of a lane: its length, the buffer after the head copy, and the planned
segments. -/
structure LanePiece where
  len : Nat
  buf : Nat → UInt8
  segs : List Seg

/-- The reads that the piece submits. -/
def LanePiece.reads (bufLen : Nat) (piece : LanePiece) : List Seg :=
  piece.segs.map (Seg.rounded bufLen)

/-- The first part of `plan_lane_read`: the next piece of the window, unless the plan does not map
all of it. -/
def planPiece (cfg : Config) (σ : State) (rs : State.ReadStream) (planPos getSize bufLen : Nat)
    (buf : Nat → UInt8) : Option LanePiece :=
  let want := min bufLen (getSize - planPos)
  let planned := State.plan cfg σ rs planPos want buf
  if planned.1.total ≠ want then none else some ⟨want, planned.2, planned.1.segs⟩

/-! ## What the rounded reads of a tier bring -/

/-- The rounded read at tier offset `x` brings to positions before `stop` no other bytes than belong
there: what follows the first stripe unit in the file of its drive is, byte for byte, what follows
it in the object. -/
def SpillHarmless (pool : DrivePool) (bucket extent : Nat) (content : Nat → UInt8)
    (x n stop : Nat) :
    Prop :=
  ∀ i, pool.segLen x n ≤ i → i < alignUp (pool.segLen x n) kDeviceBlock → x + i < stop →
    ∀ w < extent, pool.driveOf bucket w = pool.driveOf bucket x →
      pool.fileOffsetOf w = pool.fileOffsetOf x + i → content w = content (x + i)

section TierReads

variable {pool : DrivePool} {bucket extent : Nat} {content : Nat → UInt8} {fds : ObjectFiles}
  {fs : FileSystem} {x n outBase bufLen want : Nat}

/-- A read of the list starts where the range starts or where a stripe unit starts. -/
theorem add_drive_segs_start {seg : Seg} (hseg : seg ∈ addDriveSegs pool bucket fds x n outBase) :
    seg.outOff = outBase ∨ (x + (seg.outOff - outBase)) % pool.stripeUnit = 0 := by
  unfold addDriveSegs at hseg
  induction n using Nat.strongRecOn generalizing x outBase with
  | ind n ih =>
      rcases Nat.eq_zero_or_pos n with rfl | hn
      · cases hseg
      · have hpos := pool.seg_len_pos x hn
        rw [DrivePool.plan_reads_cons hn, segLoop, List.mem_cons] at hseg
        rcases hseg with rfl | hrest
        · exact Or.inl rfl
        · -- the segments before another one end with their stripe unit
          have hfull : 0 < n - pool.segLen x n → (x + pool.segLen x n) % pool.stripeUnit = 0 := by
            intro hmore
            have hlen : pool.segLen x n = pool.stripeUnit - x % pool.stripeUnit := by
              unfold DrivePool.segLen at hmore ⊢
              omega
            have hmod := Nat.mod_lt x pool.stripe_unit_pos
            have hdiv := Nat.div_add_mod x pool.stripeUnit
            rw [hlen, show x + (pool.stripeUnit - x % pool.stripeUnit) =
              pool.stripeUnit * (x / pool.stripeUnit + 1) by rw [Nat.mul_succ]; omega]
            exact Nat.mul_mod_right _ _
          have hmore : 0 < n - pool.segLen x n := by
            by_contra hzero
            rw [Nat.eq_zero_of_not_pos hzero] at hrest
            cases hrest
          have hafter : outBase + pool.segLen x n ≤ seg.outOff := by
            obtain ⟨y, k, hlo, -, -, rfl⟩ := mem_add_drive_segs hrest
            exact Nat.le_add_right _ _
          rcases ih _ (by omega) hrest with hfirst | hlater
          · right
            rw [hfirst, Nat.add_sub_cancel_left]
            exact hfull hmore
          · right
            rwa [show x + (seg.outOff - outBase) =
              x + pool.segLen x n + (seg.outOff - (outBase + pool.segLen x n)) by omega]

variable {len i : Nat}

/-- A read along the file of the drive of `a` finds the byte of the extent that has its place
there. -/
theorem Stored.transfer_finds (h : Stored pool bucket extent content (fs.bodies fds)) {a w o : Nat}
    (hi : i < len) (hw : w < extent) (hdrive : pool.driveOf bucket w = pool.driveOf bucket a)
    (hoff : pool.fileOffsetOf w = pool.fileOffsetOf a + i) :
    ((⟨fds (pool.driveOf bucket a), pool.fileOffsetOf a, len, o⟩ : Seg).transfer fs).Covers
      (o + i) ∧
      ((⟨fds (pool.driveOf bucket a), pool.fileOffsetOf a, len, o⟩ : Seg).transfer fs).data i =
        content w := by
  have hin := h.inside w hw
  have hbyte := h.byte w hw
  rw [hdrive, hoff] at hin hbyte
  unfold FileSystem.bodies at hin hbyte
  cases hfd : fds (pool.driveOf bucket a) with
  | none =>
      rw [hfd] at hin
      exact absurd hin (Nat.not_lt_zero _)
  | some ino =>
      rw [hfd] at hin hbyte
      refine ⟨⟨Nat.le_add_right _ _, ?_⟩, hbyte⟩
      show o + i < o + min len ((fs.file ino).size - pool.fileOffsetOf a)
      dsimp only at hin
      omega

/-- It finds nothing else. -/
theorem Stored.transfer_covers (h : Stored pool bucket extent content (fs.bodies fds)) {a o : Nat}
    (hcov : ((⟨fds (pool.driveOf bucket a), pool.fileOffsetOf a, len, o⟩ : Seg).transfer fs).Covers
      (o + i)) :
    i < len ∧ ∃ w < extent, pool.driveOf bucket w = pool.driveOf bucket a ∧
      pool.fileOffsetOf w = pool.fileOffsetOf a + i := by
  obtain ⟨-, hhi⟩ := hcov
  have hlen := Seg.transfer_len_le fs ⟨fds (pool.driveOf bucket a), pool.fileOffsetOf a, len, o⟩
  rw [Seg.transfer_dst] at hhi
  dsimp only at hhi hlen
  refine ⟨by omega, h.only (pool.driveOf bucket a) (pool.fileOffsetOf a + i) ?_⟩
  unfold FileSystem.bodies
  unfold Seg.transfer at hhi
  cases hfd : fds (pool.driveOf bucket a) with
  | none =>
      simp only [hfd] at hhi
      omega
  | some ino =>
      simp only [hfd, File.available] at hhi
      show pool.fileOffsetOf a + i < (fs.file ino).size
      omega

/-- Rounding adds nothing to whole device blocks. -/
theorem no_spill (hlen : len + kDeviceBlock ≤ wrap64) (hblock : kDeviceBlock ∣ len)
    (hlo : len ≤ i) : ¬ i < alignUp len kDeviceBlock := by
  rw [align_up_of_dvd hlen hblock]
  omega

/-- Only the read of the first stripe unit goes on into the next unit, and it brings the right bytes
exactly if the spill is harmless. -/
theorem rounded_agree_iff (h : Stored pool bucket extent content (fs.bodies fds))
    (hstripe : kDeviceBlock ∣ pool.stripeUnit) (hn : 0 < n) (hext : x + n ≤ extent)
    (hsize : n + kDeviceBlock ≤ wrap64) (hwant : outBase + n ≤ want)
    (hend : outBase + n = want ∨ kDeviceBlock ∣ x + n) (hbuf : want ≤ bufLen) {c : Nat → UInt8}
    (hc : ∀ p, outBase ≤ p → content (x + (p - outBase)) = c p) :
    (∀ t ∈ ((addDriveSegs pool bucket fds x n outBase).map (Seg.rounded bufLen)).map
      (Seg.transfer fs),
      ∀ p < want, t.Covers p → t.data (p - t.dst) = c p) ↔
      SpillHarmless pool bucket extent content x n (x + (want - outBase)) := by
  constructor
  · intro hagree i hlo hhi hstop w hw hdrive hoff
    obtain ⟨hcov, hdata⟩ := h.transfer_finds (o := outBase)
      (show i < min (alignUp (pool.segLen x n) kDeviceBlock) (bufLen - outBase) by omega)
      hw hdrive hoff
    have hbyte := hagree _
      (List.mem_map_of_mem (List.mem_map_of_mem (add_drive_segs_first hn))) (outBase + i)
      (by omega) hcov
    rw [Seg.transfer_dst, ← hc _ (Nat.le_add_right _ _)] at hbyte
    change (Seg.transfer fs _).data (outBase + i - outBase) = _ at hbyte
    rw [Nat.add_sub_cancel_left] at hbyte
    exact hdata.symm.trans hbyte
  · intro hspill t ht p hp hcov
    obtain ⟨read, hread, rfl⟩ := List.mem_map.1 ht
    obtain ⟨seg, hseg, rfl⟩ := List.mem_map.1 hread
    have hstart := add_drive_segs_start hseg
    obtain ⟨a, k, hlo, hhi, hk, rfl⟩ := mem_add_drive_segs hseg
    have hle := pool.seg_len_le a k
    dsimp only at hstart
    have hdst : (Seg.transfer fs (Seg.rounded bufLen
        ⟨fds (pool.driveOf bucket a), pool.fileOffsetOf a,
        pool.segLen a k, outBase + (a - x)⟩)).dst = outBase + (a - x) := Seg.transfer_dst _ _
    have hge := hcov.1
    rw [hdst] at hge
    obtain ⟨i, rfl⟩ := Nat.exists_eq_add_of_le hge
    obtain ⟨hi, w, hw, hdrive, hoff⟩ := h.transfer_covers hcov
    obtain ⟨-, hdata⟩ := h.transfer_finds (o := outBase + (a - x)) hi hw hdrive hoff
    rw [hdst, Nat.add_sub_cancel_left, ← hc _ (by omega),
      show x + (outBase + (a - x) + i - outBase) = a + i by omega]
    refine hdata.trans ?_
    rcases Nat.lt_or_ge i (pool.segLen a k) with hin | hout
    · -- inside the unit the place is that of the byte itself
      have hplace := h.byte (a + i) (by omega)
      rw [DrivePool.drive_of_add hin, DrivePool.file_offset_of_add hin, ← hdrive, ← hoff] at hplace
      exact (h.byte w hw).symm.trans hplace
    · have hround : i < alignUp (pool.segLen a k) kDeviceBlock := by
        have hmin : i < min (alignUp (pool.segLen a k) kDeviceBlock)
            (bufLen - (outBase + (a - x))) := hi
        omega
      have hfits : pool.segLen a k + kDeviceBlock ≤ wrap64 := by omega
      rcases Nat.eq_or_lt_of_le hlo with rfl | hlater
      · rw [show k = n by omega] at hout hround
        exact hspill i hout hround (by omega) w hw hdrive hoff
      · -- a later read starts with a unit, so it spills only at the end of the range
        have halign : a % pool.stripeUnit = 0 := by
          rcases hstart with hfirst | hunit
          · omega
          · rwa [show x + (outBase + (a - x) - outBase) = a by omega] at hunit
        exfalso
        have hblock : kDeviceBlock ∣ pool.segLen a k := by
          unfold DrivePool.segLen at hout ⊢
          rw [halign, Nat.sub_zero] at hout ⊢
          rcases Nat.le_total k pool.stripeUnit with hshort | hfull
          · rw [Nat.min_eq_left hshort] at hout ⊢
            rcases hend with hlast | hwhole
            · omega
            · rw [hk]
              exact Nat.dvd_sub hwhole (hstripe.trans (Nat.dvd_of_mod_eq_zero halign))
          · rw [Nat.min_eq_right hfull]
            exact hstripe
        exact no_spill hfits hblock hout hround

/-- Every position of the range has a read that brings it. -/
theorem rounded_cover (h : Stored pool bucket extent content (fs.bodies fds))
    (hext : x + n ≤ extent) (hsize : n + kDeviceBlock ≤ wrap64) (hbuf : outBase + n ≤ bufLen)
    {p : Nat} (hlo : outBase ≤ p) (hhi : p < outBase + n) :
    ∃ t ∈ ((addDriveSegs pool bucket fds x n outBase).map (Seg.rounded bufLen)).map
      (Seg.transfer fs),
      t.Covers p := by
  obtain ⟨seg, hseg, y, k, hy, hin, rfl, hge⟩ := @add_drive_segs_cover pool bucket fds x n outBase
    (x + (p - outBase)) (by omega) (by omega)
  have hle := pool.seg_len_le y k
  have hk : pool.segLen y k ≤ x + n - y := by
    obtain ⟨a, l, hlo, -, hl, heq⟩ := mem_add_drive_segs hseg
    rw [Seg.mk.injEq] at heq
    obtain ⟨-, -, hsame, hout⟩ := heq
    have hlen := pool.seg_len_le a l
    omega
  obtain ⟨hround, -⟩ := align_up_spec (v := pool.segLen y k) (by omega)
  refine ⟨_, List.mem_map_of_mem (List.mem_map_of_mem hseg), ?_⟩
  have hj : x + (p - outBase) - y < pool.segLen y k := by omega
  have hroom : x + (p - outBase) - y <
      min (alignUp (pool.segLen y k) kDeviceBlock) (bufLen - (outBase + (y - x))) := by omega
  obtain ⟨hdrive, hoff⟩ := @segment_place pool bucket _ _ _ hy hin
  have hcov := (h.transfer_finds (o := outBase + (y - x)) hroom (by omega) hdrive hoff).1
  rwa [show outBase + (y - x) + (x + (p - outBase) - y) = p by omega] at hcov

end TierReads

/-! ## The piece -/

/-- The part of `[lo, stop)` that lies in a tier. -/
def ObjectLayout.tierPart (layout : ObjectLayout) (tier : Tier) (lo stop : Nat) : Nat × Nat :=
  (max lo (layout.tierStart tier), min stop (layout.tierStart tier + layout.tierBytes tier))

/-- In the piece `[pos, stop)` the spill of a tier's first read beyond the head is harmless. -/
def TierHarmless (cfg : Config) (d : Digest) (m : ObjectMeta) (v : Version) (pos stop : Nat)
    (tier : Tier) :
    Prop :=
  ∀ pool lo hi, cfg.pool tier = some pool →
    (lo, hi) = (cfg.layout m.size).tierPart tier (max pos m.headLen) stop → lo < hi →
      SpillHarmless pool d.bucket ((cfg.layout m.size).tierExtent tier)
        (fun x => padded v.body m.size ((cfg.layout m.size).tierStart tier + x))
        (lo - (cfg.layout m.size).tierStart tier) (hi - lo)
        (stop - (cfg.layout m.size).tierStart tier)

/-- The rounded reads cover the part `[lo, hi)` of the object, and bring only right bytes to the
first `want` positions of the buffer exactly if `harmless`. -/
structure BringsPart (fs : FileSystem) (content : Nat → UInt8) (pos want bufLen lo hi : Nat)
    (harmless : Prop) (segs : List Seg) : Prop where
  agree : (∀ t ∈ (segs.map (Seg.rounded bufLen)).map (Seg.transfer fs), ∀ p < want, t.Covers p →
    t.data (p - t.dst) = content (pos + p)) ↔ harmless
  cover : ∀ p, lo ≤ pos + p → pos + p < hi →
    ∃ t ∈ (segs.map (Seg.rounded bufLen)).map (Seg.transfer fs), t.Covers p

section Piece

variable {cfg : Config} {σ : State} {d : Digest} {m : ObjectMeta} {v : Version}
  {rs : State.ReadStream} {pos want bufLen : Nat}

/-- Reads of a tier's part of the piece. -/
theorem tier_brings (tier : Tier) (lo hi : Nat) (h : Held cfg σ d m v)
    (hs : Streams cfg σ.fs d m rs) {pool : DrivePool} (hpool : cfg.pool tier = some pool)
    (hwant : pos + want ≤ m.size) (hbuf : want ≤ bufLen)
    (hpart : (lo, hi) = (cfg.layout m.size).tierPart tier (max pos m.headLen) (pos + want)) :
    BringsPart σ.fs (padded v.body m.size) pos want bufLen lo hi
      (TierHarmless cfg d m v pos (pos + want) tier)
      (if lo < hi then addDriveSegs pool d.bucket (tierFiles rs.ssd rs.hdd tier)
        (lo - (cfg.layout m.size).tierStart tier) (hi - lo) (lo - pos) else []) := by
  have hst := h.stored tier pool hpool
  rw [← hs.files tier pool hpool] at hst
  obtain ⟨hext, -⟩ := cfg.tier_extent_spec h.size_le tier
  obtain ⟨hsum, hhdd⟩ := cfg.layout_tiers (hs.disk h)
  have hharmless : TierHarmless cfg d m v pos (pos + want) tier ↔ (lo < hi →
      SpillHarmless pool d.bucket ((cfg.layout m.size).tierExtent tier)
        (fun x => padded v.body m.size ((cfg.layout m.size).tierStart tier + x))
        (lo - (cfg.layout m.size).tierStart tier) (hi - lo)
        (pos + want - (cfg.layout m.size).tierStart tier)) := by
    refine ⟨fun hall => hall pool lo hi hpool hpart, fun hspill pool' lo' hi' hpool' hpart' => ?_⟩
    rw [hpool] at hpool'
    rw [← hpart] at hpart'
    cases hpool'
    cases hpart'
    exact hspill
  unfold ObjectLayout.tierPart at hpart
  rw [Prod.mk.injEq] at hpart
  obtain ⟨hlo, hhi⟩ := hpart
  rw [hharmless]
  -- the SSD part ends with the piece or with whole blocks
  have hend : lo < hi → hi = pos + want ∨
      kDeviceBlock ∣ hi - (cfg.layout m.size).tierStart tier := by
    intro hlt
    cases tier with
    | hdd =>
        simp only [ObjectLayout.tierStart, ObjectLayout.tierBytes] at hhi
        exact Or.inl (by omega)
    | ssd =>
        simp only [ObjectLayout.tierStart, ObjectLayout.tierBytes, Nat.zero_add] at hhi ⊢
        rcases Nat.lt_or_ge (cfg.layout m.size).ssdBytes (pos + want) with hmore | hlast
        · right
          rw [hhi, Nat.min_eq_right (by omega), Nat.sub_zero]
          exact (hhdd (by omega)).1
        · exact Or.inl (by omega)
  split_ifs with hlt
  · have hsize := h.size_le
    have hx : lo - (cfg.layout m.size).tierStart tier + (hi - lo) =
        hi - (cfg.layout m.size).tierStart tier := by omega
    refine ⟨?_, fun p hp hp' => ?_⟩
    · have hc : ∀ p, lo - pos ≤ p → padded v.body m.size ((cfg.layout m.size).tierStart tier +
          (lo - (cfg.layout m.size).tierStart tier + (p - (lo - pos)))) =
          padded v.body m.size (pos + p) := by
        intro p hp
        congr 1
        omega
      have hstop : lo - pos + (hi - lo) = want ∨
          kDeviceBlock ∣ lo - (cfg.layout m.size).tierStart tier + (hi - lo) := by
        rw [hx]
        exact (hend hlt).imp_left fun hlast => by omega
      have hagree := rounded_agree_iff hst (cfg.pool_aligned hpool) (by omega) (by omega) (by omega)
        (by omega) hstop hbuf hc
      rw [show lo - (cfg.layout m.size).tierStart tier + (want - (lo - pos)) =
        pos + want - (cfg.layout m.size).tierStart tier by omega] at hagree
      exact hagree.trans ⟨fun hspill _ => hspill, fun hspill => hspill hlt⟩
    · exact rounded_cover hst (by omega) (by omega) (by omega) (by omega) (by omega)
  · refine ⟨⟨fun _ hlt' => absurd hlt' hlt, fun _ t ht => absurd ht List.not_mem_nil⟩,
      fun p hp hp' => ?_⟩
    omega

/-- The SSD reads of the plan. -/
theorem plan_ssd_brings (h : Held cfg σ d m v) (hs : Streams cfg σ.fs d m rs)
    (hwant : pos + want ≤ m.size) (hbuf : want ≤ bufLen) :
    BringsPart σ.fs (padded v.body m.size) pos want bufLen (max pos m.headLen)
      (min (pos + want) (cfg.layout m.size).ssdBytes) (TierHarmless cfg d m v pos (pos + want) .ssd)
      (State.planSsd cfg rs pos want m.headLen) := by
  have hpart : (max pos m.headLen, min (pos + want) (cfg.layout m.size).ssdBytes) =
      (cfg.layout m.size).tierPart .ssd (max pos m.headLen) (pos + want) := by
    simp only [ObjectLayout.tierPart, ObjectLayout.tierStart, ObjectLayout.tierBytes,
      Nat.max_zero, Nat.zero_add]
  have hbrings := tier_brings .ssd _ _ h hs rfl hwant hbuf hpart
  unfold State.planSsd
  rw [hs.layout_eq, hs.digest_eq]
  exact hbrings

/-- The HDD reads of the plan. -/
theorem plan_hdd_brings (h : Held cfg σ d m v) (hs : Streams cfg σ.fs d m rs)
    (hwant : pos + want ≤ m.size) (hbuf : want ≤ bufLen) :
    BringsPart σ.fs (padded v.body m.size) pos want bufLen (max pos (cfg.layout m.size).ssdBytes)
      (pos + want) (TierHarmless cfg d m v pos (pos + want) .hdd)
      (State.planHdd cfg rs pos want) := by
  obtain ⟨hsum, hram, -⟩ := @compute_layout_disk m.size cfg.tiers cfg.threeLayer (hs.disk h)
  change (cfg.layout m.size).ssdBytes + (cfg.layout m.size).hddBytes = m.size at hsum
  change cfg.tiers.ramHead ≤ (cfg.layout m.size).ssdBytes at hram
  have hhead := h.head_len.1
  -- the head ends before the HDD part, and the object with it
  have hpart : (max pos (cfg.layout m.size).ssdBytes, pos + want) =
      (cfg.layout m.size).tierPart .hdd (max pos m.headLen) (pos + want) := by
    simp only [ObjectLayout.tierPart, ObjectLayout.tierStart, ObjectLayout.tierBytes, Prod.mk.injEq]
    constructor <;> omega
  rcases Nat.eq_zero_or_pos (cfg.layout m.size).hddBytes with hzero | hpos
  · have hempty : State.planHdd cfg rs pos want = [] := by
      unfold State.planHdd
      split
      · rw [hs.layout_eq, if_neg (by omega)]
      · rfl
    rw [hempty]
    refine ⟨⟨fun _ pool lo hi _ heq hlt => ?_, fun _ t ht => absurd ht List.not_mem_nil⟩,
      fun p hp hp' => ?_⟩
    · rw [← hpart] at heq
      cases heq
      omega
    · omega
  · obtain ⟨pool, fds, hpool, hfds⟩ := hs.hdd_open h hpos
    have hbrings := tier_brings .hdd _ _ h hs hpool hwant hbuf hpart
    have hsegs : State.planHdd cfg rs pos want =
        if max pos (cfg.layout m.size).ssdBytes < pos + want then
          addDriveSegs pool d.bucket (tierFiles rs.ssd rs.hdd .hdd)
            (max pos (cfg.layout m.size).ssdBytes - (cfg.layout m.size).tierStart .hdd)
            (pos + want - max pos (cfg.layout m.size).ssdBytes)
            (max pos (cfg.layout m.size).ssdBytes - pos) else [] := by
      unfold State.planHdd
      simp only [hpool, hfds, hs.layout_eq, hs.digest_eq, tierFiles, Option.getD_some,
        ObjectLayout.tierStart]
      rcases Nat.lt_or_ge (max pos (cfg.layout m.size).ssdBytes) (pos + want) with hlt | hge
      · rw [if_pos hlt, if_pos (by omega)]
      · rw [if_neg (Nat.not_lt.2 hge), Nat.sub_eq_zero_of_le hge]
        exact ite_self []
    rw [hsegs]
    exact hbrings

/-- The reads of a plan bring the piece in every order exactly if both tiers' spills are
harmless. -/
theorem plan_awaiting_iff (h : Held cfg σ d m v) (hs : Streams cfg σ.fs d m rs)
    (hwant : pos + want ≤ m.size) (hbuf : want ≤ bufLen) (out : Nat → UInt8) :
    Awaiting (fun p => padded v.body m.size (pos + p)) (fun p => p < want)
      (σ.copyHead m pos want out)
      (((State.planSsd cfg rs pos want m.headLen ++ State.planHdd cfg rs pos want).map
        (Seg.rounded bufLen)).map (Seg.transfer σ.fs)) ↔
      ∀ tier, TierHarmless cfg d m v pos (pos + want) tier := by
  have hssd := plan_ssd_brings h hs hwant hbuf
  have hhdd := plan_hdd_brings h hs hwant hbuf
  rw [List.map_append, List.map_append]
  constructor
  · intro hawaiting tier
    cases tier with
    | ssd => exact hssd.agree.1 fun t ht => hawaiting.agrees t (List.mem_append_left _ ht)
    | hdd => exact hhdd.agree.1 fun t ht => hawaiting.agrees t (List.mem_append_right _ ht)
  · intro hharmless
    refine ⟨fun t ht => ?_, fun p hp => ?_⟩
    · rcases List.mem_append.1 ht with ht | ht
      · exact hssd.agree.2 (hharmless .ssd) t ht
      · exact hhdd.agree.2 (hharmless .hdd) t ht
    · rcases Nat.lt_or_ge (pos + p) m.headLen with hhead | hbeyond
      · exact Or.inl (h.copied hp (by omega) hhead)
      · right
        rcases Nat.lt_or_ge (pos + p) (cfg.layout m.size).ssdBytes with hfast | htail
        · obtain ⟨t, ht, hcov⟩ := hssd.cover p (by omega) (by omega)
          exact ⟨t, List.mem_append_left _ ht, hcov⟩
        · obtain ⟨t, ht, hcov⟩ := hhdd.cover p (by omega) (by omega)
          exact ⟨t, List.mem_append_right _ ht, hcov⟩

/-- The stream has the files for every byte of its object that no head can cover. -/
structure Maps (cfg : Config) (rs : State.ReadStream) : Prop where
  disk : cfg.tiers.ramHead < rs.size
  layout_eq : rs.layout = cfg.layout rs.size
  hdd : 0 < (cfg.layout rs.size).hddBytes → rs.hdd ≠ none

theorem Streams.maps (hs : Streams cfg σ.fs d m rs) (h : Held cfg σ d m v) : Maps cfg rs where
  disk := by
    rw [hs.size_eq]
    exact hs.disk h
  layout_eq := by
    rw [hs.size_eq]
    exact hs.layout_eq
  hdd hpos := by
    rw [hs.size_eq] at hpos
    obtain ⟨-, fds, -, hfds⟩ := hs.hdd_open h hpos
    simp [hfds]

/-- A plan maps the whole piece, whatever head is indexed by then. -/
theorem plan_total (hmaps : Maps cfg rs) {ramEnd : Nat} (hhead : ramEnd ≤ cfg.tiers.ramHead)
    (hwant : pos + want ≤ rs.size) :
    min (pos + want) ramEnd - pos + segBytes (State.planSsd cfg rs pos want ramEnd ++
      State.planHdd cfg rs pos want) = want := by
  obtain ⟨hsum, hram, -⟩ := @compute_layout_disk rs.size cfg.tiers cfg.threeLayer hmaps.disk
  change (cfg.layout rs.size).ssdBytes + (cfg.layout rs.size).hddBytes = rs.size at hsum
  change cfg.tiers.ramHead ≤ (cfg.layout rs.size).ssdBytes at hram
  have hssd : segBytes (State.planSsd cfg rs pos want ramEnd) =
      min (pos + want) (cfg.layout rs.size).ssdBytes - max pos ramEnd := by
    unfold State.planSsd
    rw [hmaps.layout_eq]
    dsimp only
    split_ifs with hrange
    · exact add_drive_segs_bytes _ _ _ _ _ _
    · exact (Nat.sub_eq_zero_of_le (by omega)).symm
  have hhdd : segBytes (State.planHdd cfg rs pos want) =
      pos + want - max pos (cfg.layout rs.size).ssdBytes := by
    rcases Nat.eq_zero_or_pos (cfg.layout rs.size).hddBytes with hzero | hpos
    · unfold State.planHdd
      rw [hmaps.layout_eq, Nat.sub_eq_zero_of_le (by omega)]
      split
      · rw [if_neg (by omega)]
        rfl
      · rfl
    · obtain ⟨fds, hfds⟩ := Option.ne_none_iff_exists'.1 (hmaps.hdd hpos)
      obtain ⟨pool, hpool⟩ := Option.ne_none_iff_exists'.1 ((cfg.layout_tiers hmaps.disk).2 hpos).2
      unfold State.planHdd
      simp only [hpool, hfds, hmaps.layout_eq]
      split_ifs with hrange
      · exact add_drive_segs_bytes _ _ _ _ _ _
      · exact (Nat.sub_eq_zero_of_le (by omega)).symm
  have happend : segBytes (State.planSsd cfg rs pos want ramEnd ++ State.planHdd cfg rs pos want) =
      segBytes (State.planSsd cfg rs pos want ramEnd) + segBytes
        (State.planHdd cfg rs pos want) := by
    simp [segBytes]
  rw [happend, hssd, hhdd]
  omega

/-- The next piece of a window. -/
theorem plan_piece_eq (hmaps : Maps cfg rs) (hhead : σ.indexedHeadLen rs.digest ≤ cfg.tiers.ramHead)
    {stop : Nat} (hpos : pos < stop) (hend : stop ≤ rs.size) (bufLen : Nat) (buf : Nat → UInt8) :
    planPiece cfg σ rs pos stop bufLen buf = some ⟨min bufLen (stop - pos),
      σ.copyIndexedHead rs.digest pos (min bufLen (stop - pos)) buf,
      State.planSsd cfg rs pos (min bufLen (stop - pos)) (σ.indexedHeadLen rs.digest) ++
        State.planHdd cfg rs pos (min bufLen (stop - pos))⟩ := by
  have hplan : State.plan cfg σ rs pos (min bufLen (stop - pos)) buf =
      (⟨min bufLen (stop - pos), State.planSsd cfg rs pos (min bufLen (stop - pos))
        (σ.indexedHeadLen rs.digest) ++ State.planHdd cfg rs pos (min bufLen (stop - pos))⟩,
        σ.copyIndexedHead rs.digest pos (min bufLen (stop - pos)) buf) := by
    unfold State.plan
    rw [if_neg (by omega)]
    dsimp only
    rw [Nat.min_eq_left (show min bufLen (stop - pos) ≤ rs.size - pos by omega),
      plan_total hmaps hhead (by omega)]
  unfold planPiece
  dsimp only
  rw [hplan]
  exact if_neg (not_not.2 rfl)

/-- The next piece of a window, when the object is as it was at the snapshot. -/
theorem plan_piece_whole (h : Held cfg σ d m v) (hs : Streams cfg σ.fs d m rs) {stop : Nat}
    (hpos : pos < stop) (hend : stop ≤ m.size) (bufLen : Nat) (buf : Nat → UInt8) :
    planPiece cfg σ rs pos stop bufLen buf = some ⟨min bufLen (stop - pos),
      σ.copyHead m pos (min bufLen (stop - pos)) buf,
      State.planSsd cfg rs pos (min bufLen (stop - pos)) m.headLen ++
        State.planHdd cfg rs pos (min bufLen (stop - pos))⟩ := by
  have hindexed : σ.indexedHeadLen rs.digest = m.headLen := by
    unfold State.indexedHeadLen
    rw [hs.digest_eq, h.indexed]
    rfl
  have hcopy : σ.copyIndexedHead rs.digest pos (min bufLen (stop - pos)) buf =
      σ.copyHead m pos (min bufLen (stop - pos)) buf := by
    unfold State.copyIndexedHead
    rw [hs.digest_eq, h.indexed]
  rw [plan_piece_eq (hs.maps h) (by rw [hindexed]; exact h.head_len.1) hpos
    (by rw [hs.size_eq]; exact hend),
    hindexed, hcopy]

end Piece

/-- For every object in the store and every window on it, each piece of the window is mapped whole,
and its reads bring the object's bytes in every order exactly if no spill puts a wrong byte into the
piece. -/
theorem range_piece_bytes {cfg : Config} {σ : State} {d : Digest} {m : ObjectMeta} {v : Version}
    {rs : State.ReadStream} (h : Held cfg σ d m v) (hs : Streams cfg σ.fs d m rs)
    (reqRange : Option ByteRange) (unmodified : Bool) (pos : Nat)
    (hpos : pos < (getWindow reqRange unmodified m.size).2) (bufLen : Nat) (buf : Nat → UInt8) :
    ∃ piece, planPiece cfg σ rs pos
      (getWindow reqRange unmodified m.size).2 bufLen buf = some piece ∧
      piece.len = min bufLen ((getWindow reqRange unmodified m.size).2 - pos) ∧
      ((∀ order : List Seg, order.Perm (piece.reads bufLen) → ∀ p < piece.len,
        (order.map (Seg.transfer σ.fs)).foldl (fun buf t => t.perform buf) piece.buf p =
          v.body (pos + p)) ↔
        ∀ tier, TierHarmless cfg d m v pos (pos + piece.len) tier) := by
  have hend := get_window_le m.size reqRange unmodified
  generalize (getWindow reqRange unmodified m.size).2 = stop at hpos hend
  have hwant : pos + min bufLen (stop - pos) ≤ m.size := by omega
  refine ⟨_, plan_piece_whole h hs hpos hend bufLen buf, rfl, ?_⟩
  rw [← plan_awaiting_iff h hs hwant (Nat.min_le_left _ _) buf]
  have hbody : ∀ p < min bufLen (stop - pos), padded v.body m.size (pos + p) = v.body (pos + p) :=
    fun p hp => if_pos (by omega)
  constructor
  · intro hall
    exact Awaiting.of_gather fun order hperm p hp => (hall order hperm p hp).trans (hbody p hp).symm
  · intro hawaiting order hperm p hp
    exact (hawaiting.gather (hperm.map _) hp).trans (hbody p hp)

/-- Five chunks, each filled with its number, on two drives. -/
def storeChunks : List Op :=
  [.beginStore (Digest.replicate 1) 20480 Faults.never,
    .write 0 ⟨20480, fun i => UInt8.ofNat (i / 4096)⟩ Faults.never, .commit 0 0 0 0 Faults.never]

theorem store_chunks_sound : Allowed (State.apply twoDriveConfig) (Sound twoDriveConfig)
    (State.init twoDriveConfig) storeChunks := by
  refine regular_sound twoDriveConfig fun op hop => ?_
  simp only [storeChunks, List.mem_cons, List.not_mem_nil, or_false] at hop
  rcases hop with rfl | rfl | rfl
  · refine ⟨rfl, fun d size faults heq => ?_⟩
    cases heq
    refine ⟨by decide, fun tier pool hpool _ => ?_⟩
    cases tier with
    | ssd =>
        cases hpool
        exact ⟨by decide, by decide⟩
    | hdd => cases hpool
  · exact ⟨rfl, nofun⟩
  · exact ⟨rfl, nofun⟩

/-- The snapshot of the chunks, and its stream. -/
def chunksSnapshot : Option State.Snapshot :=
  (State.openSnapshot twoDriveConfig (State.after twoDriveConfig storeChunks) (Digest.replicate 1)
    Faults.never).1

/-- The rest of the object from the third chunk on. -/
theorem range_piece_bytes_aligned : ∃ v snap rs piece,
    liveVersion (State.after twoDriveConfig storeChunks).history (Digest.replicate 1) = some v ∧
      chunksSnapshot = some snap ∧ snap.rs = some rs ∧
      planPiece twoDriveConfig (State.after twoDriveConfig storeChunks) rs 8192 20480 16384
        (fun _ => 0) = some piece ∧
      ∀ order : List Seg, order.Perm (piece.reads 16384) → ∀ p < piece.len,
        (order.map (Seg.transfer (State.after twoDriveConfig storeChunks).fs)).foldl
          (fun buf t => t.perform buf) piece.buf p = v.body (8192 + p) := by
  obtain ⟨snap, hsnap⟩ : ∃ snap, chunksSnapshot = some snap :=
    Option.isSome_iff_exists.1 (by decide +kernel)
  have hstream : (chunksSnapshot.bind fun snap => snap.rs).isSome = true := by decide +kernel
  rw [hsnap, Option.bind_some] at hstream
  obtain ⟨rs, hrs⟩ := Option.isSome_iff_exists.1 hstream
  have hsize : chunksSnapshot.map (fun snap => (snap.info.size, snap.info.headLen)) =
      some (20480, 4096) := by
    decide +kernel
  rw [hsnap, Option.map_some, Option.some.injEq, Prod.mk.injEq] at hsize
  obtain ⟨hm, -, hstreams⟩ := State.open_snapshot_spec hsnap
  obtain ⟨v, hv, -, hreadable⟩ := readable_after (by decide) store_chunks_sound hm
  obtain ⟨piece, hpiece, hlen, hall⟩ := range_piece_bytes hreadable.held (hstreams rs hrs)
    (some ⟨.from, 8192, 0⟩) false 8192 (by rw [hsize.1]; decide) 16384 (fun _ => 0)
  rw [hsize.1] at hpiece hlen
  refine ⟨v, snap, rs, piece, hv, hsnap, hrs, hpiece,
    hall.2 fun tier pool lo hi hpool hpart hlt => ?_⟩
  cases tier with
  | hdd => cases hpool
  | ssd =>
      cases hpool
      have hwhole : piece.len = 12288 := hlen.trans (by decide)
      rw [hsize.1, hsize.2, hwhole] at hpart
      cases hpart
      -- the first read is one whole chunk
      intro i hlo hhi
      rw [hsize.1] at hlo hhi
      exact absurd (Nat.lt_of_le_of_lt hlo hhi) (by decide)

/-- The piece of the range `bytes=5000-`. -/
def unalignedPiece : Option LanePiece :=
  chunksSnapshot.bind fun snap => snap.rs.bind fun rs =>
    planPiece twoDriveConfig (State.after twoDriveConfig storeChunks) rs 5000 20480 16384 fun _ => 0

/-- The buffer when the reads have completed, the first of them last. -/
def firstReadLast (piece : LanePiece) : Nat → UInt8 :=
  (((piece.reads 16384).rotate 1).map
    (Seg.transfer (State.after twoDriveConfig storeChunks).fs)).foldl
    (fun buf t => t.perform buf) piece.buf

/-- The read of the second chunk goes on into the fourth chunk, which follows it on its drive. When
it completes last, the third chunk starts with bytes of the fourth. -/
theorem range_piece_wrong_bytes :
    getWindow (some ⟨.from, 5000, 0⟩) false 20480 = (5000, 20480) ∧
      unalignedPiece.map (fun piece => (piece.len, (piece.reads 16384).length)) = some (15480, 4) ∧
      (liveVersion (State.after twoDriveConfig storeChunks).history (Digest.replicate 1)).map
        (fun v => v.body (5000 + 3192)) = some 2 ∧
      unalignedPiece.map (fun piece => firstReadLast piece 3192) = some 3 := by
  decide +kernel

end GoblinStore
