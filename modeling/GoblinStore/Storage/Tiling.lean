import GoblinStore.Storage.DrivePool
import Mathlib.Algebra.GroupWithZero.Nat
import Mathlib.Logic.Function.Iterate

/-!
# The segments of a range

`planStep` is one iteration of the loop of `plan_reads`, with its 64-bit cursor. From a range that
ends below `2 ^ 64` the loop stops with the segments of `planReads` (`plan_steps`). The segments
follow each other without gaps (`Tiles`), and the bytes they name, in order, are the bytes of the
range in their places (`plan_reads_places`).
-/

namespace GoblinStore

/-- The places of a segment's bytes, in order. -/
def ReadSegment.places (seg : ReadSegment) : List (Nat × Nat) :=
  (List.range seg.length).map fun i => (seg.drive, seg.fileOffset + i)

/-- The places of the concatenated bytes of the segments. -/
def segmentPlaces (segs : List ReadSegment) : List (Nat × Nat) := segs.flatMap ReadSegment.places

theorem segment_places_cons (seg : ReadSegment) (rest : List ReadSegment) :
    segmentPlaces (seg :: rest) = seg.places ++ segmentPlaces rest :=
  List.flatMap_cons

namespace DrivePool

/-- The drive of a tier-local offset and the offset in the drive's file. -/
def place (pool : DrivePool) (keyHash x : Nat) : Nat × Nat :=
  (pool.driveOf keyHash x, pool.fileOffsetOf x)

/-- The variables of the loop of `plan_reads`. -/
structure PlanState where
  cur : Nat
  remaining : Nat
  segs : List ReadSegment

/-- One iteration of the loop. -/
def planStep (pool : DrivePool) (keyHash : Nat) (s : PlanState) : PlanState where
  cur := (s.cur + pool.segLen s.cur s.remaining) % wrap64
  remaining := s.remaining - pool.segLen s.cur s.remaining
  segs := s.segs ++ [⟨pool.driveOf keyHash s.cur, pool.fileOffsetOf s.cur,
    pool.segLen s.cur s.remaining⟩]

/-- Each segment starts where the one before it ends and stays in one stripe unit, of the tier and
of the drive's file. -/
def Tiles (pool : DrivePool) : Nat → Nat → List ReadSegment → Prop
  | _, len, [] => len = 0
  | off, len, seg :: rest =>
      0 < seg.length ∧ seg.length ≤ len ∧ off % pool.stripeUnit + seg.length ≤ pool.stripeUnit ∧
        seg.fileOffset % pool.stripeUnit + seg.length ≤ pool.stripeUnit ∧
        pool.Tiles (off + seg.length) (len - seg.length) rest

variable {pool : DrivePool} {keyHash off len : Nat}

theorem seg_len_unit (pool : DrivePool) (off len : Nat) :
    off % pool.stripeUnit + pool.segLen off len ≤ pool.stripeUnit := by
  have hmod := Nat.mod_lt off pool.stripe_unit_pos
  unfold segLen
  omega

theorem file_offset_of_mod (pool : DrivePool) (off : Nat) :
    pool.fileOffsetOf off % pool.stripeUnit = off % pool.stripeUnit := by
  rw [fileOffsetOf, Nat.mul_comm, Nat.mul_add_mod, Nat.mod_mod]

theorem plan_reads_tile (pool : DrivePool) (keyHash off len : Nat) :
    pool.Tiles off len (pool.planReads keyHash off len) := by
  induction len using Nat.strongRecOn generalizing off with
  | ind len ih =>
      rcases Nat.eq_zero_or_pos len with rfl | hlen
      · rw [plan_reads_zero]
        rfl
      · have hpos := pool.seg_len_pos off hlen
        rw [plan_reads_cons hlen]
        refine ⟨hpos, pool.seg_len_le off len, pool.seg_len_unit off len, ?_,
          ih _ (Nat.sub_lt hlen hpos) _⟩
        rw [file_offset_of_mod]
        exact pool.seg_len_unit off len

theorem Tiles.pos {segs : List ReadSegment} (h : pool.Tiles off len segs) :
    ∀ seg ∈ segs, 0 < seg.length := by
  induction segs generalizing off len with
  | nil => exact fun seg hseg => absurd hseg List.not_mem_nil
  | cons first rest ih =>
      intro seg hseg
      rcases List.mem_cons.1 hseg with rfl | hrest
      · exact h.1
      · exact ih h.2.2.2.2 seg hrest

theorem Tiles.sum {segs : List ReadSegment} (h : pool.Tiles off len segs) :
    (segs.map (·.length)).sum = len := by
  induction segs generalizing off len with
  | nil => exact h.symm
  | cons first rest ih =>
      have hrest := ih h.2.2.2.2
      have hle := h.2.1
      rw [List.map_cons, List.sum_cons, hrest]
      omega

/-- The bytes of the segments, one after the other, are the bytes of the range in their places. -/
theorem plan_reads_places :
    segmentPlaces (pool.planReads keyHash off len) = (List.range len).map fun i =>
      pool.place keyHash (off + i) := by
  induction len using Nat.strongRecOn generalizing off with
  | ind len ih =>
      rcases Nat.eq_zero_or_pos len with rfl | hlen
      · rfl
      have hpos := pool.seg_len_pos off hlen
      have hle := pool.seg_len_le off len
      rw [plan_reads_cons hlen, segment_places_cons, ih _ (by omega)]
      conv_rhs => rw [show len = pool.segLen off len + (len - pool.segLen off len) by omega,
      List.range_add, List.map_append, List.map_map]
      refine congrArg₂ _ (List.map_congr_left fun i hi => ?_) (List.map_congr_left fun i _ => ?_)
      · have hin : i < pool.segLen off len := List.mem_range.1 hi
        rw [place, drive_of_add hin, file_offset_of_add hin]
      · simp only [Function.comp_apply, Nat.add_assoc]

/-- Two ranges in a row have the bytes of the whole. -/
theorem plan_reads_places_append (pool : DrivePool) (keyHash off l1 l2 : Nat) :
    segmentPlaces (pool.planReads keyHash off l1) ++
      segmentPlaces (pool.planReads keyHash (off + l1) l2) =
      segmentPlaces (pool.planReads keyHash off (l1 + l2)) := by
  rw [plan_reads_places, plan_reads_places, plan_reads_places, List.range_add,
    List.map_append, List.map_map]
  simp only [Function.comp_def, Nat.add_assoc]

/-- The loop stops after at most one iteration a byte, with the segments of the range. -/
theorem plan_steps (before : List ReadSegment) (hend : off + len < wrap64) :
    ∃ k ≤ len, (∀ j < k, 0 < ((pool.planStep keyHash)^[j] ⟨off, len, before⟩).remaining) ∧
      (pool.planStep keyHash)^[k] ⟨off, len, before⟩ =
        ⟨off + len, 0, before ++ pool.planReads keyHash off len⟩ := by
  induction len using Nat.strongRecOn generalizing off before with
  | ind len ih =>
      rcases Nat.eq_zero_or_pos len with rfl | hlen
      · refine ⟨0, le_rfl, fun j hj => absurd hj (Nat.not_lt_zero j), ?_⟩
        rw [plan_reads_zero, List.append_nil]
        rfl
      have hpos := pool.seg_len_pos off hlen
      have hle := pool.seg_len_le off len
      have hstep : pool.planStep keyHash ⟨off, len, before⟩ =
          ⟨off + pool.segLen off len, len - pool.segLen off len,
          before ++ [⟨pool.driveOf keyHash off, pool.fileOffsetOf off, pool.segLen off len⟩]⟩ := by
        have hcur : (off + pool.segLen off len) % wrap64 = off + pool.segLen off len :=
          Nat.mod_eq_of_lt (by omega)
        show PlanState.mk ((off + pool.segLen off len) % wrap64) _ _ = _
        rw [hcur]
      have hrest : off + pool.segLen off len + (len - pool.segLen off len) < wrap64 := by omega
      obtain ⟨k, hk, hrunning, hstop⟩ := ih (len - pool.segLen off len) (by omega)
        (before ++ [⟨pool.driveOf keyHash off, pool.fileOffsetOf off, pool.segLen off len⟩]) hrest
      refine ⟨k + 1, by omega, fun j hj => ?_, ?_⟩
      · cases j with
        | zero => exact hlen
        | succ j =>
            rw [Function.iterate_succ_apply, hstep]
            exact hrunning j (Nat.lt_of_succ_lt_succ hj)
      · rw [Function.iterate_succ_apply, hstep, hstop, plan_reads_cons hlen, List.append_assoc,
          List.singleton_append,
          show off + pool.segLen off len + (len - pool.segLen off len) = off + len by omega]

/-- The loop of `plan_reads` ends, and its segments tile the range. -/
theorem plan_reads_tiles_range (pool : DrivePool) (keyHash off len : Nat)
    (hend : off + len < wrap64) :
    (∃ k ≤ len, (∀ j < k, 0 < ((pool.planStep keyHash)^[j] ⟨off, len, []⟩).remaining) ∧
        (pool.planStep keyHash)^[k] ⟨off, len, []⟩ =
          ⟨off + len, 0, pool.planReads keyHash off len⟩) ∧
      (∀ seg ∈ pool.planReads keyHash off len, 0 < seg.length) ∧
      ((pool.planReads keyHash off len).map (·.length)).sum = len ∧
      (segmentPlaces (pool.planReads keyHash off len)).length = len ∧
      (∀ i < len, (segmentPlaces (pool.planReads keyHash off len))[i]? =
        some (pool.driveOf keyHash (off + i), pool.fileOffsetOf (off + i))) ∧
      pool.Tiles off len (pool.planReads keyHash off len) ∧
      ∀ l1 l2, l1 + l2 = len →
        segmentPlaces (pool.planReads keyHash off l1) ++
            segmentPlaces (pool.planReads keyHash (off + l1) l2) =
          segmentPlaces (pool.planReads keyHash off len) := by
  have htile := pool.plan_reads_tile keyHash off len
  refine ⟨plan_steps [] hend, htile.pos, htile.sum, ?_, fun i hi => ?_, htile, fun l1 l2 hlen => ?_⟩
  · rw [plan_reads_places, List.length_map, List.length_range]
  · rw [plan_reads_places, List.getElem?_map, List.getElem?_range hi]
    rfl
  · rw [plan_reads_places_append, hlen]

/-- Four drives, with units of 64 KiB. -/
def fourDrives : DrivePool := ⟨4, 65536, Nat.succ_pos 3, Nat.succ_pos 65535⟩

/-- The range of 64 KiB from 32 KiB on lies half on the first drive and half on the second. -/
theorem plan_reads_tiles_four :
    (32768 + 65536 < wrap64 ∧
      fourDrives.planReads 0 32768 65536 = [⟨0, 32768, 32768⟩, ⟨1, 0, 32768⟩]) ∧
      fourDrives.Tiles 32768 65536 (fourDrives.planReads 0 32768 65536) := by
  refine ⟨⟨by decide, ?_⟩, (plan_reads_tiles_range fourDrives 0 32768 65536
    (by decide)).2.2.2.2.2.1⟩
  rw [plan_reads_cons (by decide), plan_reads_cons (by decide)]
  rfl

end DrivePool

end GoblinStore
