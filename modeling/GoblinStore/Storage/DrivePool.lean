import GoblinStore.Common.Types
import Mathlib.Data.List.Nodup
import Mathlib.Data.Nat.ModEq

/-!
# RAID-0 striping of an object's tier-local bytes

`DrivePool` places tier-local offset `off` of an object on drive `driveOf` at `fileOffsetOf`.
The drive index is a 64-bit sum reduced modulo the number of drives; `Fits` says that the sum
does not wrap for any chunk of the object. Under `Fits` the placement is injective
(`placement_injective`) and the drives that `stripeDrives` lists are distinct and hold every
byte (`drive_of_mem_stripe_drives`, `stripe_drives_nodup`).
-/

namespace GoblinStore

/-- A pool of `numDrives` drives striped in units of `stripeUnit` bytes. -/
structure DrivePool where
  numDrives : Nat
  stripeUnit : Nat
  num_drives_pos : 0 < numDrives
  stripe_unit_pos : 0 < stripeUnit

/-- One contiguous read against one drive's per-object file. -/
structure ReadSegment where
  drive : Nat
  fileOffset : Nat
  length : Nat
  deriving DecidableEq, Repr

namespace DrivePool

/-- The drive holding tier-local offset `off` of the object with this key hash. -/
def driveOf (pool : DrivePool) (keyHash off : Nat) : Nat :=
  (keyHash + off / pool.stripeUnit) % wrap64 % pool.numDrives

/-- The offset of tier-local offset `off` within that drive's file. -/
def fileOffsetOf (pool : DrivePool) (off : Nat) : Nat :=
  off / pool.stripeUnit / pool.numDrives * pool.stripeUnit + off % pool.stripeUnit

/-- The number of stripe units of a tier extent, as 64-bit arithmetic computes it. -/
def chunks (pool : DrivePool) (tierBytes : Nat) : Nat :=
  (tierBytes + pool.stripeUnit - 1) % wrap64 / pool.stripeUnit

/-- The number of files an object of `tierBytes` occupies. -/
def filesUsed (pool : DrivePool) (tierBytes : Nat) : Nat :=
  if tierBytes = 0 then 0
  else if pool.chunks tierBytes < pool.numDrives then pool.chunks tierBytes else pool.numDrives

/-- The drives that `open_object`, `publish` and `unlink_object` visit, in loop order. -/
def stripeDrives (pool : DrivePool) (keyHash tierBytes : Nat) : List Nat :=
  (List.range (pool.filesUsed tierBytes)).map fun c => pool.driveOf keyHash (c * pool.stripeUnit)

/-- The part of a range starting at `off` that lies in one stripe unit. -/
def segLen (pool : DrivePool) (off len : Nat) : Nat :=
  min len (pool.stripeUnit - off % pool.stripeUnit)

/-- The loop of `plan_reads`; every iteration consumes at least one byte, so `remaining`
iterations are enough. -/
def planLoop (pool : DrivePool) (keyHash : Nat) : Nat → Nat → Nat → List ReadSegment
  | 0, _, _ => []
  | fuel + 1, cur, remaining =>
      if remaining = 0 then []
      else
        let len := pool.segLen cur remaining
        ⟨pool.driveOf keyHash cur, pool.fileOffsetOf cur, len⟩ ::
          planLoop pool keyHash fuel (cur + len) (remaining - len)

/-- Read segments of the tier-local range `[off, off + len)`: one per stripe unit, in order. -/
def planReads (pool : DrivePool) (keyHash off len : Nat) : List ReadSegment :=
  pool.planLoop keyHash len off len

variable {pool : DrivePool} {keyHash : Nat}

theorem drive_of_lt (pool : DrivePool) (keyHash off : Nat) :
    pool.driveOf keyHash off < pool.numDrives :=
  Nat.mod_lt _ pool.num_drives_pos

/-! ## The segments of `planReads` -/

variable {len : Nat}

theorem seg_len_pos (pool : DrivePool) (off : Nat) (hlen : 0 < len) : 0 < pool.segLen off len := by
  have := Nat.mod_lt off pool.stripe_unit_pos
  unfold segLen
  omega

theorem seg_len_le (pool : DrivePool) (off len : Nat) : pool.segLen off len ≤ len :=
  Nat.min_le_left _ _

/-- The loop gives the same segments for every sufficient fuel. -/
theorem plan_loop_fuel {fuel cur remaining : Nat} (hfuel : remaining ≤ fuel) :
    pool.planLoop keyHash fuel cur remaining = pool.planReads keyHash cur remaining := by
  unfold planReads
  induction remaining using Nat.strongRecOn generalizing fuel cur with
  | ind remaining ih =>
      cases remaining with
      | zero => cases fuel <;> simp [planLoop]
      | succ rest =>
          obtain ⟨more, rfl⟩ : ∃ more, fuel = more + 1 := ⟨fuel - 1, by omega⟩
          have hpos : 0 < pool.segLen cur (rest + 1) := pool.seg_len_pos cur (Nat.succ_pos rest)
          simp only [planLoop, Nat.succ_ne_zero, if_false, List.cons.injEq, true_and]
          rw [ih _ (by omega) (by omega : _ ≤ more), ih _ (by omega) (by omega : _ ≤ rest)]

@[simp] theorem plan_reads_zero (off : Nat) : pool.planReads keyHash off 0 = [] := rfl

variable {off : Nat}

/-- A nonempty range starts with the segment up to the next stripe boundary. -/
theorem plan_reads_cons (hlen : 0 < len) :
    pool.planReads keyHash off len =
      ⟨pool.driveOf keyHash off, pool.fileOffsetOf off, pool.segLen off len⟩ ::
        pool.planReads keyHash (off + pool.segLen off len) (len - pool.segLen off len) := by
  obtain ⟨rest, rfl⟩ : ∃ rest, len = rest + 1 := ⟨len - 1, by omega⟩
  have hpos := pool.seg_len_pos off hlen
  rw [planReads, planLoop]
  rw [if_neg (Nat.succ_ne_zero rest)]
  simp only [List.cons.injEq, true_and]
  exact plan_loop_fuel (by omega)

variable {j : Nat}

/-- Positions of one segment lie in one stripe unit. -/
theorem div_add_of_lt_seg (hj : j < pool.segLen off len) :
    (off + j) / pool.stripeUnit = off / pool.stripeUnit := by
  have hmod := Nat.mod_lt off pool.stripe_unit_pos
  have hdiv := Nat.div_add_mod off pool.stripeUnit
  have hlt : off % pool.stripeUnit + j < pool.stripeUnit := by
    unfold segLen at hj
    omega
  rw [← hdiv, Nat.add_assoc, Nat.mul_add_div pool.stripe_unit_pos, Nat.div_eq_of_lt hlt,
    Nat.mul_add_div pool.stripe_unit_pos, Nat.div_eq_of_lt hmod]

/-- A segment stays on one drive. -/
theorem drive_of_add (hj : j < pool.segLen off len) :
    pool.driveOf keyHash (off + j) = pool.driveOf keyHash off := by
  unfold driveOf
  rw [div_add_of_lt_seg hj]

/-- A segment is contiguous in the drive's file. -/
theorem file_offset_of_add (hj : j < pool.segLen off len) :
    pool.fileOffsetOf (off + j) = pool.fileOffsetOf off + j := by
  unfold fileOffsetOf
  rw [div_add_of_lt_seg hj]
  have hdiv := Nat.div_add_mod off pool.stripeUnit
  have hdiv' := Nat.div_add_mod (off + j) pool.stripeUnit
  rw [div_add_of_lt_seg hj] at hdiv'
  omega

/-- Stripe units of whole blocks keep the place in a block. -/
theorem file_offset_aligned_iff (hunit : kDeviceBlock ∣ pool.stripeUnit) :
    kDeviceBlock ∣ pool.fileOffsetOf off ↔ kDeviceBlock ∣ off := by
  unfold fileOffsetOf
  rw [Nat.dvd_add_right (hunit.mul_left _), Nat.dvd_mod_iff hunit]

/-- The segments of a range name the drives of its bytes. -/
theorem mem_plan_reads_drives {drive : Nat} :
    drive ∈ (pool.planReads keyHash off len).map ReadSegment.drive ↔
      ∃ x, off ≤ x ∧ x < off + len ∧ pool.driveOf keyHash x = drive := by
  induction len using Nat.strongRecOn generalizing off with
  | ind len ih =>
      rcases Nat.eq_zero_or_pos len with rfl | hlen
      · rw [plan_reads_zero]
        refine ⟨nofun, ?_⟩
        rintro ⟨x, hlo, hhi, -⟩
        omega
      · have hpos := pool.seg_len_pos off hlen
        have hle := pool.seg_len_le off len
        rw [plan_reads_cons hlen, List.map_cons, List.mem_cons, ih _ (by omega)]
        constructor
        · rintro (rfl | ⟨x, hlo, hhi, rfl⟩)
          · exact ⟨off, le_rfl, by omega, rfl⟩
          · exact ⟨x, by omega, by omega, rfl⟩
        · rintro ⟨x, hlo, hhi, rfl⟩
          rcases Nat.lt_or_ge x (off + pool.segLen off len) with hin | hout
          · obtain ⟨j, rfl⟩ := Nat.exists_eq_add_of_le hlo
            have hj : j < pool.segLen off len := by omega
            exact Or.inl (drive_of_add hj)
          · exact Or.inr ⟨x, hout, by omega, rfl⟩

/-! ## Placement without wrap-around -/

/-- No sum of the key hash and a chunk index of the extent wraps `2 ^ 64`, nor does the
computation of the number of chunks. -/
def Fits (pool : DrivePool) (keyHash tierBytes : Nat) : Prop :=
  tierBytes + pool.stripeUnit ≤ wrap64 ∧
    keyHash + (tierBytes + pool.stripeUnit - 1) / pool.stripeUnit ≤ wrap64

variable {tierBytes x : Nat}

/-- The chunk of a byte of the extent. -/
theorem chunk_lt (pool : DrivePool) (hx : x < tierBytes) :
    x / pool.stripeUnit < (tierBytes + pool.stripeUnit - 1) / pool.stripeUnit := by
  have hs := pool.stripe_unit_pos
  rw [Nat.div_lt_iff_lt_mul hs]
  have := Nat.div_add_mod (tierBytes + pool.stripeUnit - 1) pool.stripeUnit
  have hmod := Nat.mod_lt (tierBytes + pool.stripeUnit - 1) hs
  rw [Nat.mul_comm] at this
  omega

/-- The drive of a byte of a fitting extent is the plain sum modulo the number of drives. -/
theorem Fits.drive_of_eq (h : pool.Fits keyHash tierBytes) (hx : x < tierBytes) :
    pool.driveOf keyHash x = (keyHash + x / pool.stripeUnit) % pool.numDrives := by
  unfold driveOf
  have := pool.chunk_lt hx
  rw [Nat.mod_eq_of_lt (b := wrap64) (by have := h.2; omega)]

/-- Two offsets with the same file offset are in the same row and at the same position. -/
theorem row_eq_of_file_offset_eq {y : Nat} (h : pool.fileOffsetOf x = pool.fileOffsetOf y) :
    x / pool.stripeUnit / pool.numDrives = y / pool.stripeUnit / pool.numDrives ∧
      x % pool.stripeUnit = y % pool.stripeUnit := by
  have hs := pool.stripe_unit_pos
  unfold fileOffsetOf at h
  have hx := Nat.mod_lt x hs
  have hy := Nat.mod_lt y hs
  constructor
  · have := congrArg (· / pool.stripeUnit) h
    simpa [Nat.mul_add_div hs, Nat.mul_comm _ pool.stripeUnit, Nat.div_eq_of_lt hx,
      Nat.div_eq_of_lt hy] using this
  · have := congrArg (· % pool.stripeUnit) h
    simpa [Nat.add_mod, Nat.mod_eq_of_lt hx, Nat.mod_eq_of_lt hy] using this

/-- Distinct bytes of a fitting extent have distinct places. -/
theorem placement_injective {y : Nat} (h : pool.Fits keyHash tierBytes)
    (hx : x < tierBytes) (hy : y < tierBytes)
    (hdrive : pool.driveOf keyHash x = pool.driveOf keyHash y)
    (hoff : pool.fileOffsetOf x = pool.fileOffsetOf y) : x = y := by
  obtain ⟨hrow, hpos⟩ := row_eq_of_file_offset_eq hoff
  rw [h.drive_of_eq hx, h.drive_of_eq hy] at hdrive
  have hchunk : x / pool.stripeUnit = y / pool.stripeUnit := by
    have hmod : x / pool.stripeUnit % pool.numDrives = y / pool.stripeUnit % pool.numDrives :=
      Nat.ModEq.add_left_cancel' keyHash hdrive
    rw [← Nat.div_add_mod (x / pool.stripeUnit) pool.numDrives, hrow, hmod, Nat.div_add_mod]
  rw [← Nat.div_add_mod x pool.stripeUnit, hchunk, hpos, Nat.div_add_mod]

/-- Distinct offsets below `limit` have distinct places. -/
def Separates (pool : DrivePool) (keyHash limit : Nat) : Prop :=
  ∀ x y, x < limit → y < limit → pool.driveOf keyHash x = pool.driveOf keyHash y →
    pool.fileOffsetOf x = pool.fileOffsetOf y → x = y

theorem Fits.separates (h : pool.Fits keyHash tierBytes) :
    pool.Separates keyHash tierBytes :=
  fun _ _ hx hy hdrive hoff => placement_injective h hx hy hdrive hoff

/-! ## The file set -/

theorem Fits.chunks_eq (h : pool.Fits keyHash tierBytes) :
    pool.chunks tierBytes = (tierBytes + pool.stripeUnit - 1) / pool.stripeUnit := by
  have hs := pool.stripe_unit_pos
  unfold chunks
  rw [Nat.mod_eq_of_lt (by have := h.1; omega)]

/-- The drive visited for chunk `c` by the open, publish and unlink loops. -/
theorem mem_stripe_drives {drive : Nat} :
    drive ∈ pool.stripeDrives keyHash tierBytes ↔
      ∃ c < pool.filesUsed tierBytes, pool.driveOf keyHash (c * pool.stripeUnit) = drive := by
  simp [stripeDrives]

theorem files_used_le (pool : DrivePool) (tierBytes : Nat) :
    pool.filesUsed tierBytes ≤ pool.numDrives := by
  unfold filesUsed
  split_ifs <;> omega

/-- The loops visit the drive of every byte of a fitting extent. -/
theorem drive_of_mem_stripe_drives (h : pool.Fits keyHash tierBytes)
    (hx : x < tierBytes) : pool.driveOf keyHash x ∈ pool.stripeDrives keyHash tierBytes := by
  have hs := pool.stripe_unit_pos
  have hn := pool.num_drives_pos
  have hc := pool.chunk_lt hx
  have hsum := h.2
  rw [mem_stripe_drives, filesUsed, if_neg (by omega), h.chunks_eq]
  split
  · refine ⟨x / pool.stripeUnit, hc, ?_⟩
    unfold driveOf
    rw [Nat.mul_div_cancel _ hs]
  · -- more chunks than drives: the chunk's residue is visited in the first row
    refine ⟨x / pool.stripeUnit % pool.numDrives, Nat.mod_lt _ hn, ?_⟩
    have hle := Nat.mod_le (x / pool.stripeUnit) pool.numDrives
    unfold driveOf
    rw [Nat.mul_div_cancel _ hs, Nat.mod_eq_of_lt (by omega : _ < wrap64),
      Nat.mod_eq_of_lt (by omega : _ < wrap64), Nat.add_mod, Nat.mod_mod, ← Nat.add_mod]

/-- The loops visit each drive of a fitting extent once. -/
theorem stripe_drives_nodup (h : pool.Fits keyHash tierBytes) :
    (pool.stripeDrives keyHash tierBytes).Nodup := by
  have hs := pool.stripe_unit_pos
  refine List.Nodup.map_on ?_ List.nodup_range
  intro a ha b hb heq
  rw [List.mem_range] at ha hb
  have hused := pool.files_used_le tierBytes
  have hchunks : pool.filesUsed tierBytes ≤
      (tierBytes + pool.stripeUnit - 1) / pool.stripeUnit := by
    unfold filesUsed
    rw [h.chunks_eq]
    split
    · exact Nat.zero_le _
    · split <;> omega
  have hsum := h.2
  unfold driveOf at heq
  rw [Nat.mul_div_cancel _ hs, Nat.mul_div_cancel _ hs, Nat.mod_eq_of_lt (by omega : _ < wrap64),
    Nat.mod_eq_of_lt (by omega : _ < wrap64)] at heq
  have hmod : a % pool.numDrives = b % pool.numDrives := Nat.ModEq.add_left_cancel' keyHash heq
  rwa [Nat.mod_eq_of_lt (by omega), Nat.mod_eq_of_lt (by omega)] at hmod

end DrivePool

end GoblinStore
