import GoblinStore.Storage.Reads

/-!
# Striping over all 64-bit offsets

The drive of an offset is the 64-bit sum of the key hash and the chunk index, reduced modulo the
number of drives. The sum wraps from chunk `2 ^ 64 - key_hash` on. Chunks of one row that lie on
the same side of the wrap have different drives; two chunks on different sides share a drive when
their distance is `2 ^ 64` modulo the number of drives. `clashChunk` is the first chunk this happens
to, so the offsets below a limit are separated exactly under `AvoidsClash`
(`separates_iff_avoids_clash`), and separated offsets can be written and read back.
-/

namespace GoblinStore

open GoblinStore.Lib

namespace DrivePool

/-- The first chunk that can share its place with an earlier one: the first wrapped chunk at
distance `2 ^ 64 mod N` from an unwrapped chunk of its row. -/
def clashChunk (pool : DrivePool) (keyHash : Nat) : Nat :=
  (wrap64 - keyHash) - (wrap64 - keyHash) % pool.numDrives +
    max ((wrap64 - keyHash) % pool.numDrives) (wrap64 % pool.numDrives)

/-- The number of drives divides `2 ^ 64`, or the sum wraps between two rows, or the first chunk in
question is beyond the limit. -/
def AvoidsClash (pool : DrivePool) (keyHash limit : Nat) : Prop :=
  wrap64 % pool.numDrives = 0 ∨ (wrap64 - keyHash) % pool.numDrives = 0 ∨
    limit ≤ pool.clashChunk keyHash * pool.stripeUnit

instance (pool : DrivePool) (keyHash limit : Nat) : Decidable (pool.AvoidsClash keyHash limit) :=
  inferInstanceAs (Decidable (_ ∨ _ ∨ _))

variable {pool : DrivePool} {keyHash limit : Nat}

/-- The place of the first byte of a chunk. -/
theorem place_of_chunk (pool : DrivePool) (keyHash c : Nat) :
    pool.driveOf keyHash (c * pool.stripeUnit) = (keyHash + c) % wrap64 % pool.numDrives ∧
      pool.fileOffsetOf (c * pool.stripeUnit) = c / pool.numDrives * pool.stripeUnit := by
  have hs := pool.stripe_unit_pos
  unfold driveOf fileOffsetOf
  rw [Nat.mul_div_cancel _ hs, Nat.mul_mod_left, Nat.add_zero]
  exact ⟨rfl, rfl⟩

/-- The chunk at `clashChunk` and the one `2 ^ 64 mod N` before it have the same place. -/
theorem clash_chunk_clashes (hkey : keyHash < wrap64) (hdrives : wrap64 % pool.numDrives ≠ 0)
    (hrow : (wrap64 - keyHash) % pool.numDrives ≠ 0) :
    wrap64 % pool.numDrives ≤ pool.clashChunk keyHash ∧
      pool.driveOf keyHash ((pool.clashChunk keyHash - wrap64 % pool.numDrives) * pool.stripeUnit) =
        pool.driveOf keyHash (pool.clashChunk keyHash * pool.stripeUnit) ∧
      pool.fileOffsetOf ((pool.clashChunk keyHash - wrap64 % pool.numDrives) * pool.stripeUnit) =
        pool.fileOffsetOf (pool.clashChunk keyHash * pool.stripeUnit) := by
  have hn := pool.num_drives_pos
  rw [(pool.place_of_chunk keyHash _).1, (pool.place_of_chunk keyHash _).1,
    (pool.place_of_chunk keyHash _).2, (pool.place_of_chunk keyHash _).2]
  unfold clashChunk
  set n := pool.numDrives
  set c := wrap64 - keyHash with hc
  have hcdiv := Nat.div_add_mod c n
  have hwdiv := Nat.div_add_mod wrap64 n
  have hct := Nat.mod_lt c hn
  have hwr := Nat.mod_lt wrap64 hn
  set t := c % n
  set r := wrap64 % n
  have hstart : c - t = n * (c / n) := by omega
  rw [hstart]
  have hmax : max t r < n := by omega
  have hge : r ≤ max t r := le_max_right t r
  refine ⟨by omega, ?_, ?_⟩
  · -- below the wrap on the left, beyond it on the right
    have hleft : (keyHash + (n * (c / n) + max t r - r)) % wrap64 =
        wrap64 - t + (max t r - r) := by
      rw [Nat.mod_eq_of_lt (by omega)]
      omega
    have hright : (keyHash + (n * (c / n) + max t r)) % wrap64 = max t r - t := by
      rw [show keyHash + (n * (c / n) + max t r) = max t r - t + wrap64 by omega,
        Nat.add_mod_right, Nat.mod_eq_of_lt (by omega)]
    rw [hleft, hright, show wrap64 - t + (max t r - r) = n * (wrap64 / n) + (max t r - t) by omega,
      Nat.mul_add_mod]
  · rw [show n * (c / n) + max t r - r = n * (c / n) + (max t r - r) by omega, Nat.mul_add_div hn,
      Nat.mul_add_div hn, Nat.div_eq_of_lt hmax, Nat.div_eq_of_lt (by omega : max t r - r < n)]

/-- Chunks of one row on the same side of the wrap have different drives. -/
theorem chunk_eq_of_drive_eq {n a b : Nat} (hrow : a / n = b / n)
    (hmod : a % n = b % n) : a = b := by
  rw [← Nat.div_add_mod a n, hrow, hmod, Nat.div_add_mod]

/-- Two chunks of one row with the same drive: the later one is beyond `clashChunk`. -/
theorem clash_chunk_le {a b : Nat} (hkey : keyHash < wrap64) (hab : a < b) (hb : b < wrap64)
    (hrow : a / pool.numDrives = b / pool.numDrives)
    (hdrive : (keyHash + a) % wrap64 % pool.numDrives = (keyHash + b) % wrap64 % pool.numDrives) :
    wrap64 % pool.numDrives ≠ 0 ∧ (wrap64 - keyHash) % pool.numDrives ≠ 0 ∧
      pool.clashChunk keyHash ≤ b := by
  have hn := pool.num_drives_pos
  unfold clashChunk
  set n := pool.numDrives
  have hne : a % n ≠ b % n := fun hmod => absurd (chunk_eq_of_drive_eq hrow hmod) (Nat.ne_of_lt hab)
  have hadiv := Nat.div_add_mod a n
  have hbdiv := Nat.div_add_mod b n
  have hbmod := Nat.mod_lt b hn
  rcases Nat.lt_or_ge (keyHash + b) wrap64 with hbelow | hwrapped
  · rw [Nat.mod_eq_of_lt (by omega : keyHash + a < wrap64), Nat.mod_eq_of_lt hbelow] at hdrive
    exact absurd (Nat.ModEq.add_left_cancel' keyHash hdrive) hne
  · rcases Nat.lt_or_ge (keyHash + a) wrap64 with hasplit | hawrapped
    · -- the wrap lies between the two chunks, hence in their row
      obtain ⟨c, hc⟩ : ∃ c, wrap64 - keyHash = c := ⟨_, rfl⟩
      have hcrow : c / n = a / n := by
        refine Nat.le_antisymm ?_ (Nat.div_le_div_right (by omega))
        rw [hrow]
        exact Nat.div_le_div_right (by omega)
      have hcdiv := Nat.div_add_mod c n
      rw [hcrow] at hcdiv
      rw [← hrow] at hbdiv
      -- their distance is `2 ^ 64` modulo the number of drives
      have hdist : a % n + wrap64 % n = b % n := by
        have hsum : (a + wrap64) % n = b % n := by
          refine Nat.ModEq.add_left_cancel' keyHash ?_
          show (keyHash + (a + wrap64)) % n = (keyHash + b) % n
          rw [Nat.mod_eq_of_lt hasplit, show keyHash + b = (keyHash + b - wrap64) + wrap64 by omega,
            Nat.add_mod_right, Nat.mod_eq_of_lt
            (by omega : keyHash + b - wrap64 < wrap64)] at hdrive
          rw [show keyHash + (a + wrap64) = keyHash + a + wrap64 by omega,
            show keyHash + b = (keyHash + b - wrap64) + wrap64 by omega]
          exact Nat.ModEq.add_right wrap64 hdrive
        have hwmod := Nat.mod_lt wrap64 hn
        rw [Nat.add_mod] at hsum
        rcases Nat.lt_or_ge (a % n + wrap64 % n) n with hlt | hge
        · rwa [Nat.mod_eq_of_lt hlt] at hsum
        · rw [Nat.mod_eq_sub_mod hge, Nat.mod_eq_of_lt (by omega)] at hsum
          omega
      rw [hc]
      refine ⟨by omega, by omega, ?_⟩
      omega
    · rw [show keyHash + a = (keyHash + a - wrap64) + wrap64 by omega,
        show keyHash + b = (keyHash + b - wrap64) + wrap64 by omega, Nat.add_mod_right,
        Nat.add_mod_right, Nat.mod_eq_of_lt (by omega : keyHash + a - wrap64 < wrap64),
        Nat.mod_eq_of_lt (by omega : keyHash + b - wrap64 < wrap64)] at hdrive
      have hmod : (keyHash + a) % n = (keyHash + b) % n := by
        rw [show keyHash + a = (keyHash + a - wrap64) + wrap64 by omega,
          show keyHash + b = (keyHash + b - wrap64) + wrap64 by omega]
        exact Nat.ModEq.add_right wrap64 hdrive
      exact absurd (Nat.ModEq.add_left_cancel' keyHash hmod) hne

/-- Offsets below a limit have distinct places exactly if no clash lies below it. -/
theorem separates_iff_avoids_clash (hkey : keyHash < wrap64) (hlimit : limit ≤ wrap64) :
    pool.Separates keyHash limit ↔ pool.AvoidsClash keyHash limit := by
  have hs := pool.stripe_unit_pos
  constructor
  · intro hsep
    by_contra hclash
    simp only [AvoidsClash, not_or, Nat.not_le] at hclash
    obtain ⟨hdrives, hrow, hbelow⟩ := hclash
    obtain ⟨hle, hdrive, hoff⟩ := clash_chunk_clashes hkey hdrives hrow
    have hearlier : (pool.clashChunk keyHash - wrap64 % pool.numDrives) * pool.stripeUnit <
        pool.clashChunk keyHash * pool.stripeUnit :=
      Nat.mul_lt_mul_of_pos_right (by omega) hs
    have := hsep _ _ (hearlier.trans hbelow) hbelow hdrive hoff
    omega
  · -- of two offsets in one place, the one in the later chunk is beyond the clash
    have hbeyond : ∀ x y, y < limit → x / pool.stripeUnit < y / pool.stripeUnit →
        pool.driveOf keyHash x = pool.driveOf keyHash y →
        pool.fileOffsetOf x = pool.fileOffsetOf y → ¬ pool.AvoidsClash keyHash limit := by
      intro x y hy hlt hdrive hoff havoid
      have hchunk : y / pool.stripeUnit < wrap64 :=
        Nat.lt_of_le_of_lt (Nat.div_le_self _ _) (by omega)
      obtain ⟨hdrives, hrow, hle⟩ :=
        clash_chunk_le hkey hlt hchunk (row_eq_of_file_offset_eq hoff).1 hdrive
      have hstart : y / pool.stripeUnit * pool.stripeUnit ≤ y := Nat.div_mul_le_self y _
      have hmul := Nat.mul_le_mul_right pool.stripeUnit hle
      rcases havoid with h | h | h
      · exact hdrives h
      · exact hrow h
      · omega
    intro havoid x y hx hy hdrive hoff
    rcases Nat.lt_trichotomy (x / pool.stripeUnit) (y / pool.stripeUnit) with hlt | heq | hgt
    · exact absurd havoid (hbeyond x y hy hlt hdrive hoff)
    · exact chunk_eq_of_drive_eq heq (row_eq_of_file_offset_eq hoff).2
    · exact absurd havoid (hbeyond y x hx hgt hdrive.symm hoff.symm)

end DrivePool

/-! ## Writing a range and reading it back -/

variable {pool : DrivePool} {keyHash limit : Nat} {fs : FileSystem} {fds : ObjectFiles}
  {src content : Nat → UInt8}

/-- A write loop in which no call fails puts the next `n` bytes in place. -/
theorem pwrite_loop_placed (hsep : pool.Separates keyHash limit) (hdistinct : fds.Distinct)
    (hopen : ∀ drive < pool.numDrives, fds drive ≠ none) {lo o n dst : Nat} (hend : o + n ≤ limit)
    (hsrc : ∀ j < n, src (dst + j) = content (o + j))
    (h : Placed pool keyHash lo o content (fs.bodies fds)) :
    (pwriteLoop fds src none (pool.planReads keyHash o n) dst fs).1 = true ∧
      Placed pool keyHash lo (o + n) content
        ((pwriteLoop fds src none (pool.planReads keyHash o n) dst fs).2.bodies fds) := by
  induction n using Nat.strongRecOn generalizing o dst fs with
  | ind n ih =>
      rcases Nat.eq_zero_or_pos n with rfl | hn
      · exact ⟨rfl, h⟩
      · have hpos := pool.seg_len_pos o hn
        have hle := pool.seg_len_le o n
        obtain ⟨ino, hino⟩ := Option.ne_none_iff_exists'.1 (hopen _ (pool.drive_of_lt keyHash o))
        rw [DrivePool.plan_reads_cons hn]
        rcases pwrite_loop_cons ⟨pool.driveOf keyHash o, pool.fileOffsetOf o, pool.segLen o n⟩ hino
          with hfail | hstep
        · exact absurd rfl hfail.2
        · rw [hstep]
          obtain ⟨hfile, hother⟩ := bodies_pwrite hdistinct hino
          have hnext := h.write_segment hn (fun j hj => hsrc j hj) hfile hother hsep hend
          have hsrc' : ∀ j < n - pool.segLen o n,
              src (dst + pool.segLen o n + j) = content (o + pool.segLen o n + j) := by
            intro j hj
            rw [Nat.add_assoc dst, Nat.add_assoc o]
            exact hsrc _ (by omega)
          have hrest := ih (n - pool.segLen o n) (by omega) (by omega) hsrc' hnext
          rwa [show o + pool.segLen o n + (n - pool.segLen o n) = o + n by omega] at hrest

/-- Any data written at any offset below the limit, to any open files of the drives, is read
back. -/
def DrivePool.RoundTrips (pool : DrivePool) (keyHash limit : Nat) : Prop :=
  ∀ (fs : FileSystem) (fds : ObjectFiles), fds.Distinct →
    (∀ drive < pool.numDrives, fds drive ≠ none) →
    ∀ (off n : Nat) (src out : Nat → UInt8), off + n ≤ limit →
      (stripedPwrite fs none pool keyHash fds off n src).1 = true ∧
        ∃ got, stripedRead (stripedPwrite fs none pool keyHash fds off n src).2
            (addDriveSegs pool keyHash fds off n 0) out = some got ∧ ∀ j < n, got j = src j

theorem DrivePool.Separates.round_trips (hsep : pool.Separates keyHash limit) :
    pool.RoundTrips keyHash limit := by
  intro fs fds hdistinct hopen off n src out hend
  have hempty : Placed pool keyHash off off (fun x => src (x - off)) (fs.bodies fds) :=
    ⟨fun x hlo hhi => absurd hhi (Nat.not_lt.2 hlo), fun x hlo hhi => absurd hhi (Nat.not_lt.2 hlo)⟩
  obtain ⟨hok, hplaced⟩ := @pwrite_loop_placed pool keyHash limit fs fds src
    (fun x => src (x - off))
    hsep hdistinct hopen off off n 0 hend (fun j _ => by
      show src (0 + j) = src (off + j - off)
      rw [Nat.zero_add, Nat.add_sub_cancel_left]) hempty
  refine ⟨hok, _, striped_read_eq (fun seg hseg => ?_) out, fun j hj => ?_⟩
  · obtain ⟨x, n', -, -, -, rfl⟩ := mem_add_drive_segs hseg
    exact hopen _ (pool.drive_of_lt keyHash x)
  · have hawaiting : Awaiting src (fun p => p < n) out
        ((addDriveSegs pool keyHash fds off n 0).map
          (Seg.transfer (stripedPwrite fs none pool keyHash fds off n src).2)) := by
      refine hplaced.awaiting le_rfl (fun p hp _ _ => ?_) fun p hp => Or.inr ⟨Nat.zero_le p, ?_⟩
      · show off + (p - 0) < off + n ∧ src (off + (p - 0) - off) = src p
        rw [Nat.sub_zero, Nat.add_sub_cancel_left]
        exact ⟨Nat.add_lt_add_left hp off, rfl⟩
      · show p < 0 + n
        rwa [Nat.zero_add]
    exact hawaiting.gather (List.Perm.refl _) hj

/-- For every pool and key hash, striping places all 64-bit offsets apart, on existing drives, and
reads back what it wrote, exactly if no clash lies below `2 ^ 64`. -/
theorem striping_never_overlaps_iff (pool : DrivePool) (keyHash : Nat) (hkey : keyHash < wrap64) :
    ((∀ x y, x < wrap64 → y < wrap64 → x ≠ y →
        (pool.driveOf keyHash x, pool.fileOffsetOf x) ≠
          (pool.driveOf keyHash y, pool.fileOffsetOf y)) ∧
      (∀ x, pool.driveOf keyHash x < pool.numDrives) ∧ pool.RoundTrips keyHash wrap64) ↔
    pool.AvoidsClash keyHash wrap64 := by
  rw [← DrivePool.separates_iff_avoids_clash hkey le_rfl]
  constructor
  · rintro ⟨hapart, -, -⟩ x y hx hy hdrive hoff
    by_contra hne
    exact hapart x y hx hy hne (Prod.ext hdrive hoff)
  · intro hsep
    refine ⟨fun x y hx hy hne heq => ?_, pool.drive_of_lt keyHash, hsep.round_trips⟩
    obtain ⟨hdrive, hoff⟩ := Prod.ext_iff.1 heq
    exact hne (hsep x y hx hy hdrive hoff)

/-- Four drives, with the largest key hash. -/
theorem striping_never_overlaps_iff_four :
    (⟨4, 4096, by decide, by decide⟩ : DrivePool).RoundTrips (wrap64 - 1) wrap64 :=
  ((striping_never_overlaps_iff ⟨4, 4096, by decide, by decide⟩ (wrap64 - 1) (by decide)).2
    (by decide)).2.2

/-- Three drives, with units of 4 KiB. -/
def threeDrives : DrivePool := ⟨3, 4096, by decide, device_block_pos⟩

/-- The data of two units: ones, then twos. -/
def onesThenTwos (i : Nat) : UInt8 := if i < 4096 then 1 else 2

/-- A digest whose first bytes are `0xff`: the second unit of the object overwrites the first. -/
theorem three_drives_clash :
    (threeDrives.driveOf (Digest.replicate 255).bucket 0, threeDrives.fileOffsetOf 0) =
        (threeDrives.driveOf (Digest.replicate 255).bucket 4096, threeDrives.fileOffsetOf 4096) ∧
      (stripedPwrite FileSystem.empty none threeDrives (Digest.replicate 255).bucket some 0 8192
        onesThenTwos).1 = true ∧
      (stripedRead (stripedPwrite FileSystem.empty none threeDrives (Digest.replicate 255).bucket
          some 0 8192 onesThenTwos).2
        (addDriveSegs threeDrives (Digest.replicate 255).bucket some 0 8192 0)
        fun _ => 0).map (· 0) = some 2 ∧
      onesThenTwos 0 = 1 := by
  decide +kernel

end GoblinStore
