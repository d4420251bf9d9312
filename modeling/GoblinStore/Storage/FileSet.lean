import GoblinStore.Storage.ScratchCleanup
import GoblinStore.Storage.Striping
import Mathlib.Data.Finset.Card

/-!
# The files of an object and its stripes

`open_object`, `publish` and `unlink_object` each run over the first chunks of an extent to find its
drives, and `plan_reads` finds them again for every range that is read or written. `Visits` says
which drives the three loops take up, whatever the file system; `CoversStripes` that these are the
drives of the stripes. The number of chunks is rounded up in 64 bits and the drive of a chunk is a
64-bit sum, and either can wrap; `covers_stripes_iff` says when it matters.
-/

namespace GoblinStore

open GoblinStore.Lib

variable {pool : DrivePool} {digest : Digest} {tierBytes : Nat}

/-- The three loops over the files of an object take up exactly these drives. -/
structure Visits (pool : DrivePool) (digest : Digest) (tierBytes : Nat)
    (drives : Finset Nat) : Prop where
  opened : ∀ {fs fs' faults tier create suffix fds},
    Pool.openObject fs faults tier pool digest tierBytes create suffix = (some fds, fs') →
      ∀ drive, fds drive ≠ none ↔ drive ∈ drives
  published : ∀ {fs fs' faults tier suffix},
    Pool.publish fs faults tier pool digest tierBytes suffix = (true, fs') →
      (∀ drive ∈ drives, fs.dir (scratchPath tier digest suffix drive) ≠ none ∧
        fs'.dir (livePath tier digest drive) = fs.dir (scratchPath tier digest suffix drive)) ∧
      ∀ drive ∉ drives, fs'.dir (livePath tier digest drive) = fs.dir (livePath tier digest drive) ∧
        fs'.dir (scratchPath tier digest suffix drive) =
        fs.dir (scratchPath tier digest suffix drive)
  unlinked : ∀ {fs tier suffix drive},
    (Pool.unlinkObject fs Faults.never tier pool digest tierBytes suffix).dir
    ⟨tier, drive, ⟨digest, suffix⟩⟩ =
      if drive ∈ drives then none else fs.dir ⟨tier, drive, ⟨digest, suffix⟩⟩

/-- The ranges, given by start and length, cover `[lo, hi)` one after the other. -/
def Tiles : List (Nat × Nat) → Nat → Nat → Prop
  | [], lo, hi => lo = hi
  | (off, len) :: rest, lo, hi => off = lo ∧ Tiles rest (lo + len) hi

/-- The drives that the plans of the ranges name. -/
def DrivePool.planned (pool : DrivePool) (keyHash : Nat) (ranges : List (Nat × Nat)) : List Nat :=
  ranges.flatMap fun range => (pool.planReads keyHash range.1 range.2).map ReadSegment.drive

/-- Every segment of every range of the extent has a descriptor, whenever the files could be
opened. -/
def NeverMissing (pool : DrivePool) (digest : Digest) (tierBytes : Nat) : Prop :=
  ∀ {fs fs' faults tier create suffix fds},
    Pool.openObject fs faults tier pool digest tierBytes create suffix = (some fds, fs') →
      ∀ off len, off + len ≤ tierBytes →
      ∀ seg ∈ pool.planReads digest.bucket off len, fds seg.drive ≠ none

/-- The files of an object are those of its stripes: there are `min(N, ceil(tierBytes / S))` of
them, and they are on the drives that any tiling of the extent is planned on. -/
def CoversStripes (pool : DrivePool) (digest : Digest) (tierBytes : Nat) : Prop :=
  ∃ drives : Finset Nat, Visits pool digest tierBytes drives ∧
    drives.card = pool.filesUsed tierBytes ∧
    pool.filesUsed tierBytes = min pool.numDrives
    ((tierBytes + pool.stripeUnit - 1) / pool.stripeUnit) ∧
    (∀ ranges, Tiles ranges 0 tierBytes → (pool.planned digest.bucket ranges).toFinset = drives) ∧
    NeverMissing pool digest tierBytes

/-! ## The drives of the loops -/

theorem visits_stripe_drives (pool : DrivePool) (digest : Digest) (tierBytes : Nat) :
    Visits pool digest tierBytes (pool.stripeDrives digest.bucket tierBytes).toFinset where
  opened h drive := by
    rw [List.mem_toFinset]
    exact (Pool.open_object_opened h).ne_none_iff drive
  published {fs fs' faults tier suffix} h := by
    refine ⟨fun drive hmem => Pool.publish_loop_ok h drive (List.mem_toFinset.1 hmem),
      fun drive hmem => ?_⟩
    rw [List.mem_toFinset] at hmem
    have hfs : fs' = (Pool.publishLoop faults tier digest suffix
        (pool.stripeDrives digest.bucket tierBytes) fs).2 :=
      (congrArg Prod.snd h).symm
    rw [hfs]
    constructor
    · refine Pool.publish_loop_other (fun other hother heq => ?_) (by simp [livePath, scratchPath])
      simp only [livePath, Path.mk.injEq] at heq
      exact hmem (heq.2.1 ▸ hother)
    · refine Pool.publish_loop_other (by simp [livePath, scratchPath]) fun other hother heq => ?_
      simp only [scratchPath, Path.mk.injEq] at heq
      exact hmem (heq.2.1 ▸ hother)
  unlinked {fs tier suffix drive} := by
    unfold Pool.unlinkObject
    rw [Pool.unlink_loop_dir fun _ => rfl]
    simp only [List.mem_toFinset, true_and]

/-- The files that can be opened determine the drives. -/
theorem Visits.eq_stripe_drives {drives : Finset Nat} (h : Visits pool digest tierBytes drives) :
    drives = (pool.stripeDrives digest.bucket tierBytes).toFinset := by
  have hopen : (Pool.openObject FileSystem.empty Faults.never .ssd pool digest tierBytes true
      none).1 ≠ none :=
    Pool.open_loop_ok fun _ _ => rfl
  obtain ⟨fds, hfds⟩ := Option.ne_none_iff_exists'.1 hopen
  have hobject : Pool.openObject FileSystem.empty Faults.never .ssd pool digest tierBytes true
      none = (some fds, _) :=
    Prod.ext hfds rfl
  ext drive
  rw [← h.opened hobject drive, (visits_stripe_drives pool digest tierBytes).opened hobject drive]

/-! ## The drives of the plans -/

theorem mem_planned {keyHash : Nat} {ranges : List (Nat × Nat)} {lo hi drive : Nat}
    (h : Tiles ranges lo hi) :
    drive ∈ pool.planned keyHash ranges ↔
      ∃ x, lo ≤ x ∧ x < hi ∧ pool.driveOf keyHash x = drive := by
  induction ranges generalizing lo with
  | nil =>
      obtain rfl : lo = hi := h
      refine ⟨nofun, ?_⟩
      rintro ⟨x, hlo, hhi, -⟩
      omega
  | cons range rest ih =>
      obtain ⟨off, len⟩ := range
      obtain ⟨rfl, hrest⟩ := h
      have hend : off + len ≤ hi := by
        clear ih
        induction rest generalizing off len with
        | nil => exact hrest.le
        | cons range rest ih =>
            obtain ⟨off', len'⟩ := range
            obtain ⟨rfl, hrest⟩ := hrest
            have := ih (off + len) len' hrest
            omega
      unfold DrivePool.planned at ih ⊢
      rw [List.flatMap_cons, List.mem_append, ih hrest, DrivePool.mem_plan_reads_drives]
      constructor
      · rintro (⟨x, hlo, hhi, hdrive⟩ | ⟨x, hlo, hhi, hdrive⟩)
        · exact ⟨x, hlo, by omega, hdrive⟩
        · exact ⟨x, by omega, hhi, hdrive⟩
      · rintro ⟨x, hlo, hhi, hdrive⟩
        rcases Nat.lt_or_ge x (off + len) with hin | hout
        · exact Or.inl ⟨x, hlo, hin, hdrive⟩
        · exact Or.inr ⟨x, hout, hhi, hdrive⟩

/-- Segments of a planned range have descriptors if the planned drives are the visited ones. -/
theorem Visits.never_missing {drives : Finset Nat} (h : Visits pool digest tierBytes drives)
    (hplanned : ∀ ranges, Tiles ranges 0 tierBytes →
      (pool.planned digest.bucket ranges).toFinset = drives) :
    NeverMissing pool digest tierBytes := by
  intro fs fs' faults tier create suffix fds hopen off len hend seg hseg
  have htiles : Tiles [(0, off), (off, len), (off + len, tierBytes - (off + len))] 0 tierBytes :=
    ⟨rfl, by omega, by omega, show _ = _ by omega⟩
  rw [h.opened hopen, ← hplanned _ htiles, List.mem_toFinset, mem_planned htiles]
  obtain ⟨x, hlo, hhi, hdrive⟩ := DrivePool.mem_plan_reads_drives.1 (List.mem_map_of_mem hseg)
  exact ⟨x, Nat.zero_le x, by omega, hdrive⟩

/-! ## Rounding up and wrapping -/

namespace DrivePool

variable {keyHash : Nat}

/-- The chunks are counted right unless the rounding wraps, and then there are none. -/
theorem files_used_eq_iff (hunit : pool.stripeUnit < wrap64) (hbytes : tierBytes < wrap64)
    (hpos : 0 < tierBytes) :
    pool.filesUsed tierBytes = min pool.numDrives
      ((tierBytes + pool.stripeUnit - 1) / pool.stripeUnit) ↔
      tierBytes + pool.stripeUnit ≤ wrap64 := by
  have hs := pool.stripe_unit_pos
  have hn := pool.num_drives_pos
  rw [filesUsed, if_neg (by omega)]
  constructor
  · intro h
    by_contra hwrap
    have hzero : pool.chunks tierBytes = 0 := by
      rw [chunks, Nat.mod_eq_sub_mod (by omega), Nat.mod_eq_of_lt (by omega),
        Nat.div_eq_of_lt (by omega)]
    have hceil : 0 < (tierBytes + pool.stripeUnit - 1) / pool.stripeUnit :=
      Nat.div_pos (by omega) hs
    rw [hzero, if_pos hn] at h
    omega
  · intro h
    rw [chunks, Nat.mod_eq_of_lt (by omega)]
    split_ifs <;> omega

/-- The loop finds every chunk on a drive of its own exactly if its chunks are separated. -/
theorem stripe_drives_nodup_iff :
    (pool.stripeDrives keyHash tierBytes).Nodup ↔
      pool.Separates keyHash (pool.filesUsed tierBytes * pool.stripeUnit) := by
  have hs := pool.stripe_unit_pos
  have hused := pool.files_used_le tierBytes
  have hdrive : ∀ x, pool.driveOf keyHash (x / pool.stripeUnit * pool.stripeUnit) =
      pool.driveOf keyHash x := by
    intro x
    unfold driveOf
    rw [Nat.mul_div_cancel _ hs]
  constructor
  · intro hnodup x y hx hy hxy hoff
    have hchunk : ∀ z, z < pool.filesUsed tierBytes * pool.stripeUnit →
        z / pool.stripeUnit < pool.filesUsed tierBytes :=
          fun z hz => (Nat.div_lt_iff_lt_mul hs).2 hz
    have hinj := List.inj_on_of_nodup_map hnodup (List.mem_range.2 (hchunk x hx))
      (List.mem_range.2 (hchunk y hy))
      (by rw [hdrive, hdrive, hxy])
    exact chunk_eq_of_drive_eq hinj (row_eq_of_file_offset_eq hoff).2
  · intro hsep
    refine List.Nodup.map_on (fun a ha b hb heq => ?_) List.nodup_range
    rw [List.mem_range] at ha hb
    have hoff : pool.fileOffsetOf (a * pool.stripeUnit) =
        pool.fileOffsetOf (b * pool.stripeUnit) := by
      rw [(pool.place_of_chunk keyHash a).2, (pool.place_of_chunk keyHash b).2,
        Nat.div_eq_of_lt (by omega), Nat.div_eq_of_lt (by omega)]
    have hab := hsep _ _ (Nat.mul_lt_mul_of_pos_right ha hs)
      (Nat.mul_lt_mul_of_pos_right hb hs) heq hoff
    exact Nat.eq_of_mul_eq_mul_right hs hab

/-- Distinct drives that are counted right are the drives of all the bytes. -/
theorem mem_stripe_drives_iff (hpos : 0 < tierBytes) (hcount : tierBytes + pool.stripeUnit ≤ wrap64)
    (hnodup : (pool.stripeDrives keyHash tierBytes).Nodup) {drive : Nat} :
    drive ∈ pool.stripeDrives keyHash tierBytes ↔
      ∃ x < tierBytes, pool.driveOf keyHash x = drive := by
  have hs := pool.stripe_unit_pos
  have hchunks : pool.chunks tierBytes = (tierBytes + pool.stripeUnit - 1) / pool.stripeUnit := by
    rw [chunks, Nat.mod_eq_of_lt (by omega)]
  have hused : pool.filesUsed tierBytes ≤ pool.chunks tierBytes := by
    unfold filesUsed
    split_ifs <;> omega
  constructor
  · intro hmem
    obtain ⟨c, hc, hdrive⟩ := mem_stripe_drives.1 hmem
    refine ⟨c * pool.stripeUnit, ?_, hdrive⟩
    have hle : (c + 1) * pool.stripeUnit ≤ tierBytes + pool.stripeUnit - 1 :=
      (Nat.mul_le_mul_right _ (by omega : c + 1 ≤ _)).trans (Nat.div_mul_le_self _ pool.stripeUnit)
    rw [Nat.succ_mul] at hle
    omega
  · rintro ⟨x, hx, rfl⟩
    by_cases hfew : pool.chunks tierBytes < pool.numDrives
    · refine mem_stripe_drives.2 ⟨x / pool.stripeUnit, ?_, ?_⟩
      · rw [filesUsed, if_neg (by omega), if_pos hfew, hchunks]
        exact pool.chunk_lt hx
      · unfold driveOf
        rw [Nat.mul_div_cancel _ hs]
    · -- as many different drives as there are
      have hlength : (pool.stripeDrives keyHash tierBytes).length = pool.numDrives := by
        rw [stripeDrives, List.length_map, List.length_range, filesUsed,
          if_neg (by omega), if_neg hfew]
      have hsubset : (pool.stripeDrives keyHash tierBytes).toFinset ⊆ Finset.range
          pool.numDrives := by
        intro drive hmem
        obtain ⟨c, -, rfl⟩ := mem_stripe_drives.1 (List.mem_toFinset.1 hmem)
        exact Finset.mem_range.2 (pool.drive_of_lt keyHash _)
      have hall := Finset.eq_of_subset_of_card_le hsubset
        (by rw [Finset.card_range, List.toFinset_card_of_nodup hnodup, hlength])
      rw [← List.mem_toFinset, hall]
      exact Finset.mem_range.2 (pool.drive_of_lt keyHash x)

end DrivePool

/-- The files of an object are those of its stripes if and only if it has no bytes, or the rounding
does not wrap and no two of the visited chunks share a drive. -/
theorem covers_stripes_iff (pool : DrivePool) (digest : Digest) (tierBytes : Nat)
    (hunit : pool.stripeUnit < wrap64) (hbytes : tierBytes < wrap64) :
    CoversStripes pool digest tierBytes ↔
      tierBytes = 0 ∨ (tierBytes + pool.stripeUnit ≤ wrap64 ∧
        pool.AvoidsClash digest.bucket (pool.filesUsed tierBytes * pool.stripeUnit)) := by
  have hs := pool.stripe_unit_pos
  rcases Nat.eq_zero_or_pos tierBytes with rfl | hpos
  · have hvisits : Visits pool digest 0 ∅ := visits_stripe_drives pool digest 0
    have hplanned : ∀ ranges, Tiles ranges 0 0 →
        (pool.planned digest.bucket ranges).toFinset = ∅ := by
      intro ranges hranges
      rw [List.toFinset_eq_empty_iff, List.eq_nil_iff_forall_not_mem]
      intro drive hmem
      obtain ⟨x, -, hx, -⟩ := (mem_planned hranges).1 hmem
      omega
    refine iff_of_true ⟨∅, hvisits, rfl, ?_, hplanned, hvisits.never_missing hplanned⟩ (Or.inl rfl)
    rw [Nat.div_eq_of_lt (by omega), Nat.min_zero]
    rfl
  have hlength : (pool.stripeDrives digest.bucket tierBytes).length = pool.filesUsed tierBytes := by
    rw [DrivePool.stripeDrives, List.length_map, List.length_range]
  have hnodup : tierBytes + pool.stripeUnit ≤ wrap64 →
      ((pool.stripeDrives digest.bucket tierBytes).Nodup ↔
      pool.AvoidsClash digest.bucket (pool.filesUsed tierBytes * pool.stripeUnit)) := by
    intro hcount
    have hlimit : pool.filesUsed tierBytes * pool.stripeUnit ≤ wrap64 := by
      rw [(DrivePool.files_used_eq_iff hunit hbytes hpos).2 hcount]
      have hle := Nat.mul_le_mul_right pool.stripeUnit
        (Nat.min_le_right pool.numDrives ((tierBytes + pool.stripeUnit - 1) / pool.stripeUnit))
      have hdiv := Nat.div_mul_le_self (tierBytes + pool.stripeUnit - 1) pool.stripeUnit
      omega
    rw [DrivePool.stripe_drives_nodup_iff,
      DrivePool.separates_iff_avoids_clash digest.bucket_lt hlimit]
  constructor
  · rintro ⟨drives, hvisits, hcard, hused, -⟩
    have hcount := (DrivePool.files_used_eq_iff hunit hbytes hpos).1 hused
    rw [hvisits.eq_stripe_drives, ← hlength] at hcard
    exact Or.inr ⟨hcount, (hnodup hcount).1 (Multiset.toFinset_card_eq_card_iff_nodup.1 hcard)⟩
  · rintro (hzero | ⟨hcount, havoid⟩)
    · omega
    have hdistinct := (hnodup hcount).2 havoid
    have hvisits := visits_stripe_drives pool digest tierBytes
    have hplanned : ∀ ranges, Tiles ranges 0 tierBytes →
        (pool.planned digest.bucket ranges).toFinset =
        (pool.stripeDrives digest.bucket tierBytes).toFinset := by
      intro ranges hranges
      ext drive
      rw [List.mem_toFinset, List.mem_toFinset, mem_planned hranges,
        DrivePool.mem_stripe_drives_iff hpos hcount hdistinct]
      simp only [Nat.zero_le, true_and]
    refine ⟨_, hvisits, ?_, (DrivePool.files_used_eq_iff hunit hbytes hpos).2 hcount, hplanned,
      hvisits.never_missing hplanned⟩
    rw [List.toFinset_card_of_nodup hdistinct, hlength]

theorem covers_stripes_three_drives : CoversStripes threeDrives (Digest.replicate 0) 16384 :=
  (covers_stripes_iff threeDrives (Digest.replicate 0) 16384 (by decide) (by decide)).2
    (Or.inr (by decide))

/-- With the largest digest the chunks 0 and 1 share a drive, so the file of chunk 3 is never
opened; and an extent of almost 2 ^ 64 bytes has no files at all. -/
theorem file_set_misses_stripes :
    threeDrives.stripeDrives (Digest.replicate 255).bucket 16384 = [0, 0, 1] ∧
      threeDrives.planned (Digest.replicate 255).bucket [(0, 16384)] = [0, 0, 1, 2] ∧
      ¬ CoversStripes threeDrives (Digest.replicate 255) 16384 ∧
      threeDrives.stripeDrives (Digest.replicate 0).bucket (wrap64 - 1) = [] ∧
      threeDrives.planned (Digest.replicate 0).bucket [(0, 1)] = [0] ∧
      ¬ CoversStripes threeDrives (Digest.replicate 0) (wrap64 - 1) := by
  have hshared : threeDrives.stripeDrives (Digest.replicate 255).bucket 16384 =
      [0, 0, 1] := by decide +kernel
  have hempty : threeDrives.stripeDrives (Digest.replicate 0).bucket (wrap64 - 1) =
      [] := by decide +kernel
  refine ⟨hshared, by decide +kernel, ?_, hempty, by decide +kernel, ?_⟩
  · rintro ⟨drives, hvisits, hcard, -⟩
    rw [hvisits.eq_stripe_drives, hshared] at hcard
    exact absurd hcard (by decide +kernel)
  · rintro ⟨drives, -, -, hused, -⟩
    exact absurd hused (by decide +kernel)

end GoblinStore
