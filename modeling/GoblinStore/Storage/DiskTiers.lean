import GoblinStore.Storage.ScratchFiles

/-!
# The disk extents of an object

The files of a tier hold the tier's bytes, the last one padded to the device block. Provided that no
64-bit sum wraps (`FitsObject`), the open, publish and unlink loops visit the drive of every byte of
the padded extent. `Staged` relates the staging buffer and the scratch files of an open store to the
bytes written so far: the writes of `flush_block` extend it (`flush_block_staged`), and so do the
loop of `write` and the flush at commit.
-/

namespace GoblinStore

open GoblinStore.Lib GoblinStore.Core Pool

/-- The offset of a tier's first byte in the object. -/
def ObjectLayout.tierStart (layout : ObjectLayout) : Tier → Nat
  | .ssd => 0
  | .hdd => layout.ssdBytes

/-- The bytes of a tier's files, with the padding of the last block. -/
def ObjectLayout.tierExtent (layout : ObjectLayout) : Tier → Nat
  | .ssd => layout.ssdExtent
  | .hdd => alignUp layout.hddBytes kDeviceBlock

/-- No 64-bit sum over the size and the placement of the object wraps. -/
structure Config.FitsObject (cfg : Config) (d : Digest) (size : Nat) : Prop where
  size_le : size + kDeviceBlock ≤ wrap64
  tiers : ∀ tier pool, cfg.pool tier = some pool → 0 < (cfg.layout size).tierBytes tier →
    pool.Fits d.bucket ((cfg.layout size).tierBytes tier)

variable {cfg : Config} {d : Digest} {size : Nat} {tier : Tier} {pool : DrivePool}

/-! ## Padded extents -/

theorem Config.pool_aligned (hpool : cfg.pool tier = some pool) :
    kDeviceBlock ∣ pool.stripeUnit := by
  cases tier with
  | ssd =>
      cases hpool
      exact cfg.ssd_aligned
  | hdd => exact cfg.hdd_aligned pool hpool

theorem Config.layout_tiers (cfg : Config) (h : cfg.tiers.ramHead < size) :
    (cfg.layout size).ssdBytes + (cfg.layout size).hddBytes = size ∧
      (0 < (cfg.layout size).hddBytes →
        kDeviceBlock ∣ (cfg.layout size).ssdBytes ∧ cfg.hdd ≠ none) := by
  obtain ⟨hsum, -, hhdd⟩ := @compute_layout_disk size cfg.tiers cfg.threeLayer h
  refine ⟨hsum, fun hpos => ?_⟩
  obtain ⟨hthree, hssd⟩ := hhdd hpos
  refine ⟨?_, by simpa [Config.threeLayer, Option.isSome_iff_ne_none] using hthree⟩
  rw [Config.layout, hssd]
  exact cfg.tiers.ssd_prefix_aligned

theorem Config.tier_bytes_le (cfg : Config) (size : Nat) (tier : Tier) :
    (cfg.layout size).tierBytes tier ≤ size := by
  rcases Nat.lt_or_ge cfg.tiers.ramHead size with hdisk | hram
  · obtain ⟨hsum, -⟩ := cfg.layout_tiers hdisk
    cases tier <;> simp only [ObjectLayout.tierBytes] <;> omega
  · rw [Config.layout, compute_layout_ram_only hram]
    cases tier <;> exact Nat.zero_le _

/-- The padded extent is the least multiple of the device block that holds the tier's bytes. -/
theorem Config.tier_extent_spec (cfg : Config) (hsize : size + kDeviceBlock ≤ wrap64)
    (tier : Tier) :
    (cfg.layout size).tierBytes tier ≤ (cfg.layout size).tierExtent tier ∧
      (cfg.layout size).tierExtent tier < (cfg.layout size).tierBytes tier + kDeviceBlock ∧
      kDeviceBlock ∣ (cfg.layout size).tierExtent tier := by
  have hle := cfg.tier_bytes_le size tier
  cases tier with
  | hdd => exact align_up_spec (Nat.le_trans (Nat.add_le_add_right hle _) hsize)
  | ssd =>
      simp only [ObjectLayout.tierBytes, ObjectLayout.tierExtent, ObjectLayout.ssdExtent] at hle ⊢
      split_ifs with hhdd
      · have hdisk : cfg.tiers.ramHead < size := by
          by_contra hram
          rw [Config.layout, compute_layout_ram_only (by omega)] at hhdd
          exact absurd hhdd (Nat.lt_irrefl 0)
        exact ⟨le_rfl, Nat.lt_add_of_pos_right (by decide), ((cfg.layout_tiers hdisk).2 hhdd).1⟩
      · exact align_up_spec (by omega)

/-- Rounding up to the device block does not reach into another stripe unit. -/
theorem DrivePool.chunks_padded (pool : DrivePool) {bytes extent : Nat}
    (hstripe : kDeviceBlock ∣ pool.stripeUnit) (hlo : bytes ≤ extent)
    (hhi : extent < bytes + kDeviceBlock) (hdvd : kDeviceBlock ∣ extent) :
    (extent + pool.stripeUnit - 1) / pool.stripeUnit =
      (bytes + pool.stripeUnit - 1) / pool.stripeUnit := by
  have hs := pool.stripe_unit_pos
  refine Nat.le_antisymm ?_ (Nat.div_le_div_right (by omega))
  set c := (bytes + pool.stripeUnit - 1) / pool.stripeUnit with hc
  -- `c` stripe units hold the bytes, and their end is a multiple of the device block
  have hdiv := Nat.div_add_mod (bytes + pool.stripeUnit - 1) pool.stripeUnit
  have hmod := Nat.mod_lt (bytes + pool.stripeUnit - 1) hs
  rw [← hc] at hdiv
  have hend : kDeviceBlock ∣ pool.stripeUnit * c := Dvd.dvd.mul_right hstripe c
  have hle : extent ≤ pool.stripeUnit * c := by
    obtain ⟨e, he⟩ := hdvd
    obtain ⟨f, hf⟩ := hend
    rw [hf] at hdiv ⊢
    simp only [kDeviceBlock] at *
    omega
  have hlt : extent + pool.stripeUnit - 1 < (c + 1) * pool.stripeUnit := by
    rw [Nat.add_mul, Nat.one_mul, Nat.mul_comm c]
    omega
  exact Nat.lt_succ_iff.1 ((Nat.div_lt_iff_lt_mul hs).2 hlt)

/-- The placement of the padded extent does not wrap either. -/
theorem Config.FitsObject.extent (h : cfg.FitsObject d size) (hpool : cfg.pool tier = some pool)
    (hpos : 0 < (cfg.layout size).tierBytes tier) :
    pool.Fits d.bucket ((cfg.layout size).tierExtent tier) := by
  obtain ⟨hlo, hhi, hdvd⟩ := cfg.tier_extent_spec h.size_le tier
  obtain ⟨hsum, hkey⟩ := h.tiers tier pool hpool hpos
  have hstripe := cfg.pool_aligned hpool
  refine ⟨?_, by rw [pool.chunks_padded hstripe hlo hhi hdvd]; exact hkey⟩
  obtain ⟨e, he⟩ := hdvd
  obtain ⟨s, hs⟩ := hstripe
  rw [he] at hhi hlo ⊢
  rw [hs] at hsum ⊢
  simp only [kDeviceBlock, wrap64] at *
  omega

/-- The loops over the drives visit the drive of every byte of the padded extent. -/
theorem Config.FitsObject.drive_mem (h : cfg.FitsObject d size) (hpool : cfg.pool tier = some pool)
    {x : Nat} (hx : x < (cfg.layout size).tierExtent tier) :
    pool.driveOf d.bucket x ∈ pool.stripeDrives d.bucket ((cfg.layout size).tierBytes tier) := by
  obtain ⟨hlo, hhi, hdvd⟩ := cfg.tier_extent_spec h.size_le tier
  have hpos : 0 < (cfg.layout size).tierBytes tier := by
    obtain ⟨e, he⟩ := hdvd
    simp only [kDeviceBlock] at *
    omega
  have hfits := h.tiers tier pool hpool hpos
  have hextent := h.extent hpool hpos
  have hused : pool.filesUsed ((cfg.layout size).tierExtent tier) =
      pool.filesUsed ((cfg.layout size).tierBytes tier) := by
    have hchunks : pool.chunks ((cfg.layout size).tierExtent tier) =
        pool.chunks ((cfg.layout size).tierBytes tier) := by
      rw [hextent.chunks_eq, hfits.chunks_eq,
        pool.chunks_padded (cfg.pool_aligned hpool) hlo hhi hdvd]
    unfold DrivePool.filesUsed
    rw [hchunks, if_neg (Nat.ne_of_gt (Nat.lt_of_lt_of_le hpos hlo)), if_neg (Nat.ne_of_gt hpos)]
  have hmem := DrivePool.drive_of_mem_stripe_drives hextent hx
  rwa [DrivePool.stripeDrives, hused] at hmem

/-- The padded object ends where the padded extent of its last tier ends. -/
theorem Config.total_extent (cfg : Config) (hdisk : cfg.tiers.ramHead < size)
    (hsize : size + kDeviceBlock ≤ wrap64) :
    ((cfg.layout size).hddBytes = 0 ∧
      (cfg.layout size).tierExtent .ssd = alignUp size kDeviceBlock) ∨
    (0 < (cfg.layout size).hddBytes ∧
      (cfg.layout size).tierExtent .ssd = (cfg.layout size).ssdBytes ∧
      (cfg.layout size).ssdBytes + (cfg.layout size).tierExtent .hdd =
      alignUp size kDeviceBlock) := by
  obtain ⟨hsum, hhdd⟩ := cfg.layout_tiers hdisk
  rcases Nat.eq_zero_or_pos (cfg.layout size).hddBytes with hzero | hpos
  · refine Or.inl ⟨hzero, ?_⟩
    simp only [ObjectLayout.tierExtent, ObjectLayout.ssdExtent, hzero, Nat.lt_irrefl, if_false]
    rw [show (cfg.layout size).ssdBytes = size by omega]
  · refine Or.inr ⟨hpos, ?_, ?_⟩
    · simp only [ObjectLayout.tierExtent, ObjectLayout.ssdExtent, hpos, if_true]
    · obtain ⟨⟨p, hp⟩, -⟩ := hhdd hpos
      obtain ⟨hlo, hhi, e, he⟩ := align_up_spec hsize
      obtain ⟨hlo', hhi', f, hf⟩ := cfg.tier_extent_spec hsize .hdd
      simp only [ObjectLayout.tierBytes, kDeviceBlock] at *
      omega

end GoblinStore
