import GoblinStore.Storage.DiskTiers

/-!
# Staging the bytes of an open store

`Staged` relates the staging buffer and the scratch files of a store to the bytes it was given:
what is flushed is in the files, tier by tier, and the rest is in the buffer. Unless a `pwrite`
fails, `flush_block` moves the buffer's bytes to the files, and the loop of `write` and the flush
at commit keep the relation. After the flush at commit the files hold the padded object.
-/

namespace GoblinStore

open GoblinStore.Lib GoblinStore.Core Pool

/-- What does not change about a disk-backed store: its layout and which descriptors are open. -/
structure Ready (cfg : Config) (h : StoreHandle) : Prop where
  layout_eq : h.layout = cfg.layout h.layout.size
  disk : cfg.tiers.ramHead < h.layout.size
  fits : cfg.FitsObject h.digest h.layout.size
  open_iff : ∀ tier pool, cfg.pool tier = some pool → ∀ drive, h.files tier drive ≠ none ↔
    drive ∈ pool.stripeDrives h.digest.bucket (h.layout.tierBytes tier)
  hdd_pos : h.hdd ≠ none → 0 < h.layout.hddBytes

/-- The files of a store hold the first `flushed` bytes of the padded object, tier by tier. -/
def Flushed (cfg : Config) (content : Nat → UInt8) (h : StoreHandle) (flushed : Nat)
    (fs : FileSystem) : Prop :=
  ∀ tier pool, cfg.pool tier = some pool →
    Stored pool h.digest.bucket
      (min (flushed - h.layout.tierStart tier) (h.layout.tierExtent tier))
      (fun x => content (h.layout.tierStart tier + x)) (fs.bodies (h.files tier))

/-- The files and the staging buffer of a store hold the first `total` bytes of the padded
object. -/
structure Staged (cfg : Config) (content : Nat → UInt8) (total : Nat)
    (w : State.Staging) : Prop where
  progress : w.handle.flushed + w.handle.stageFill = total
  aligned : kDeviceBlock ∣ w.handle.flushed
  fill_lt : w.handle.stageFill < cfg.ioChunk
  bytes : ∀ i < w.handle.stageFill, w.stage i = content (w.handle.flushed + i)
  flushed : Flushed cfg content w.handle w.handle.flushed w.fs

/-- The files hold the whole padded object, and nothing is staged. -/
structure Complete (cfg : Config) (content : Nat → UInt8) (w : State.Staging) : Prop where
  fill : w.handle.stageFill = 0
  flushed : Flushed cfg content w.handle (alignUp w.handle.layout.size kDeviceBlock) w.fs

variable {cfg : Config} {faults : Faults} {id : Nat} {h h' : StoreHandle} {fs : FileSystem}
  {content : Nat → UInt8} {tier : Tier} {pool : DrivePool}

theorem Config.chunk_aligned (cfg : Config) : kDeviceBlock ∣ cfg.ioChunk :=
  device_block_dvd cfg.chunk_pow cfg.chunk_ge

/-! ## Writing to one tier -/

theorem Ready.of_same (hr : Ready cfg h) (hsame : State.SameHandle h h') : Ready cfg h' where
  layout_eq := by rw [hsame.layout]; exact hr.layout_eq
  disk := by rw [hsame.layout]; exact hr.disk
  fits := by rw [hsame.layout, hsame.digest]; exact hr.fits
  open_iff := by
    rw [StoreHandle.files, hsame.ssd, hsame.hdd, hsame.digest, hsame.layout]
    exact hr.open_iff
  hdd_pos := by rw [hsame.hdd, hsame.layout]; exact hr.hdd_pos

theorem Ready.extent_spec (hr : Ready cfg h) (tier : Tier) :
    h.layout.tierBytes tier ≤ h.layout.tierExtent tier ∧
      h.layout.tierExtent tier < h.layout.tierBytes tier + kDeviceBlock ∧
      kDeviceBlock ∣ h.layout.tierExtent tier := by
  rw [hr.layout_eq]
  exact cfg.tier_extent_spec hr.fits.size_le tier

/-- Different drives and tiers of one store have different inodes. -/
theorem Named.place_eq (hn : Named fs id h) {tier' : Tier} {drive drive' ino : Nat}
    (h₁ : h.files tier drive = some ino) (h₂ : h.files tier' drive' = some ino) :
    tier = tier' ∧ drive = drive' := by
  have hpath := fs.dir_injective (hn tier drive ino h₁) (hn tier' drive' ino h₂)
  simp only [scratchPath, Path.mk.injEq] at hpath
  exact ⟨hpath.1, hpath.2.1⟩

theorem Named.distinct (hn : Named fs id h) (tier : Tier) : (h.files tier).Distinct :=
  fun _ _ _ h₁ h₂ => (hn.place_eq h₁ h₂).2

/-- A write to one tier leaves the files of the other alone. -/
theorem bodies_other_tier (hn : Named fs id h) {tier' : Tier} (hne : tier ≠ tier')
    (src : Nat → UInt8) (limit : Option Nat) (segs : List ReadSegment) (dst : Nat) :
    (pwriteLoop (h.files tier) src limit segs dst fs).2.bodies (h.files tier') =
      fs.bodies (h.files tier') := by
  obtain ⟨-, -, hfile⟩ := @pwrite_loop_frame fs (h.files tier) src limit segs dst
  funext drive
  unfold FileSystem.bodies
  cases hd : h.files tier' drive with
  | none => rfl
  | some ino => exact hfile ino fun drive' hd' => hne (hn.place_eq hd' hd).1

/-- Writing the bytes `[a, b)` of a tier behind the ones it holds. -/
theorem tier_write (hr : Ready cfg h) (hn : Named fs id h) (hpool : cfg.pool tier = some pool)
    {a b : Nat} (hab : a ≤ b) (hb : b ≤ h.layout.tierExtent tier) {src : Nat → UInt8}
    (hsrc : ∀ j < b - a, src j = content (a + j)) (limit : Option Nat)
    (hst : Stored pool h.digest.bucket a content (fs.bodies (h.files tier))) :
    ((stripedPwrite fs limit pool h.digest.bucket (h.files tier) a (b - a) src).1 = false ∧
        limit ≠ none) ∨
      ((stripedPwrite fs limit pool h.digest.bucket (h.files tier) a (b - a) src).1 = true ∧
        Stored pool h.digest.bucket b content
          ((stripedPwrite fs limit pool h.digest.bucket (h.files tier) a (b - a) src).2.bodies
            (h.files tier))) := by
  rcases Nat.eq_or_lt_of_le hab with rfl | hlt
  · rw [Nat.sub_self]
    exact Or.inr ⟨rfl, hst⟩
  · have hpos : 0 < h.layout.tierBytes tier := by
      obtain ⟨-, hhi, e, he⟩ := hr.extent_spec tier
      simp only [kDeviceBlock] at *
      omega
    have hfits : pool.Fits h.digest.bucket (h.layout.tierExtent tier) := by
      rw [hr.layout_eq] at hpos ⊢
      exact hr.fits.extent hpool hpos
    have hopen : ∀ x < h.layout.tierExtent tier,
        h.files tier (pool.driveOf h.digest.bucket x) ≠ none := by
      intro x hx
      rw [hr.open_iff tier pool hpool, hr.layout_eq]
      rw [hr.layout_eq] at hx
      exact hr.fits.drive_mem hpool hx
    have hwrite := @striped_pwrite_stored pool h.digest.bucket content
      (h.layout.tierExtent tier) a fs (h.files tier) src limit (b - a) hfits (hn.distinct tier)
      hopen (by omega) hsrc hst
    rwa [Nat.add_sub_cancel' hab] at hwrite

/-! ## Flushing a block -/

namespace State

variable {w : Staging}

/-- The SSD part of a flush extends what the SSD files hold. -/
theorem flush_ssd_flushed (hr : Ready cfg w.handle) (hn : Named w.fs id w.handle)
    (hf : Flushed cfg content w.handle w.handle.flushed w.fs) {n : Nat}
    (hsrc : ∀ i < n, w.stage i = content (w.handle.flushed + i))
    (hwrap : w.handle.flushed + n < wrap64) :
    ((flushSsd cfg faults w n).1 = false ∧ ∃ tier x, faults.pwrite tier x ≠ none) ∨
      ((flushSsd cfg faults w n).1 = true ∧
        Stored cfg.ssd w.handle.digest.bucket
          (min (w.handle.flushed + n - w.handle.layout.tierStart .ssd)
            (w.handle.layout.tierExtent .ssd))
          (fun x => content (w.handle.layout.tierStart .ssd + x))
          ((flushSsd cfg faults w n).2.bodies (w.handle.files .ssd))) := by
  have hst := hf .ssd cfg.ssd rfl
  simp only [ObjectLayout.tierStart, Nat.sub_zero, Nat.zero_add] at hst ⊢
  unfold flushSsd
  dsimp only
  rw [Nat.mod_eq_of_lt hwrap]
  split_ifs with hlt
  · have hext : w.handle.flushed < w.handle.layout.tierExtent .ssd := by
      simp only [ObjectLayout.tierExtent]
      omega
    rw [Nat.min_eq_left (Nat.le_of_lt hext)] at hst
    rcases @tier_write cfg id w.handle w.fs content .ssd cfg.ssd hr hn rfl w.handle.flushed
        (min (w.handle.flushed + n) w.handle.layout.ssdExtent) (Nat.le_of_lt hlt)
        (Nat.min_le_right _ _) w.stage (fun j hj => hsrc j (by omega)) _ hst with
      ⟨hfail, hfault⟩ | hok
    · exact Or.inl ⟨hfail, .ssd, _, hfault⟩
    · exact Or.inr hok
  · -- nothing of the block lies in the SSD extent
    refine Or.inr ⟨rfl, ?_⟩
    have heq : min (w.handle.flushed + n) (w.handle.layout.tierExtent .ssd) =
        min w.handle.flushed (w.handle.layout.tierExtent .ssd) := by
      simp only [ObjectLayout.tierExtent]
      omega
    rw [heq]
    exact hst

/-- The HDD part of a flush extends what the HDD files hold. -/
theorem flush_hdd_flushed (hr : Ready cfg w.handle) (hn : Named w.fs id w.handle)
    {hddPool : DrivePool} (hhdd : cfg.hdd = some hddPool)
    (hst : Stored hddPool w.handle.digest.bucket
      (min (w.handle.flushed - w.handle.layout.tierStart .hdd) (w.handle.layout.tierExtent .hdd))
      (fun x => content (w.handle.layout.tierStart .hdd + x)) (w.fs.bodies (w.handle.files .hdd)))
    {n : Nat} (hsrc : ∀ i < n, w.stage i = content (w.handle.flushed + i))
    (hend : w.handle.flushed + n ≤ alignUp w.handle.layout.size kDeviceBlock)
    (hwrap : w.handle.flushed + n < wrap64) :
    ((flushHdd cfg faults w n).1 = false ∧ ∃ tier x, faults.pwrite tier x ≠ none) ∨
      ((flushHdd cfg faults w n).1 = true ∧
        Stored hddPool w.handle.digest.bucket
          (min (w.handle.flushed + n - w.handle.layout.tierStart .hdd)
            (w.handle.layout.tierExtent .hdd))
          (fun x => content (w.handle.layout.tierStart .hdd + x))
          ((flushHdd cfg faults w n).2.bodies (w.handle.files .hdd))) := by
  have htotal := cfg.total_extent hr.disk hr.fits.size_le
  rw [← hr.layout_eq] at htotal
  unfold flushHdd
  dsimp only
  rw [hhdd, Nat.mod_eq_of_lt hwrap]
  cases hfds : w.handle.hdd with
  | none =>
      -- no tail: the HDD extent is empty
      have hzero : w.handle.layout.hddBytes = 0 := by
        by_contra hpos
        have hpos : 0 < w.handle.layout.hddBytes := by omega
        have hmem := @Config.FitsObject.drive_mem cfg _ _ .hdd hddPool hr.fits hhdd 0 (by
          rw [← hr.layout_eq]
          exact Nat.lt_of_lt_of_le hpos (hr.extent_spec .hdd).1)
        rw [← hr.layout_eq, ← hr.open_iff .hdd hddPool hhdd] at hmem
        simp [StoreHandle.files, tierFiles, hfds, ObjectFiles.none] at hmem
      have hext : w.handle.layout.tierExtent .hdd = 0 := by
        obtain ⟨-, hhi, e, he⟩ := hr.extent_spec .hdd
        simp only [ObjectLayout.tierBytes, hzero, kDeviceBlock] at hhi he
        omega
      rw [hext, Nat.min_zero] at hst ⊢
      exact Or.inr ⟨rfl, hst⟩
  | some fds =>
      have hpos := hr.hdd_pos (by simp [hfds])
      have hfiles : w.handle.files .hdd = fds := by
        rw [StoreHandle.files, tierFiles, hfds]
        rfl
      rcases htotal with ⟨hzero, -⟩ | ⟨-, -, hsum⟩
      · omega
      rw [hfiles] at hst ⊢
      simp only [ObjectLayout.tierStart] at hst ⊢
      split_ifs with hlt
      · -- the block reaches into the tail
        have ha : max w.handle.flushed w.handle.layout.ssdBytes - w.handle.layout.ssdBytes =
            w.handle.flushed - w.handle.layout.ssdBytes := by omega
        have hb : w.handle.flushed + n - max w.handle.flushed w.handle.layout.ssdBytes =
            (w.handle.flushed + n - w.handle.layout.ssdBytes) -
              (w.handle.flushed - w.handle.layout.ssdBytes) := by omega
        rw [Nat.min_eq_left (by omega)] at hst
        rw [Nat.min_eq_left (by omega), ha, hb, ← hfiles]
        rw [← hfiles] at hst
        rcases @tier_write cfg id w.handle w.fs
          (fun x => content (w.handle.layout.ssdBytes + x)) .hdd
            hddPool hr hn hhdd (w.handle.flushed - w.handle.layout.ssdBytes)
            (w.handle.flushed + n - w.handle.layout.ssdBytes) (by omega) (by omega)
            (fun i => w.stage (max w.handle.flushed w.handle.layout.ssdBytes - w.handle.flushed +
            i)) (fun j hj => by
              rw [hsrc _ (by omega)]
              congr 1
              omega)
            (faults.pwrite .hdd (w.handle.flushed - w.handle.layout.ssdBytes)) hst with
          ⟨hfail, hfault⟩ | hok
        · exact Or.inl ⟨hfail, .hdd, _, hfault⟩
        · exact Or.inr hok
      · refine Or.inr ⟨rfl, ?_⟩
        rw [show w.handle.flushed + n - w.handle.layout.ssdBytes =
          w.handle.flushed - w.handle.layout.ssdBytes by omega]
        exact hst

/-- Each part of a flush leaves the directory and the files of the other tier alone. -/
theorem flush_ssd_frame (hn : Named w.fs id w.handle) (n : Nat) :
    (flushSsd cfg faults w n).2.dir = w.fs.dir ∧
      (flushSsd cfg faults w n).2.bodies (w.handle.files .hdd) =
      w.fs.bodies (w.handle.files .hdd) := by
  unfold flushSsd
  dsimp only
  split_ifs
  · exact ⟨(pwrite_loop_frame _ _).1,
      bodies_other_tier hn (show Tier.ssd ≠ Tier.hdd by simp) _ _ _ _⟩
  · exact ⟨rfl, rfl⟩

theorem flush_hdd_frame (hn : Named w.fs id w.handle) (n : Nat) :
    (flushHdd cfg faults w n).2.bodies (w.handle.files .ssd) =
      w.fs.bodies (w.handle.files .ssd) := by
  unfold flushHdd
  dsimp only
  split
  · rename_i hddPool fds _ hfds
    have hfiles : fds = w.handle.files .hdd := by
      rw [StoreHandle.files, tierFiles, hfds]
      rfl
    split_ifs
    · rw [hfiles]
      exact bodies_other_tier hn (by simp) _ _ _ _
    · rfl
  · rfl

/-- Unless a `pwrite` fails, a flush moves the first `n` staged bytes to the files. -/
theorem flush_block_flushed (hr : Ready cfg w.handle) (hn : Named w.fs id w.handle)
    (hf : Flushed cfg content w.handle w.handle.flushed w.fs) {n : Nat}
    (hsrc : ∀ i < n, w.stage i = content (w.handle.flushed + i))
    (hend : w.handle.flushed + n ≤ alignUp w.handle.layout.size kDeviceBlock) :
    ((flushBlock cfg faults w n).1 = false ∧ ∃ tier x, faults.pwrite tier x ≠ none) ∨
      ∃ fs', flushBlock cfg faults w n =
          (true, { w with
            fs := fs'
            handle := { w.handle with flushed := w.handle.flushed + n, stageFill := 0 } }) ∧
        Flushed cfg content w.handle (w.handle.flushed + n) fs' := by
  obtain ⟨hdir, hother⟩ := @flush_ssd_frame cfg faults id w hn n
  have hwrap : w.handle.flushed + n < wrap64 := by
    have hsize := hr.fits.size_le
    have hpad := (align_up_spec hsize).2.1
    omega
  have hssd := @flush_ssd_flushed cfg faults id content w hr hn hf n hsrc hwrap
  unfold flushBlock
  rw [Nat.mod_eq_of_lt hwrap]
  cases hcase : flushSsd cfg faults w n with
  | mk ok fs₁ =>
      rw [hcase] at hdir hother hssd
      rcases hssd with ⟨hfail, hfault⟩ | ⟨hok, hst⟩
      · dsimp only at hfail
        subst hfail
        exact Or.inl ⟨rfl, hfault⟩
      · dsimp only at hok hdir hother hst
        subst hok
        have hn₁ : Named fs₁ id w.handle := hn.of_same (SameHandle.refl _) hdir
        cases hpool : cfg.hdd with
        | none =>
            -- without an HDD pool there is nothing more to write
            have hskip : flushHdd cfg faults { w with fs := fs₁ } n = (true, fs₁) := by
              unfold flushHdd
              simp only [hpool]
            simp only [hskip]
            refine Or.inr ⟨fs₁, rfl, fun tier pool hp => ?_⟩
            cases tier with
            | ssd =>
                cases hp
                exact hst
            | hdd =>
                rw [Config.pool, hpool] at hp
                cases hp
        | some hddPool =>
            have hst' := hf .hdd hddPool hpool
            rw [← hother] at hst'
            have hframe := @flush_hdd_frame cfg faults id { w with fs := fs₁ } hn₁ n
            have hhdd := @flush_hdd_flushed cfg faults id content { w with fs := fs₁ }
              hr hn₁ hddPool
              hpool hst' n hsrc hend hwrap
            cases hcase' : flushHdd cfg faults { w with fs := fs₁ } n with
            | mk ok' fs₂ =>
                rw [hcase'] at hframe hhdd
                simp only [hcase']
                rcases hhdd with ⟨hfail, hfault⟩ | ⟨hok', hst₂⟩
                · dsimp only at hfail
                  subst hfail
                  exact Or.inl ⟨rfl, hfault⟩
                · dsimp only at hok' hst₂ hframe
                  subst hok'
                  refine Or.inr ⟨fs₂, rfl, fun tier pool hp => ?_⟩
                  cases tier with
                  | ssd =>
                      cases hp
                      rw [hframe]
                      exact hst
                  | hdd =>
                      rw [Config.pool, hpool] at hp
                      cases hp
                      exact hst₂

/-! ## The loop of `write` -/

/-- Copying the next bytes of the chunk behind the staged ones. -/
theorem copy_in_bytes {total : Nat} (hprogress : w.handle.flushed + w.handle.stageFill = total)
    (hbytes : ∀ i < w.handle.stageFill, w.stage i = content (w.handle.flushed + i))
    {chunk : Nat → UInt8} {pos take : Nat}
    (hchunk : ∀ j < take, chunk (pos + j) = content (total + j)) :
    ∀ i < (w.copyIn chunk pos take).handle.stageFill,
      (w.copyIn chunk pos take).stage i = content (w.handle.flushed + i) := by
  intro i hi
  simp only [Staging.copyIn] at hi ⊢
  rcases Nat.lt_or_ge i w.handle.stageFill with hold | hnew
  · rw [blit_outside (Or.inl hold)]
    exact hbytes i hold
  · rw [blit_inside hnew hi, hchunk _ (by omega)]
    congr 1
    omega

/-- Unless a `pwrite` fails, the loop stages and flushes the rest of the chunk. -/
theorem stage_loop_staged (hr : Ready cfg w.handle) (hn : Named w.fs id w.handle)
    {total : Nat} (hst : Staged cfg content total w) {chunk : Nat → UInt8}
    {pos remaining fuel : Nat} (hchunk : ∀ j < remaining, chunk (pos + j) = content (total + j))
    (hend : total + remaining ≤ w.handle.layout.size) (hfuel : remaining < fuel) :
    ((stageLoop cfg faults chunk fuel pos remaining w).1 = false ∧
        ∃ tier x, faults.pwrite tier x ≠ none) ∨
      ((stageLoop cfg faults chunk fuel pos remaining w).1 = true ∧
        Staged cfg content (total + remaining)
        (stageLoop cfg faults chunk fuel pos remaining w).2) := by
  induction fuel generalizing pos remaining w total with
  | zero => omega
  | succ fuel ih =>
      rw [stageLoop]
      split_ifs with hzero
      · rw [hzero]
        exact Or.inr ⟨rfl, hst⟩
      have hlt := hst.fill_lt
      have hprogress := hst.progress
      generalize htake : min remaining (cfg.ioChunk - w.handle.stageFill) = take
      have hsame : SameHandle w.handle (w.copyIn chunk pos take).handle :=
        ⟨rfl, rfl, rfl, rfl, rfl, rfl, rfl, rfl⟩
      have hbytes := @copy_in_bytes content w total hst.progress hst.bytes chunk pos take
        (fun j hj => hchunk j (by omega))
      have hchunk' : ∀ j < remaining - take, chunk (pos + take + j) =
          content (total + take + j) := by
        intro j hj
        rw [Nat.add_assoc pos, Nat.add_assoc total]
        exact hchunk _ (by omega)
      have hsum : total + take + (remaining - take) = total + remaining := by omega
      dsimp only
      split_ifs with hfull
      · -- the buffer is full: its bytes go to the files
        have hfill : w.handle.stageFill + take = cfg.ioChunk := hfull
        have hsize := (align_up_spec hr.fits.size_le).1
        rw [hfull] at hbytes
        rcases @flush_block_flushed cfg faults id content (w.copyIn chunk pos take)
            (hr.of_same hsame) hn hst.flushed cfg.ioChunk hbytes
            (by simp only [Staging.copyIn]; omega) with ⟨hfail, hfault⟩ | ⟨fs', heq, hflushed⟩
        · cases hcase : flushBlock cfg faults (w.copyIn chunk pos take) cfg.ioChunk with
          | mk ok w' =>
              rw [hcase] at hfail
              dsimp only at hfail
              subst hfail
              exact Or.inl ⟨rfl, hfault⟩
        · have hdir := (@flush_block_confined cfg faults id (w.copyIn chunk pos take) hn
            cfg.ioChunk).2
          rw [heq] at hdir
          simp only [heq]
          rw [← hsum]
          refine ih (hr.of_same ?_) (hn.of_same ?_ hdir) ⟨?_, ?_, ?_, ?_, ?_⟩ hchunk' ?_ (by omega)
          · exact ⟨rfl, rfl, rfl, rfl, rfl, rfl, rfl, rfl⟩
          · exact ⟨rfl, rfl, rfl, rfl, rfl, rfl, rfl, rfl⟩
          · simp only [Staging.copyIn]
            omega
          · exact Nat.dvd_add hst.aligned cfg.chunk_aligned
          · exact Nat.lt_of_le_of_lt (Nat.zero_le _) hlt
          · intro i hi
            exact absurd hi (Nat.not_lt_zero i)
          · exact hflushed
          · simp only [Staging.copyIn]
            omega
      · have hfill : w.handle.stageFill + take ≠ cfg.ioChunk := hfull
        rw [← hsum]
        refine ih (hr.of_same hsame) hn
          ⟨?_, hst.aligned, ?_, hbytes, hst.flushed⟩ hchunk' ?_ (by omega)
        · simp only [Staging.copyIn]
          omega
        · simp only [Staging.copyIn]
          omega
        · simp only [Staging.copyIn]
          omega

/-! ## The flush at commit -/

/-- The staged bytes followed by the zeros behind them. -/
theorem zero_tail_bytes {size n : Nat} (hprogress : w.handle.flushed + w.handle.stageFill = size)
    (hbytes : ∀ i < w.handle.stageFill, w.stage i = content (w.handle.flushed + i))
    (hzero : ∀ x, size ≤ x → content x = 0) :
    ∀ i < n, (w.zeroTail n).stage i = content (w.handle.flushed + i) := by
  intro i hi
  simp only [Staging.zeroTail]
  rcases Nat.lt_or_ge i w.handle.stageFill with hold | hnew
  · rw [blit_outside (Or.inl hold)]
    exact hbytes i hold
  · rw [blit_inside hnew (by omega), hzero _ (by omega)]

/-- Unless a `pwrite` fails, the flush at commit completes the files. -/
theorem flush_tail_complete (hr : Ready cfg w.handle) (hn : Named w.fs id w.handle)
    (hst : Staged cfg content w.handle.layout.size w)
    (hzero : ∀ x, w.handle.layout.size ≤ x → content x = 0) :
    ((flushTail cfg faults w).1 = false ∧ ∃ tier x, faults.pwrite tier x ≠ none) ∨
      ((flushTail cfg faults w).1 = true ∧ Complete cfg content (flushTail cfg faults w).2) := by
  have hprogress := hst.progress
  have hsize := hr.fits.size_le
  obtain ⟨hlo, hhi, e, he⟩ := align_up_spec hsize
  obtain ⟨f, hf⟩ := hst.aligned
  unfold flushTail
  split_ifs with hfill
  · -- the padded tail ends at the padded size
    obtain ⟨hlo', hhi', g, hg⟩ := align_up_spec (v := w.handle.stageFill) (by omega)
    have hpad : w.handle.flushed + alignUp w.handle.stageFill kDeviceBlock =
        alignUp w.handle.layout.size kDeviceBlock := by
      simp only [kDeviceBlock] at *
      omega
    have hbytes : ∀ i < alignUp w.handle.stageFill kDeviceBlock,
        (w.zeroTail (alignUp w.handle.stageFill kDeviceBlock)).stage i =
          content (w.handle.flushed + i) := zero_tail_bytes hprogress hst.bytes hzero
    dsimp only
    rcases @flush_block_flushed cfg faults id content
        (w.zeroTail (alignUp w.handle.stageFill kDeviceBlock)) hr hn hst.flushed
        (alignUp w.handle.stageFill kDeviceBlock) hbytes hpad.le with hfail | ⟨fs', heq, hflushed⟩
    · exact Or.inl hfail
    · rw [heq]
      refine Or.inr ⟨rfl, rfl, ?_⟩
      have hend : (w.zeroTail (alignUp w.handle.stageFill kDeviceBlock)).handle.flushed +
          alignUp w.handle.stageFill kDeviceBlock =
            alignUp w.handle.layout.size kDeviceBlock := hpad
      rw [hend] at hflushed
      exact hflushed
  · refine Or.inr ⟨rfl, by dsimp only; omega, ?_⟩
    have hall : w.handle.flushed = alignUp w.handle.layout.size kDeviceBlock := by
      simp only [kDeviceBlock] at *
      omega
    rw [← hall]
    exact hst.flushed

end State

end GoblinStore
