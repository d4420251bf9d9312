import GoblinStore.Core.BufferPool
import GoblinStore.Lib.Runs

/-!
# Runs of a buffer pool

Any sequence of `allocate` calls and of `deallocate` calls for regions that are handed out, on a
pool that `create` made. With blocks of at most 4 GiB the regions handed out never overlap, a
request fails only when there is no room for it, and a pool whose regions all came back has all its
blocks (`buffer_pool_safe`). A larger block has arena offsets that do not fit the 32 bits of a
region (`wide_block_regions_overlap`).
-/

namespace GoblinStore.Core

open GoblinStore.Lib

namespace BufferPool

/-- `BufferPool::create`: the checks on the geometry, those of `BlockPool::create` included, and a
pool whose blocks are all free. The indices on the free stack are cast to 32 bits. -/
def tryCreate (totalBytes blockBytes minAlloc : Nat) : Except Errc BufferPool :=
  if !isPowerOfTwo minAlloc ∨ minAlloc < kDeviceBlock then .error .invalidArgument
  else if blockBytes < minAlloc then .error .invalidArgument
  else if totalBytes / blockBytes = 0 then .error .invalidArgument
  else if !isPowerOfTwo blockBytes ∨ blockBytes < kDeviceBlock then .error .invalidArgument
  else .ok ⟨⟨blockBytes, totalBytes / blockBytes,
    (List.range (totalBytes / blockBytes)).reverse.map (· % wrap32)⟩, minAlloc, fun _ => none⟩

/-- The address of a region, from the start of the pool's memory. -/
def addr (pool : BufferPool) (block offset : Nat) : Nat := block * pool.blocks.blockBytes + offset

/-- What `create` accepts. -/
theorem try_create_ok {totalBytes blockBytes minAlloc : Nat} {pool : BufferPool}
    (h : tryCreate totalBytes blockBytes minAlloc = .ok pool)
    (hcount : totalBytes / blockBytes < wrap32) :
    (∃ a, minAlloc = 2 ^ a) ∧ (∃ k, blockBytes = minAlloc * 2 ^ k) ∧
      pool = create blockBytes (totalBytes / blockBytes) minAlloc := by
  unfold tryCreate at h
  split_ifs at h with hmin hle _ hblock
  simp only [not_or, Bool.not_eq_true', Bool.not_eq_false] at hmin hblock
  obtain ⟨a, ha⟩ := is_power_of_two_iff.1 hmin.1
  obtain ⟨b, hb⟩ := is_power_of_two_iff.1 hblock.1
  have hab : a ≤ b := by
    rw [ha, hb, Nat.not_lt] at hle
    exact (Nat.pow_le_pow_iff_right (by decide)).1 hle
  refine ⟨⟨a, ha⟩, ⟨b - a, ?_⟩, ?_⟩
  · rw [ha, hb, ← Nat.pow_add, Nat.add_sub_of_le hab]
  · -- below `2 ^ 32` blocks the cast changes no index
    have hcast : (List.range (totalBytes / blockBytes)).reverse.map (· % wrap32) =
        (List.range (totalBytes / blockBytes)).reverse := by
      refine (List.map_congr_left fun i hi => ?_).trans (List.map_id _)
      rw [List.mem_reverse, List.mem_range] at hi
      exact Nat.mod_eq_of_lt (hi.trans hcount)
    rw [hcast] at h
    cases h
    rfl

variable {pool : BufferPool} {live : Finset Region}

/-- If no arena serves a request, no arena has a free block of a sufficient order. -/
theorem Inv.arenas_exhausted (h : pool.Inv live) {bytes : Nat}
    (hbytes : 0 < bytes ∧ bytes ≤ pool.blocks.blockBytes)
    (hnone : pool.tryArenas bytes (List.range pool.blocks.numBlocks) = none) {b : Nat}
    {arena : BuddyAllocator} (harena : pool.arenas b = some arena) {o : Nat}
    (ho : arena.orderFor bytes ≤ o) : arena.free o = [] := by
  have hserves : ∀ indices, pool.tryArenas bytes indices = none → b ∈ indices →
      arena.allocate bytes = none := by
    intro indices
    induction indices with
    | nil => exact fun _ hb => absurd hb List.not_mem_nil
    | cons c rest ih =>
        intro htry hb
        rw [tryArenas] at htry
        split at htry
        · rename_i hc
          rcases List.mem_cons.1 hb with rfl | hrest
          · rw [harena] at hc
            cases hc
          · exact ih htry hrest
        · rename_i other hc
          split at htry
          · rename_i hfail
            rcases List.mem_cons.1 hb with rfl | hrest
            · rw [harena] at hc
              cases hc
              exact hfail
            · exact ih htry hrest
          · cases htry
  have hfail := hserves _ hnone (List.mem_range.2 (h.arena_lt b (by simp [harena])))
  by_contra hfree
  have hle : o ≤ arena.maxOrder := by
    obtain ⟨off, hoff⟩ := List.exists_mem_of_ne_nil _ hfree
    exact (h.arena_inv b arena harena).lists.free_order o off hoff
  obtain ⟨off, next, hsome⟩ := BuddyAllocator.allocate_some hbytes.1
    ((h.arena_geometry b arena harena).2 ▸ hbytes.2) ho hle hfree
  rw [hfail] at hsome
  cases hsome

/-- A request that fits a block fails only if no arena has room for it and no block is free. -/
theorem Inv.allocate_none (h : pool.Inv live) {bytes : Nat} (hpos : 0 < bytes)
    (hle : bytes ≤ pool.blocks.blockBytes) (hnone : pool.allocate bytes = none) :
    (∀ b arena, pool.arenas b = some arena → ∀ o, arena.orderFor bytes ≤ o → arena.free o = []) ∧
      pool.blocks.free = [] := by
  unfold allocate at hnone
  rw [if_neg (by omega)] at hnone
  split at hnone
  · cases hnone
  · rename_i htry
    refine ⟨fun b arena harena o => h.arenas_exhausted ⟨hpos, hle⟩ htry harena, ?_⟩
    by_contra hfree
    have hlast : pool.blocks.free.getLast? ≠ none := by simpa using hfree
    obtain ⟨blk, hblk⟩ := Option.ne_none_iff_exists'.1 hlast
    obtain ⟨a, ha⟩ := h.unit_pow
    obtain ⟨k, hk, hblock⟩ := h.block_eq
    rw [hblock, ha] at hle
    obtain ⟨off, next, hfresh⟩ := BuddyAllocator.create_allocate hk hpos hle
    rw [← ha, ← hblock] at hfresh
    simp [BlockPool.acquire, hblk, hfresh] at hnone

end BufferPool

/-! ## Runs -/

/-- A call of `allocate`, or a call of `deallocate` with the fields of a region. -/
inductive PoolOp where
  | alloc (bytes : UInt32)
  | free (r : Region)

/-- A pool and the regions it has handed out. -/
structure PoolState where
  pool : BufferPool
  live : List Region

/-- One call; only a region that is handed out can be given back. -/
def PoolState.step (s : PoolState) : PoolOp → PoolState
  | .alloc bytes =>
      match s.pool.allocate bytes.toNat with
      | none => s
      | some (r, pool) => ⟨pool, r :: s.live⟩
  | .free r =>
      if r ∈ s.live then ⟨s.pool.deallocate r.block r.offset r.len, s.live.erase r⟩ else s

/-- What the pool guarantees its clients. -/
structure PoolSafe (s : PoolState) : Prop where
  apart : s.live.Pairwise fun r q =>
    s.pool.addr r.block r.offset + r.len ≤ s.pool.addr q.block q.offset ∨
      s.pool.addr q.block q.offset + q.len ≤ s.pool.addr r.block r.offset
  inside : ∀ r ∈ s.live,
    r.block < s.pool.blocks.numBlocks ∧ r.offset + r.len ≤ s.pool.blocks.blockBytes
  free_iff : ∀ b, b ∈ s.pool.blocks.free ↔ b < s.pool.blocks.numBlocks ∧ s.pool.arenas b = none
  free_nodup : s.pool.blocks.free.Nodup
  exhausted : ∀ bytes, 0 < bytes → bytes ≤ s.pool.blocks.blockBytes → s.pool.allocate bytes = none →
    (∀ b arena, s.pool.arenas b = some arena → ∀ o, arena.orderFor bytes ≤ o → arena.free o = []) ∧
      s.pool.blocks.free = []
  all_free : s.live = [] → ∀ b < s.pool.blocks.numBlocks, b ∈ s.pool.blocks.free

/-- The regions handed out are those of the pool's invariant. -/
structure PoolState.Inv (s : PoolState) : Prop where
  nodup : s.live.Nodup
  pool_inv : s.pool.Inv s.live.toFinset

variable {s : PoolState}

theorem PoolState.Inv.step (h : s.Inv) (op : PoolOp) : (s.step op).Inv := by
  cases op with
  | alloc bytes =>
      unfold PoolState.step
      dsimp only
      split
      · exact h
      · rename_i r pool halloc
        obtain ⟨-, hnew, hinv⟩ := BufferPool.allocate_spec h.pool_inv halloc
        refine ⟨List.nodup_cons.2 ⟨fun hr => hnew (List.mem_toFinset.2 hr), h.nodup⟩, ?_⟩
        rwa [List.toFinset_cons]
  | free r =>
      unfold PoolState.step
      dsimp only
      split_ifs with hr
      · have hinv := BufferPool.deallocate_spec h.pool_inv (List.mem_toFinset.2 hr)
        refine ⟨h.nodup.erase r, ?_⟩
        have herase : (s.live.erase r).toFinset = s.live.toFinset.erase r := by
          ext q
          rw [List.mem_toFinset, h.nodup.mem_erase_iff, Finset.mem_erase, List.mem_toFinset]
        show BufferPool.Inv _ (s.live.erase r).toFinset
        rwa [herase]
      · exact h

/-- Regions of different blocks, or of different parts of one block, have different addresses. -/
theorem addr_apart {blockBytes : Nat} {r q : Region} (hr : r.offset + r.len ≤ blockBytes)
    (hq : q.offset + q.len ≤ blockBytes) (h : r.Apart q) :
    r.block * blockBytes + r.offset + r.len ≤ q.block * blockBytes + q.offset ∨
      q.block * blockBytes + q.offset + q.len ≤ r.block * blockBytes + r.offset := by
  rcases Nat.lt_trichotomy r.block q.block with hlt | heq | hgt
  · have := Nat.mul_le_mul_right blockBytes (Nat.succ_le_of_lt hlt)
    rw [Nat.succ_mul] at this
    omega
  · rcases h with hne | h | h
    · exact absurd heq hne
    · rw [heq]
      omega
    · rw [heq]
      omega
  · have := Nat.mul_le_mul_right blockBytes (Nat.succ_le_of_lt hgt)
    rw [Nat.succ_mul] at this
    omega

theorem PoolState.Inv.safe (h : s.Inv) : PoolSafe s := by
  have hinside : ∀ r ∈ s.live,
      r.block < s.pool.blocks.numBlocks ∧ r.offset + r.len ≤ s.pool.blocks.blockBytes := by
    intro r hr
    have hlive := List.mem_toFinset.2 hr
    obtain ⟨hlen, hend⟩ := h.pool_inv.region_within hlive
    exact ⟨h.pool_inv.arena_lt _ (h.pool_inv.live_arena r hlive), by omega⟩
  refine ⟨?_, hinside, h.pool_inv.free_iff, h.pool_inv.free_nodup,
    fun bytes => h.pool_inv.allocate_none, fun hnil b hb => ?_⟩
  · refine List.Pairwise.imp_of_mem ?_ h.nodup
    intro r q hr hq hne
    exact addr_apart (hinside r hr).2 (hinside q hq).2
      (h.pool_inv.apart (List.mem_toFinset.2 hr) (List.mem_toFinset.2 hq) hne)
  · refine (h.pool_inv.free_iff b).2 ⟨hb, ?_⟩
    by_contra harena
    obtain ⟨r, hr, -⟩ := h.pool_inv.arena_live b harena
    rw [hnil] at hr
    cases hr

/-- In every run on a pool with blocks of at most 4 GiB, and with indices that fit 32 bits: the
regions handed out lie apart in their blocks, a block is free exactly when it has no arena and is on
the free stack once, a request fails only for lack of room, and when every region is back all blocks
are free. -/
theorem buffer_pool_safe {totalBytes blockBytes minAlloc : Nat} {pool : BufferPool}
    (hcreate : BufferPool.tryCreate totalBytes blockBytes minAlloc = .ok pool)
    (hblock : blockBytes ≤ wrap32) (hcount : totalBytes / blockBytes < wrap32) (ops : List PoolOp) :
    PoolSafe (run PoolState.step ⟨pool, []⟩ ops) := by
  obtain ⟨hmin, ⟨k, hk⟩, rfl⟩ := BufferPool.try_create_ok hcreate hcount
  have hle : k ≤ 64 := by
    obtain ⟨a, ha⟩ := hmin
    have hpow : 2 ^ k ≤ 2 ^ 32 := by
      refine Nat.le_trans (Nat.le_mul_of_pos_left _ (Nat.two_pow_pos a)) ?_
      rw [← ha, ← hk]
      exact hblock
    exact ((Nat.pow_le_pow_iff_right (by decide)).1 hpow).trans (by decide)
  refine (invariant_run (I := PoolState.Inv) (fun _ op _ h => h.step op)
    ⟨List.nodup_nil, ?_⟩ (allowed_true _ _ ops)).safe
  exact BufferPool.create_inv hmin ⟨k, hle, hk⟩ hblock

/-- Two regions, one of which comes back, on a pool of two 8 KiB blocks. -/
theorem buffer_pool_safe_two_blocks :
    ∃ pool, BufferPool.tryCreate 16384 8192 4096 = .ok pool ∧
      PoolSafe (run PoolState.step ⟨pool, []⟩ [.alloc 8192, .alloc 100, .free ⟨0, 0, 8192⟩]) :=
  ⟨_, rfl, @buffer_pool_safe 16384 8192 4096 _ rfl (by decide) (by decide) _⟩

/-- One block of 8 GiB: the fifth region of 1 GiB is the first one once more. -/
theorem wide_block_regions_overlap :
    ∃ pool, BufferPool.tryCreate (2 ^ 33) (2 ^ 33) 4096 = .ok pool ∧
      (run PoolState.step ⟨pool, []⟩ (List.replicate 5 (.alloc (2 ^ 30)))).live =
        [⟨0, 0, 2 ^ 30⟩, ⟨0, 3 * 2 ^ 30, 2 ^ 30⟩, ⟨0, 2 * 2 ^ 30, 2 ^ 30⟩, ⟨0, 2 ^ 30, 2 ^ 30⟩,
          ⟨0, 0, 2 ^ 30⟩] :=
  ⟨_, rfl, by decide +kernel⟩

end GoblinStore.Core
