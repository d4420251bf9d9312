import GoblinStore.Common.Types
import GoblinStore.Core.BuddyAllocator
import Mathlib.Data.UInt

/-!
# The head pool and the pools of I/O buffers

`BlockPool` is a stack of free block indices, `BufferPool` runs one buddy arena per block in
use and `IoBufferPool` hands out whole blocks. A `Region` stores its offset in 32 bits, so
`BufferPool.Inv`, which relates a pool to the set of regions handed out, requires blocks of at
most 4 GiB. Under it, `allocate_spec` returns a region that overlaps no live region and
`deallocate_spec` gives a live region back.
-/

namespace GoblinStore.Core

open GoblinStore.Lib

/-- Equal blocks of RAM with a stack of free indices, last element on top. -/
structure BlockPool where
  blockBytes : Nat
  numBlocks : Nat
  free : List Nat

namespace BlockPool

/-- All blocks are free; block 0 is on top. -/
def create (blockBytes numBlocks : Nat) : BlockPool :=
  ⟨blockBytes, numBlocks, (List.range numBlocks).reverse⟩

/-- Pop a free block. -/
def acquire (pool : BlockPool) : Option (Nat × BlockPool) :=
  pool.free.getLast?.map fun index => (index, { pool with free := pool.free.dropLast })

/-- Push a block back. -/
def release (pool : BlockPool) (index : Nat) : BlockPool :=
  { pool with free := pool.free ++ [index] }

end BlockPool

/-- A sub-block buffer: `len` bytes at `offset` of block `block`. It also locates a RAM head and
a pinned head; the data pointer is `addr block offset`. -/
structure Region where
  block : Nat
  offset : Nat
  len : Nat
  deriving DecidableEq, Repr

/-- Two regions share no byte. -/
def Region.Apart (r q : Region) : Prop :=
  r.block ≠ q.block ∨ r.offset + r.len ≤ q.offset ∨ q.offset + q.len ≤ r.offset

/-- The buddy block behind a region. -/
def Region.blockIn (minAlloc : Nat) (r : Region) : Block :=
  ⟨r.offset, BuddyAllocator.orderOf minAlloc r.len⟩

/-- Buddy allocation inside the blocks of a block pool: the RAM of the head cache. -/
structure BufferPool where
  blocks : BlockPool
  minAlloc : Nat
  arenas : Nat → Option BuddyAllocator

namespace BufferPool

/-- A pool with every block free. -/
def create (blockBytes numBlocks minAlloc : Nat) : BufferPool :=
  ⟨BlockPool.create blockBytes numBlocks, minAlloc, fun _ => none⟩

/-- Try the arenas that are in use, in index order. -/
def tryArenas (pool : BufferPool) (bytes : Nat) : List Nat → Option (Region × BufferPool)
  | [] => none
  | b :: rest =>
      match pool.arenas b with
      | none => tryArenas pool bytes rest
      | some arena =>
          match arena.allocate bytes with
          | none => tryArenas pool bytes rest
          | some (off, next) =>
              some (⟨b, off % wrap32, bytes⟩,
                { pool with arenas := Function.update pool.arenas b (some next) })

/-- Hand out a region of `bytes` bytes, opening a fresh block when no arena has room. -/
def allocate (pool : BufferPool) (bytes : Nat) : Option (Region × BufferPool) :=
  if bytes = 0 ∨ bytes > pool.blocks.blockBytes then none
  else
    match pool.tryArenas bytes (List.range pool.blocks.numBlocks) with
    | some found => some found
    | none =>
        match pool.blocks.acquire with
        | none => none
        | some (blk, blocks) =>
            -- a fresh arena serves the request, so the source dereferences without a check
            match (BuddyAllocator.create pool.blocks.blockBytes pool.minAlloc).allocate bytes with
            | none => none
            | some (off, arena) =>
                some (⟨blk, off % wrap32, bytes⟩,
                  { pool with
                    blocks := blocks
                    arenas := Function.update pool.arenas blk (some arena) })

variable {next : BufferPool} {bytes : Nat} {r : Region}

/-- A region has the requested length. -/
theorem try_arenas_len {pool : BufferPool} {indices : List Nat}
    (h : pool.tryArenas bytes indices = some (r, next)) : r.len = bytes := by
  induction indices with
  | nil => cases h
  | cons b rest ih =>
      rw [tryArenas] at h
      split at h
      · exact ih h
      · split at h
        · exact ih h
        · cases h
          rfl

/-- A region has the requested length. -/
theorem allocate_len {pool : BufferPool}
    (h : pool.allocate bytes = some (r, next)) : r.len = bytes := by
  unfold allocate at h
  split_ifs at h
  split at h
  · rename_i found hfound
    cases h
    exact try_arenas_len hfound
  · split at h
    · cases h
    · split at h
      · cases h
      · cases h
        rfl

/-- Give a region back; a block whose arena empties returns to the block pool. -/
def deallocate (pool : BufferPool) (block offset bytes : Nat) : BufferPool :=
  if block ≥ pool.blocks.numBlocks then pool
  else
    match pool.arenas block with
    | none => pool
    | some arena =>
        let next := arena.deallocate offset bytes
        if next.used = 0 then
          { pool with
            arenas := Function.update pool.arenas block none
            blocks := pool.blocks.release block }
        else { pool with arenas := Function.update pool.arenas block (some next) }

/-- The pool's state when exactly the regions of `live` are handed out. -/
structure Inv (pool : BufferPool) (live : Finset Region) : Prop where
  unit_pow : ∃ a, pool.minAlloc = 2 ^ a
  block_eq : ∃ k ≤ 64, pool.blocks.blockBytes = pool.minAlloc * 2 ^ k
  block_le : pool.blocks.blockBytes ≤ wrap32
  free_nodup : pool.blocks.free.Nodup
  free_iff : ∀ b, b ∈ pool.blocks.free ↔ b < pool.blocks.numBlocks ∧ pool.arenas b = none
  arena_lt : ∀ b, pool.arenas b ≠ none → b < pool.blocks.numBlocks
  arena_geometry : ∀ b arena, pool.arenas b = some arena →
    arena.minBlock = pool.minAlloc ∧ arena.arenaSize = pool.blocks.blockBytes
  arena_inv : ∀ b arena, pool.arenas b = some arena →
    arena.Inv (live.filter (·.block = b)) (Region.blockIn pool.minAlloc)
  live_arena : ∀ r ∈ live, pool.arenas r.block ≠ none
  arena_live : ∀ b, pool.arenas b ≠ none → ∃ r ∈ live, r.block = b
  live_len : ∀ r ∈ live, 0 < r.len ∧ r.len ≤ pool.blocks.blockBytes

variable {pool : BufferPool} {live : Finset Region}

/-- The bytes of a live region lie in its buddy block, inside the RAM block. -/
theorem Inv.region_within (h : pool.Inv live) (hr : r ∈ live) :
    r.len ≤ (r.blockIn pool.minAlloc).len pool.minAlloc ∧
      r.offset + (r.blockIn pool.minAlloc).len pool.minAlloc ≤ pool.blocks.blockBytes := by
  obtain ⟨k, hk, hblock⟩ := h.block_eq
  obtain ⟨arena, harena⟩ := Option.ne_none_iff_exists'.1 (h.live_arena r hr)
  obtain ⟨hmin, hsize⟩ := h.arena_geometry _ _ harena
  have hinv := h.arena_inv _ _ harena
  constructor
  · refine BuddyAllocator.le_order_of ?_
    have hlen := (h.live_len r hr).2
    rw [hblock] at hlen
    exact hlen.trans (Nat.mul_le_mul_left _ (Nat.pow_le_pow_right (by omega) hk))
  · have hin := (hinv.lists.live_within r (Finset.mem_filter.2 ⟨hr, rfl⟩)).2
    rwa [← hinv.arena_eq, hsize, hmin] at hin

/-- Offsets of live regions fit 32 bits. -/
theorem Inv.offset_lt (h : pool.Inv live) (hr : r ∈ live) :
    r.offset < wrap32 := by
  have := h.block_le
  have := (h.live_len r hr).1
  obtain ⟨_, _⟩ := h.region_within hr
  omega

/-- Distinct live regions do not overlap. -/
theorem Inv.apart (h : pool.Inv live) {q : Region} (hr : r ∈ live) (hq : q ∈ live)
    (hne : r ≠ q) : r.Apart q := by
  by_cases hblk : r.block = q.block
  · obtain ⟨arena, harena⟩ := Option.ne_none_iff_exists'.1 (h.live_arena r hr)
    obtain ⟨hmin, -⟩ := h.arena_geometry _ _ harena
    have hap := (h.arena_inv _ _ harena).lists.live_apart r (Finset.mem_filter.2 ⟨hr, rfl⟩) q
      (Finset.mem_filter.2 ⟨hq, hblk.symm⟩) hne
    obtain ⟨hr1, -⟩ := h.region_within hr
    obtain ⟨hq1, -⟩ := h.region_within hq
    rw [hmin] at hap
    simp only [Block.Apart, Region.blockIn] at hap hr1 hq1
    exact Or.inr (by omega)
  · exact Or.inl hblk

/-- Live regions at one place are one region. -/
theorem Inv.eq_of_place_eq (h : pool.Inv live) {q : Region} (hr : r ∈ live) (hq : q ∈ live)
    (hblock : r.block = q.block) (hoff : r.offset = q.offset) : r = q := by
  by_contra hne
  have h1 := (h.live_len r hr).1
  have h2 := (h.live_len q hq).1
  rcases h.apart hr hq hne with h3 | h3 | h3 <;> omega

/-- A new pool has nothing handed out. -/
theorem create_inv {blockBytes numBlocks minAlloc : Nat} (hunit : ∃ a, minAlloc = 2 ^ a)
    (hblock : ∃ k ≤ 64, blockBytes = minAlloc * 2 ^ k) (hle : blockBytes ≤ wrap32) :
    (create blockBytes numBlocks minAlloc).Inv ∅ where
  unit_pow := hunit
  block_eq := hblock
  block_le := hle
  free_nodup := List.nodup_reverse.2 List.nodup_range
  free_iff b := by simp [create, BlockPool.create]
  arena_lt b hb := absurd rfl hb
  arena_geometry b arena hb := by cases hb
  arena_inv b arena hb := by cases hb
  live_arena r hr := by cases hr
  arena_live b hb := absurd rfl hb
  live_len r hr := by cases hr

/-- Handing out `off` of the arena of block `b`, which serves the request next. -/
theorem Inv.insert_region (h : pool.Inv live) {blocks : BlockPool} {arena next : BuddyAllocator}
    {b off : Nat} (hlt : b < pool.blocks.numBlocks)
    (hbytes : 0 < bytes ∧ bytes ≤ pool.blocks.blockBytes)
    (hgeo : arena.minBlock = pool.minAlloc ∧ arena.arenaSize = pool.blocks.blockBytes)
    (hinv : arena.Inv (live.filter (·.block = b)) (Region.blockIn pool.minAlloc))
    (halloc : arena.allocate bytes = some (off, next))
    (hblocks : blocks.blockBytes = pool.blocks.blockBytes ∧
      blocks.numBlocks = pool.blocks.numBlocks ∧ blocks.free.Nodup ∧
      ∀ c, c ∈ blocks.free ↔ c ∈ pool.blocks.free ∧ c ≠ b) :
    (⟨b, off % wrap32, bytes⟩ : Region) ∉ live ∧
      Inv { pool with blocks := blocks, arenas := Function.update pool.arenas b (some next) }
        (insert ⟨b, off % wrap32, bytes⟩ live) := by
  obtain ⟨hmin, hmax, hwithin, hapart, hnext⟩ := BuddyAllocator.allocate_spec hinv halloc
  obtain ⟨hbb, hnb, hnd, hfree⟩ := hblocks
  have hpos : 0 < arena.minBlock := hinv.lists.unit_pos
  -- the arena offset fits 32 bits, so the cast of the source changes nothing
  have hoff : off % wrap32 = off := by
    refine Nat.mod_eq_of_lt ?_
    have h1 : off + _ ≤ arena.arenaSize := hwithin.2
    have h2 := Block.len_pos hpos ⟨off, arena.orderFor bytes⟩
    have h3 := h.block_le
    rw [hgeo.2] at h1
    omega
  rw [hoff]
  have hblk : Region.blockIn pool.minAlloc ⟨b, off, bytes⟩ = ⟨off, arena.orderFor bytes⟩ := by
    rw [Region.blockIn, BuddyAllocator.orderFor, hgeo.1]
  have hnot : (⟨b, off, bytes⟩ : Region) ∉ live := by
    intro hin
    have hself := hapart _ (Finset.mem_filter.2 ⟨hin, rfl⟩)
    rw [hblk] at hself
    exact Block.not_apart_self hpos hself
  refine ⟨hnot, ?_⟩
  have hnotFilter : (⟨b, off, bytes⟩ : Region) ∉ live.filter (·.block = b) :=
    fun hin => hnot (Finset.mem_filter.1 hin).1
  have hnextInv := hnext _ hblk hnotFilter
  have hsize : next.arenaSize = pool.blocks.blockBytes := by
    rw [hnextInv.arena_eq, hmin, hmax, ← hinv.arena_eq, hgeo.2]
  constructor
  · exact h.unit_pow
  · simpa only [hbb] using h.block_eq
  · simpa only [hbb] using h.block_le
  · exact hnd
  · intro c
    rw [hfree, h.free_iff]
    by_cases hc : c = b
    · subst hc
      simp
    · simp [hc, hnb]
  · intro c hc
    by_cases hcb : c = b
    · subst hcb
      rw [hnb]
      exact hlt
    · rw [hnb]
      exact h.arena_lt c (by simpa [hcb] using hc)
  · intro c ar har
    by_cases hcb : c = b
    · subst hcb
      simp only [Function.update_self, Option.some.injEq] at har
      subst har
      exact ⟨by rw [hmin, hgeo.1], by rw [hsize, hbb]⟩
    · rw [hbb]
      exact h.arena_geometry c ar (by simpa [hcb] using har)
  · intro c ar har
    rw [Finset.filter_insert]
    by_cases hcb : c = b
    · subst hcb
      simp only [Function.update_self, Option.some.injEq] at har
      subst har
      simpa using hnextInv
    · rw [if_neg (by simpa using Ne.symm hcb)]
      exact h.arena_inv c ar (by simpa [hcb] using har)
  · intro q hq
    rcases Finset.mem_insert.1 hq with rfl | hq
    · simp
    · by_cases hqb : q.block = b
      · simp [hqb]
      · simpa [hqb] using h.live_arena q hq
  · intro c hc
    by_cases hcb : c = b
    · subst hcb
      exact ⟨_, Finset.mem_insert_self _ _, rfl⟩
    · obtain ⟨q, hq, hqc⟩ := h.arena_live c (by simpa [hcb] using hc)
      exact ⟨q, Finset.mem_insert_of_mem hq, hqc⟩
  · intro q hq
    rcases Finset.mem_insert.1 hq with rfl | hq
    · simpa only [hbb] using hbytes
    · simpa only [hbb] using h.live_len q hq

/-- An arena that is tried hands out a fresh region. -/
theorem try_arenas_spec (h : pool.Inv live)
    (hbytes : 0 < bytes ∧ bytes ≤ pool.blocks.blockBytes) {indices : List Nat}
    (htry : pool.tryArenas bytes indices = some (r, next)) :
    r.len = bytes ∧ r ∉ live ∧ next.Inv (insert r live) := by
  induction indices with
  | nil => cases htry
  | cons b rest ih =>
      rw [tryArenas] at htry
      split at htry
      · exact ih htry
      · rename_i arena harena
        split at htry
        · exact ih htry
        · rename_i off nextArena halloc
          simp only [Option.some.injEq, Prod.mk.injEq] at htry
          obtain ⟨rfl, rfl⟩ := htry
          have hlt := h.arena_lt b (by simp [harena])
          refine ⟨rfl, h.insert_region hlt hbytes (h.arena_geometry b arena harena)
            (h.arena_inv b arena harena) halloc ⟨rfl, rfl, h.free_nodup, ?_⟩⟩
          intro c
          constructor
          · intro hc
            refine ⟨hc, ?_⟩
            rintro rfl
            simp [((h.free_iff c).1 hc).2] at harena
          · exact And.left

/-- A region handed out was not live, has the requested length, and joins the live ones. -/
theorem allocate_spec (h : pool.Inv live) (halloc : pool.allocate bytes = some (r, next)) :
    r.len = bytes ∧ r ∉ live ∧ next.Inv (insert r live) := by
  unfold allocate at halloc
  split_ifs at halloc with hsize
  have hbytes : 0 < bytes ∧ bytes ≤ pool.blocks.blockBytes := by omega
  split at halloc
  · rename_i found hfound
    cases halloc
    exact try_arenas_spec h hbytes hfound
  · unfold BlockPool.acquire at halloc
    cases hlast : pool.blocks.free.getLast? with
    | none => simp [hlast] at halloc
    | some blk =>
        simp only [hlast, Option.map_some] at halloc
        split at halloc
        · cases halloc
        · rename_i off arena hcreate
          simp only [Option.some.injEq, Prod.mk.injEq] at halloc
          obtain ⟨rfl, rfl⟩ := halloc
          have hmem := List.mem_of_getLast? hlast
          obtain ⟨hlt, hnone⟩ := (h.free_iff blk).1 hmem
          have happ := List.dropLast_append_getLast? blk hlast
          have hnd := h.free_nodup
          rw [← happ, List.nodup_append] at hnd
          obtain ⟨a, ha⟩ := h.unit_pow
          obtain ⟨k, hk, hblock⟩ := h.block_eq
          -- no live region lies in a block without an arena
          have hempty : live.filter (·.block = blk) = ∅ := by
            refine Finset.filter_eq_empty_iff.2 fun q hq hqb => ?_
            exact h.live_arena q hq (hqb ▸ hnone)
          refine ⟨rfl, h.insert_region hlt hbytes ⟨rfl, rfl⟩ ?_ hcreate ⟨rfl, rfl, hnd.1, ?_⟩⟩
          · rw [hempty, hblock, ha]
            exact BuddyAllocator.create_inv hk
          · intro c
            conv_rhs => rw [← happ]
            simp only [List.mem_append, List.mem_singleton]
            constructor
            · intro hc
              refine ⟨Or.inl hc, ?_⟩
              rintro rfl
              exact hnd.2.2 c hc c (List.mem_singleton_self c) rfl
            · rintro ⟨hc | hc, hne⟩
              · exact hc
              · exact absurd hc hne

/-- Arenas of other blocks do not see a region. -/
theorem filter_erase_of_ne {c : Nat} (hc : c ≠ r.block) :
    (live.erase r).filter (·.block = c) = live.filter (·.block = c) := by
  rw [Finset.filter_erase, Finset.erase_eq_of_notMem]
  simp [Ne.symm hc]

theorem Inv.arena_live_erase (h : pool.Inv live) {c : Nat} (hc : c ≠ r.block)
    (harena : pool.arenas c ≠ none) : ∃ q ∈ live.erase r, q.block = c := by
  obtain ⟨q, hq, hqc⟩ := h.arena_live c harena
  refine ⟨q, Finset.mem_erase.2 ⟨?_, hq⟩, hqc⟩
  rintro rfl
  exact hc hqc.symm

section

variable {arena : BuddyAllocator}

/-- The last region of a block is given back, and the block with it. -/
theorem Inv.release_block (h : pool.Inv live) (harena : pool.arenas r.block = some arena)
    (hempty : (live.filter (·.block = r.block)).erase r = ∅) :
    Inv { pool with
      arenas := Function.update pool.arenas r.block none
      blocks := pool.blocks.release r.block } (live.erase r) := by
  have hlt := h.arena_lt r.block (by simp [harena])
  constructor
  · exact h.unit_pow
  · exact h.block_eq
  · exact h.block_le
  · refine List.Nodup.append h.free_nodup (List.nodup_singleton _) ?_
    intro c hc hc'
    rw [List.mem_singleton] at hc'
    subst hc'
    simp [((h.free_iff _).1 hc).2] at harena
  · intro c
    simp only [BlockPool.release, List.mem_append, List.mem_singleton, h.free_iff]
    by_cases hc : c = r.block
    · subst hc
      simp [hlt]
    · simp [hc]
  · intro c hc
    by_cases hcb : c = r.block
    · simp [hcb] at hc
    · exact h.arena_lt c (by simpa [hcb] using hc)
  · intro c ar har
    by_cases hcb : c = r.block
    · simp [hcb] at har
    · exact h.arena_geometry c ar (by simpa [hcb] using har)
  · intro c ar har
    by_cases hcb : c = r.block
    · simp [hcb] at har
    · simp only [filter_erase_of_ne hcb]
      exact h.arena_inv c ar (by simpa [hcb] using har)
  · intro q hq
    obtain ⟨hne, hq⟩ := Finset.mem_erase.1 hq
    by_cases hqb : q.block = r.block
    · have hin : q ∈ (live.filter (·.block = r.block)).erase r :=
        Finset.mem_erase.2 ⟨hne, Finset.mem_filter.2 ⟨hq, hqb⟩⟩
      rw [hempty] at hin
      cases hin
    · simpa [hqb] using h.live_arena q hq
  · intro c hc
    by_cases hcb : c = r.block
    · simp [hcb] at hc
    · exact h.arena_live_erase hcb (by simpa [hcb] using hc)
  · intro q hq
    exact h.live_len q (Finset.mem_of_mem_erase hq)

/-- A region is given back to an arena that stays in use for another one. -/
theorem Inv.release_region (h : pool.Inv live) (harena : pool.arenas r.block ≠ none)
    (hgeo : arena.minBlock = pool.minAlloc ∧ arena.arenaSize = pool.blocks.blockBytes)
    (hinv : arena.Inv ((live.filter (·.block = r.block)).erase r) (Region.blockIn pool.minAlloc))
    (hused : arena.used ≠ 0) :
    Inv { pool with arenas := Function.update pool.arenas r.block (some arena) }
      (live.erase r) := by
  have hsame : (live.erase r).filter (·.block = r.block) =
      (live.filter (·.block = r.block)).erase r := Finset.filter_erase _ _ _
  constructor
  · exact h.unit_pow
  · exact h.block_eq
  · exact h.block_le
  · exact h.free_nodup
  · intro c
    rw [h.free_iff]
    by_cases hc : c = r.block
    · subst hc
      simp [harena]
    · simp [hc]
  · intro c hc
    by_cases hcb : c = r.block
    · subst hcb
      exact h.arena_lt _ harena
    · exact h.arena_lt c (by simpa [hcb] using hc)
  · intro c ar har
    by_cases hcb : c = r.block
    · subst hcb
      simp only [Function.update_self, Option.some.injEq] at har
      subst har
      exact hgeo
    · exact h.arena_geometry c ar (by simpa [hcb] using har)
  · intro c ar har
    by_cases hcb : c = r.block
    · subst hcb
      simp only [Function.update_self, Option.some.injEq] at har
      subst har
      simpa only [hsame] using hinv
    · simp only [filter_erase_of_ne hcb]
      exact h.arena_inv c ar (by simpa [hcb] using har)
  · intro q hq
    have hq' := Finset.mem_of_mem_erase hq
    by_cases hqb : q.block = r.block
    · simp [hqb]
    · simpa [hqb] using h.live_arena q hq'
  · intro c hc
    by_cases hcb : c = r.block
    · -- bytes are in use, so another region is
      subst hcb
      have hne : (live.filter (·.block = r.block)).erase r ≠ ∅ := by
        intro hempty
        rw [hempty] at hinv
        exact hused (by rw [hinv.used_eq, Finset.sum_empty])
      obtain ⟨q, hq⟩ := Finset.nonempty_iff_ne_empty.2 hne
      rw [← hsame, Finset.mem_filter] at hq
      exact ⟨q, hq⟩
    · exact h.arena_live_erase hcb (by simpa [hcb] using hc)
  · intro q hq
    exact h.live_len q (Finset.mem_of_mem_erase hq)

end

/-- A live region that is given back leaves the live ones. -/
theorem deallocate_spec (h : pool.Inv live) (hr : r ∈ live) :
    (pool.deallocate r.block r.offset r.len).Inv (live.erase r) := by
  obtain ⟨arena, harena⟩ := Option.ne_none_iff_exists'.1 (h.live_arena r hr)
  have hlt := h.arena_lt r.block (h.live_arena r hr)
  obtain ⟨hgmin, hgsize⟩ := h.arena_geometry _ _ harena
  have hinv := h.arena_inv _ _ harena
  have hblk : Region.blockIn pool.minAlloc r = ⟨r.offset, arena.orderFor r.len⟩ := by
    rw [Region.blockIn, BuddyAllocator.orderFor, hgmin]
  obtain ⟨hmin, hmax, hnext⟩ := BuddyAllocator.deallocate_spec hinv
    (Finset.mem_filter.2 ⟨hr, rfl⟩) hblk
  have hsize : (arena.deallocate r.offset r.len).arenaSize = pool.blocks.blockBytes := by
    rw [hnext.arena_eq, hmin, hmax, ← hinv.arena_eq, hgsize]
  unfold deallocate
  rw [if_neg (by omega)]
  simp only [harena]
  split_ifs with hused
  · exact h.release_block harena (hnext.live_eq_empty hused)
  · exact h.release_region (h.live_arena r hr) ⟨hmin.trans hgmin, hsize⟩ hnext hused

end BufferPool

end GoblinStore.Core
