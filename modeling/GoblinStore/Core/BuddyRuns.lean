import GoblinStore.Common.Types
import GoblinStore.Core.BuddyAllocator
import GoblinStore.Lib.Runs
import Mathlib.Order.Interval.Finset.Nat

/-!
# Runs of a buddy allocator

Any sequence of `allocate` calls and of `deallocate` calls for blocks that are handed out, with the
sizes they were handed out for. Besides what `BuddyAllocator.Inv` says, the free and the live blocks
cover the arena, and no two buddies are free at the same order (`Full`). So an aligned block that no
live block touches lies in a free block (`Full.inside_free`): a request fails only if there is no
room for it, and when everything has come back the arena is one free block again
(`buddy_allocator_correct`).
-/

namespace GoblinStore.Core

open GoblinStore.Lib

namespace BuddyAllocator

variable {ι : Type*}

/-! ## Nothing is lost, and what can be merged is merged -/

/-- A position in a free block. -/
def FreeCovers (unit : Nat) (free : Nat → List Nat) (x : Nat) : Prop :=
  ∃ o off, off ∈ free o ∧ Block.Covers unit ⟨off, o⟩ x

/-- No two buddies are free at one order. -/
def NoBuddies (unit top : Nat) (free : Nat → List Nat) : Prop :=
  ∀ o < top, ∀ off ∈ free o, (Block.buddy unit ⟨off, o⟩).off ∉ free o

/-- Every position of the arena is in a free or a live block, and no two buddies are free. -/
structure Full (unit top : Nat) (free : Nat → List Nat) (live : Finset ι)
    (blk : ι → Block) : Prop where
  covered : ∀ x < unit * 2 ^ top, FreeCovers unit free x ∨ ∃ i ∈ live, (blk i).Covers unit x
  no_buddies : NoBuddies unit top free

variable {unit top : Nat} {free : Nat → List Nat} {live : Finset ι} {blk : ι → Block}

variable {x : Nat}

theorem FreeCovers.mono {more : Nat → List Nat} (h : FreeCovers unit free x)
    (hsub : ∀ o, free o ⊆ more o) : FreeCovers unit more x := by
  obtain ⟨o, off, hmem, hx⟩ := h
  exact ⟨o, off, hsub o hmem, hx⟩

/-- An aligned block that no live block touches is inside a free block. -/
theorem Full.inside_free (hfull : Full unit top free live blk) (h : FreeInv unit top free live blk)
    {b : Block} (horder : b.order ≤ top) (hb : b.Within unit (unit * 2 ^ top))
    (hlive : ∀ i ∈ live, b.Apart unit (blk i)) :
    ∃ o off, off ∈ free o ∧ b.order ≤ o ∧ off ≤ b.off ∧
      b.off + b.len unit ≤ off + unit * 2 ^ o := by
  obtain ⟨off, order⟩ := b
  induction order generalizing off with
  | zero =>
      have hlen := Block.len_pos h.unit_pos ⟨off, 0⟩
      have hstart : Block.Covers unit ⟨off, 0⟩ off := ⟨le_rfl, by simp only; omega⟩
      rcases hfull.covered off (by have := hb.2; simp only at this; omega) with
        ⟨o, y, hmem, hy⟩ | ⟨i, hi, hx⟩
      · have hnest := Block.nested (h.free_within o y hmem).1 hb.1 (Nat.zero_le o)
          fun hapart => hapart.not_covers hy hstart
        exact ⟨o, y, hmem, Nat.zero_le o, hnest⟩
      · exact absurd hx ((hlive i hi).not_covers hstart)
  | succ k ih =>
      have hk : k + 1 ≤ top := horder
      have hhalves := fun i hi => Block.apart_halves (hlive i hi)
      -- a free block of a higher order that overlaps the block contains it
      have hlarge : ∀ o y x, y ∈ free o → k + 1 ≤ o → Block.Covers unit ⟨y, o⟩ x →
          Block.Covers unit ⟨off, k + 1⟩ x →
          ∃ o off', off' ∈ free o ∧ k + 1 ≤ o ∧ off' ≤ off ∧
          off + (⟨off, k + 1⟩ : Block).len unit ≤ off' + unit * 2 ^ o := by
        intro o y x hmem ho hy hx
        exact ⟨o, y, hmem, ho, Block.nested (h.free_within o y hmem).1 hb.1 ho fun hapart =>
          hapart.not_covers hy hx⟩
      have hunit := Nat.mul_pos h.unit_pos (Nat.two_pow_pos k)
      have hlen : unit * 2 ^ (k + 1) = unit * 2 ^ k + unit * 2 ^ k := Block.len_succ unit off k
      obtain ⟨o, y, hmem, ho, hlow, hhigh⟩ := ih off (Nat.le_of_succ_le hk) (Block.within_lower hb)
        (fun i hi => (hhalves i hi).1)
      obtain ⟨o', y', hmem', ho', hlow', hhigh'⟩ := ih (off + unit * 2 ^ k) (Nat.le_of_succ_le hk)
        (Block.within_upper hb) (fun i hi => (hhalves i hi).2)
      simp only [Block.len] at hlow hhigh hlow' hhigh' ho ho'
      rcases Nat.lt_or_ge k o with hlt | hge
      · refine hlarge o y off hmem hlt ⟨hlow, ?_⟩ ⟨le_rfl, ?_⟩ <;> simp only [Block.len] <;> omega
      rcases Nat.lt_or_ge k o' with hlt' | hge'
      · refine hlarge o' y' (off + unit * 2 ^ k) hmem' hlt' ⟨hlow', ?_⟩ ⟨?_, ?_⟩ <;>
          simp only [Block.len] <;> omega
      · -- otherwise the two halves are free, and they are buddies
        obtain rfl : o = k := by omega
        obtain rfl : o' = o := by omega
        obtain rfl : y = off := by omega
        obtain rfl : y' = y + unit * 2 ^ o' := by omega
        refine absurd hmem' ?_
        rw [← Block.buddy_lower h.unit_pow hb.1]
        exact hfull.no_buddies o' hk y hmem

/-! ## Splitting and merging -/

variable {off target k : Nat}

theorem mem_split_down {o : Nat} :
    x ∈ splitDown unit off target k free o ↔
      x ∈ free o ∨ (target ≤ o ∧ o < target + k ∧ x = off + unit * 2 ^ o) := by
  induction k generalizing free with
  | zero =>
      refine ⟨Or.inl, fun h => h.resolve_right fun h => ?_⟩
      omega
  | succ k ih =>
      rw [splitDown, ih, mem_push_back]
      constructor
      · rintro ((h | ⟨rfl, rfl⟩) | ⟨hlow, hhigh, rfl⟩)
        · exact Or.inl h
        · exact Or.inr ⟨by omega, by omega, rfl⟩
        · exact Or.inr ⟨hlow, by omega, rfl⟩
      · rintro (h | ⟨hlow, hhigh, rfl⟩)
        · exact Or.inl (Or.inl h)
        · rcases Nat.lt_or_ge o (target + k) with hlt | hge
          · exact Or.inr ⟨hlow, hlt, rfl⟩
          · obtain rfl : o = target + k := by omega
            exact Or.inl (Or.inr ⟨rfl, rfl⟩)

/-- The parts of a block that is split down. -/
theorem split_down_covers (hx : Block.Covers unit ⟨off, target + k⟩ x) :
    Block.Covers unit ⟨off, target⟩ x ∨ FreeCovers unit (splitDown unit off target k free) x := by
  induction k generalizing free with
  | zero => exact Or.inl hx
  | succ k ih =>
      rcases Block.covers_halves hx with hlower | hupper
      · exact ih hlower
      · refine Or.inr ⟨target + k, off + unit * 2 ^ (target + k),
          mem_split_down.2 (Or.inr ⟨?_, ?_, rfl⟩), hupper⟩ <;>
          omega

/-- Splitting down through orders without free blocks leaves no buddies. -/
theorem NoBuddies.split_down (h : NoBuddies unit top free) (hunit : 0 < unit)
    (hempty : ∀ o, target ≤ o → o < target + k → free o = []) :
    NoBuddies unit top (splitDown unit off target k free) := by
  intro o ho y hy hbuddy
  rw [mem_split_down] at hy hbuddy
  rcases hy with hy | ⟨hlow, hhigh, rfl⟩
  · rcases hbuddy with hbuddy | ⟨hlow, hhigh, -⟩
    · exact h o ho y hy hbuddy
    · rw [hempty o hlow hhigh] at hy
      cases hy
  · rcases hbuddy with hbuddy | ⟨-, -, heq⟩
    · rw [hempty o hlow hhigh] at hbuddy
      cases hbuddy
    · exact Block.buddy_ne hunit heq

theorem NoBuddies.mono {less : Nat → List Nat} (h : NoBuddies unit top free)
    (hsub : ∀ o, less o ⊆ free o) :
    NoBuddies unit top less := fun o ho y hy hbuddy => h o ho y (hsub o hy) (hsub o hbuddy)

theorem update_erase_subset (order x : Nat) (o : Nat) :
    Function.update free order ((free order).erase x) o ⊆ free o := by
  by_cases ho : o = order
  · subst ho
    simpa using List.erase_subset
  · simp [ho]

/-- Merging stops where the buddy is not free. -/
theorem NoBuddies.coalesce {order cur : Nat} (h : NoBuddies unit top free) (hk : order + k = top)
    (hunit : 0 < unit) : NoBuddies unit top (coalesce unit k free order cur) := by
  have hpush : ∀ {free : Nat → List Nat} {order cur : Nat}, NoBuddies unit top free →
      (order < top → cur ^^^ (unit * 2 ^ order) ∉ free order) →
      NoBuddies unit top (pushBack free order cur) := by
    intro free order cur h hbuddy o ho y hy hmem
    rw [mem_push_back] at hy hmem
    rcases hy with hy | ⟨rfl, rfl⟩
    · rcases hmem with hmem | ⟨rfl, heq⟩
      · exact h o ho y hy hmem
      · -- the buddy of the new block would have been free
        refine hbuddy ho ?_
        rw [← heq]
        show y ^^^ unit * 2 ^ o ^^^ unit * 2 ^ o ∈ free o
        rwa [Nat.xor_assoc, Nat.xor_self, Nat.xor_zero]
    · rcases hmem with hmem | ⟨-, heq⟩
      · exact hbuddy ho hmem
      · exact Block.buddy_ne hunit heq
  induction k generalizing free order cur with
  | zero => exact hpush h fun hlt => (by omega)
  | succ k ih =>
      rw [BuddyAllocator.coalesce]
      split
      · exact ih (h.mono (update_erase_subset order _)) (by omega)
      · exact hpush h fun _ => ‹_›

/-- Merging loses nothing. -/
theorem coalesce_covers {order cur : Nat} (hunit : ∃ a, unit = 2 ^ a)
    (hcur : unit * 2 ^ order ∣ cur) (h : FreeCovers unit free x ∨
      Block.Covers unit ⟨cur, order⟩ x) :
    FreeCovers unit (coalesce unit k free order cur) x := by
  have hpush : ∀ {free : Nat → List Nat} {order cur : Nat},
      FreeCovers unit free x ∨ Block.Covers unit ⟨cur, order⟩ x →
        FreeCovers unit (pushBack free order cur) x := by
    rintro free order cur (h | h)
    · exact h.mono fun o y hy => mem_push_back.2 (Or.inl hy)
    · exact ⟨order, cur, mem_push_back.2 (Or.inr ⟨rfl, rfl⟩), h⟩
  induction k generalizing free order cur with
  | zero => exact hpush h
  | succ k ih =>
      rw [coalesce]
      split
      · rw [merged_off]
        refine ih (Block.parent_aligned (b := ⟨cur, order⟩) hunit hcur) ?_
        -- the buddy that left its list is in the merged block
        have hmerged := fun hx => Block.covers_parent (b := ⟨cur, order⟩) (x := x) hunit hcur hx
        rcases h with ⟨o, y, hy, hx⟩ | hx
        · by_cases hbuddy : o = order ∧ y = cur ^^^ (unit * 2 ^ order)
          · obtain ⟨rfl, rfl⟩ := hbuddy
            exact Or.inr (hmerged (Or.inr hx))
          · refine Or.inl ⟨o, y, ?_, hx⟩
            by_cases ho : o = order
            · subst ho
              rw [Function.update_self]
              exact (List.mem_erase_of_ne fun heq => hbuddy ⟨rfl, heq⟩).2 hy
            · rwa [Function.update_of_ne ho]
        · exact Or.inr (hmerged (Or.inl hx))
      · exact hpush h

/-! ## The operations -/

section Operations

variable {arena : BuddyAllocator}

theorem create_full {a k : Nat} (hk : k ≤ 64) :
    Full (create (2 ^ a * 2 ^ k) (2 ^ a)).minBlock (create (2 ^ a * 2 ^ k) (2 ^ a)).maxOrder
      (create (2 ^ a * 2 ^ k) (2 ^ a)).free (∅ : Finset ι) blk := by
  have hmax : orderLoop 64 (2 ^ a) (2 ^ a * 2 ^ k) = k := order_loop_pow (Nat.two_pow_pos a) hk
  simp only [create, hmax]
  refine ⟨fun x hx => Or.inl ⟨k, 0, ?_, Nat.zero_le x, ?_⟩, fun o ho off hoff => ?_⟩
  · rw [Function.update_self]
    exact List.mem_singleton_self 0
  · simp only [Block.len]
    omega
  · rw [Function.update_of_ne (by omega)] at hoff
    cases hoff

variable [DecidableEq ι]

variable {bytes : Nat}

theorem allocate_full {off : Nat} {next : BuddyAllocator}
    (hfull : Full arena.minBlock arena.maxOrder arena.free live blk) (h : arena.Inv live blk)
    (halloc : arena.allocate bytes = some (off, next)) {i : ι}
    (hi : blk i = ⟨off, arena.orderFor bytes⟩) :
    Full next.minBlock next.maxOrder next.free (insert i live) blk := by
  obtain ⟨-, -, -, k, hmem, hlast, hempty, rfl⟩ := allocate_cases halloc
  have happ := List.dropLast_append_getLast? off hlast
  have hpopped : ∀ o, o ≠ arena.orderFor bytes + k →
      Function.update arena.free (arena.orderFor bytes + k)
      (arena.free (arena.orderFor bytes + k)).dropLast o = arena.free o :=
      fun o ho => Function.update_of_ne ho _ _
  constructor
  · intro x hx
    rcases hfull.covered x hx with ⟨o, y, hy, hyx⟩ | ⟨j, hj, hjx⟩
    · by_cases hpop : o = arena.orderFor bytes + k ∧ y = off
      · -- the block that is split: its lowest part is handed out, the others are free
        obtain ⟨rfl, rfl⟩ := hpop
        rcases split_down_covers hyx with hlow | hrest
        · exact Or.inr ⟨i, Finset.mem_insert_self i live, hi ▸ hlow⟩
        · exact Or.inl hrest
      · refine Or.inl ⟨o, y, mem_split_down.2 (Or.inl ?_), hyx⟩
        by_cases ho : o = arena.orderFor bytes + k
        · subst ho
          rw [Function.update_self]
          rw [← happ, List.mem_append] at hy
          exact hy.resolve_right fun hy => hpop ⟨rfl, List.mem_singleton.1 hy⟩
        · rwa [hpopped o ho]
    · exact Or.inr ⟨j, Finset.mem_insert_of_mem hj, hjx⟩
  · refine NoBuddies.split_down (hfull.no_buddies.mono fun o => ?_)
      h.lists.unit_pos fun o hlow hhigh => ?_
    · by_cases ho : o = arena.orderFor bytes + k
      · subst ho
        rw [Function.update_self]
        exact List.dropLast_subset _
      · rw [hpopped o ho]
        exact fun _ hy => hy
    · rw [hpopped o (by omega)]
      exact hempty o hlow hhigh

theorem deallocate_full {off : Nat} {i : ι}
    (hfull : Full arena.minBlock arena.maxOrder arena.free live blk) (h : arena.Inv live blk)
    (hi : i ∈ live) (hblk : blk i = ⟨off, arena.orderFor bytes⟩) :
    Full (arena.deallocate off bytes).minBlock (arena.deallocate off bytes).maxOrder
      (arena.deallocate off bytes).free (live.erase i) blk := by
  have horder := h.lists.live_order i hi
  have haligned := (h.lists.live_within i hi).1
  rw [hblk] at horder haligned
  constructor
  · intro x hx
    rcases hfull.covered x hx with hfree | ⟨j, hj, hjx⟩
    · exact Or.inl (coalesce_covers h.lists.unit_pow haligned (Or.inl hfree))
    · by_cases hij : j = i
      · rw [hij, hblk] at hjx
        exact Or.inl (coalesce_covers h.lists.unit_pow haligned (Or.inr hjx))
      · exact Or.inr ⟨j, Finset.mem_erase.2 ⟨hij, hj⟩, hjx⟩
  · exact hfull.no_buddies.coalesce (Nat.add_sub_of_le horder) h.lists.unit_pos

/-- A request is served by the first order that holds it. -/
theorem order_for_le {o : Nat} (h : bytes ≤ arena.blockSize o) : arena.orderFor bytes ≤ o := by
  refine order_loop_le_of_le ?_
  split_ifs
  · exact Nat.le_mul_of_pos_right _ (Nat.two_pow_pos o)
  · exact h

omit [DecidableEq ι] in
/-- A request fails exactly if no aligned block of its size is clear of the live blocks. -/
theorem allocate_none_iff (hfull : Full arena.minBlock arena.maxOrder arena.free live blk)
    (h : arena.Inv live blk) (hpos : 0 < bytes) (hle : bytes ≤ arena.arenaSize) :
    arena.allocate bytes = none ↔ ¬ ∃ off,
      Block.Within arena.minBlock arena.arenaSize ⟨off, arena.orderFor bytes⟩ ∧
      ∀ i ∈ live, Block.Apart arena.minBlock ⟨off, arena.orderFor bytes⟩ (blk i) := by
  have horder : arena.orderFor bytes ≤ arena.maxOrder := order_for_le (hle.trans_eq h.arena_eq)
  constructor
  · rintro hnone ⟨off, hwithin, hlive⟩
    rw [h.arena_eq] at hwithin
    obtain ⟨o, y, hmem, ho, -⟩ := hfull.inside_free h.lists horder hwithin hlive
    obtain ⟨x, next, hsome⟩ := allocate_some hpos hle ho (h.lists.free_order o y hmem)
      (List.ne_nil_of_mem hmem)
    rw [hnone] at hsome
    cases hsome
  · intro hnot
    cases halloc : arena.allocate bytes with
    | none => rfl
    | some result =>
        classical
        obtain ⟨-, -, hwithin, hlive, -⟩ := allocate_spec h halloc
        exact absurd ⟨result.1, hwithin, hlive⟩ hnot

omit [DecidableEq ι] in
/-- An arena with nothing handed out is one free block. -/
theorem free_of_live_empty
    (hfull : Full arena.minBlock arena.maxOrder arena.free (∅ : Finset ι) blk)
    (h : arena.Inv (∅ : Finset ι) blk) (o : Nat) :
    arena.free o = if o = arena.maxOrder then [0] else [] := by
  have hwhole : (⟨0, arena.maxOrder⟩ : Block).Within arena.minBlock
      (arena.minBlock * 2 ^ arena.maxOrder) :=
    ⟨Nat.dvd_zero _, by simp only [Block.len]; omega⟩
  obtain ⟨top, y, hmem, htop, hy, -⟩ :=
    hfull.inside_free h.lists (b := ⟨0, arena.maxOrder⟩) le_rfl hwhole
    fun i hi => absurd hi (Finset.notMem_empty i)
  obtain rfl : top = arena.maxOrder := Nat.le_antisymm (h.lists.free_order top y hmem) htop
  obtain rfl : y = 0 := Nat.le_zero.1 hy
  -- every other free block would overlap it
  have honly : ∀ o off, off ∈ arena.free o → o = arena.maxOrder ∧ off = 0 := by
    intro o off hoff
    by_contra hne
    have hin := (h.lists.free_within o off hoff).2
    have hpos := Block.len_pos h.lists.unit_pos ⟨off, o⟩
    rcases h.lists.free_apart o off arena.maxOrder 0 hoff hmem
      (fun heq => hne ⟨congrArg Block.order heq, congrArg Block.off heq⟩) with hapart | hapart
    · simp only at hapart
      omega
    · simp only [Block.len] at hapart hin hpos
      omega
  split
  · rename_i ho
    subst ho
    have hall : ∀ off ∈ arena.free arena.maxOrder, off = 0 := fun off hoff => (honly _ off hoff).2
    obtain ⟨n, hn⟩ : ∃ n, arena.free arena.maxOrder = List.replicate n 0 :=
      ⟨_, List.eq_replicate_of_mem hall⟩
    have hnodup := h.lists.free_nodup arena.maxOrder
    rw [hn] at hmem hnodup ⊢
    rw [List.nodup_replicate] at hnodup
    have hne := (List.mem_replicate.1 hmem).1
    obtain rfl : n = 1 := by omega
    rfl
  · rename_i ho
    exact List.eq_nil_iff_forall_not_mem.2 fun off hoff => ho (honly o off hoff).1

/-- The size of the block that serves a request. -/
def rounded (arena : BuddyAllocator) (bytes : Nat) : Nat := arena.blockSize (arena.orderFor bytes)

omit [DecidableEq ι] in
/-- The smallest block that holds the request. -/
theorem Inv.rounds (h : arena.Inv live blk) (hle : bytes ≤ arena.arenaSize) :
    bytes ≤ arena.rounded bytes ∧ ∀ o, bytes ≤ arena.blockSize o →
      arena.rounded bytes ≤ arena.blockSize o := by
  have hpow : arena.minBlock * 2 ^ arena.maxOrder ≤ arena.minBlock * 2 ^ 64 :=
    Nat.mul_le_mul_left _ (Nat.pow_le_pow_right (by decide) h.order_le)
  rw [h.arena_eq] at hle
  exact ⟨le_order_of (hle.trans hpow),
    fun o ho => Nat.mul_le_mul_left _ (Nat.pow_le_pow_right (by decide) (order_for_le ho))⟩

omit [DecidableEq ι] in
/-- Blocks that are apart have room in the arena together. -/
theorem Inv.used_le (h : arena.Inv live blk) : arena.used ≤ arena.arenaSize := by
  have hdisjoint : (live : Set ι).PairwiseDisjoint fun i =>
      Finset.Ico (blk i).off ((blk i).off + (blk i).len arena.minBlock) := by
    intro i hi j hj hij
    refine Finset.disjoint_left.2 fun x hx hx' => ?_
    rw [Finset.mem_Ico] at hx hx'
    exact (h.lists.live_apart i hi j hj hij).not_covers hx hx'
  calc arena.used = ∑ i ∈ live, (Finset.Ico (blk i).off
        ((blk i).off + (blk i).len arena.minBlock)).card := by
        simp only [h.used_eq, Nat.card_Ico, Nat.add_sub_cancel_left]
    _ = (live.biUnion fun i => Finset.Ico (blk i).off
        ((blk i).off + (blk i).len arena.minBlock)).card :=
        (Finset.card_biUnion hdisjoint).symm
    _ ≤ (Finset.range arena.arenaSize).card := by
        refine Finset.card_le_card (Finset.biUnion_subset.2 fun i hi x hx => ?_)
        have hend := (h.lists.live_within i hi).2
        rw [← h.arena_eq] at hend
        rw [Finset.mem_Ico] at hx
        exact Finset.mem_range.2 (by omega)
    _ = arena.arenaSize := Finset.card_range _

end Operations

end BuddyAllocator

/-! ## Runs -/

/-- A call of `allocate`, or a call of `deallocate` for a block and the size it was allocated
with. -/
inductive BuddyOp where
  | allocate (bytes : Nat)
  | deallocate (off bytes : Nat)

/-- An arena and the blocks it has handed out, with the sizes they were allocated with. -/
structure BuddyState where
  arena : BuddyAllocator
  live : List (Nat × Nat)

namespace BuddyState

/-- One call; only a block that is handed out can be given back. -/
def step (s : BuddyState) : BuddyOp → BuddyState
  | .allocate bytes =>
      match s.arena.allocate bytes with
      | none => s
      | some (off, arena) => ⟨arena, (off, bytes) :: s.live⟩
  | .deallocate off bytes =>
      if (off, bytes) ∈ s.live then ⟨s.arena.deallocate off bytes, s.live.erase (off, bytes)⟩ else s

/-- The block of a request that has been served. -/
def block (s : BuddyState) (b : Nat × Nat) : Block := ⟨b.1, s.arena.orderFor b.2⟩

/-- The live blocks and the entries of the free lists. -/
def pieces (s : BuddyState) : List Block :=
  s.live.map s.block ++ (List.range (s.arena.maxOrder + 1)).flatMap fun o =>
    (s.arena.free o).map (⟨·, o⟩)

/-- The live blocks are those of the arena's invariant. -/
structure Inv (s : BuddyState) : Prop where
  nodup : s.live.Nodup
  arena_inv : s.arena.Inv s.live.toFinset s.block
  full : BuddyAllocator.Full s.arena.minBlock s.arena.maxOrder s.arena.free s.live.toFinset s.block

variable {s : BuddyState}

theorem Inv.step (h : s.Inv) (op : BuddyOp) : (s.step op).Inv := by
  cases op with
  | allocate bytes =>
      unfold BuddyState.step
      dsimp only
      split
      · exact h
      · rename_i off arena halloc
        obtain ⟨hunit, -, -, hapart, hinv⟩ := BuddyAllocator.allocate_spec h.arena_inv halloc
        have hnew : (off, bytes) ∉ s.live.toFinset := fun hmem =>
          Block.not_apart_self h.arena_inv.lists.unit_pos (hapart _ hmem)
        have hblock : (⟨arena, (off, bytes) :: s.live⟩ : BuddyState).block = s.block := by
          funext b
          simp only [block, BuddyAllocator.orderFor, hunit]
        refine ⟨List.nodup_cons.2 ⟨fun hmem => hnew (List.mem_toFinset.2 hmem), h.nodup⟩, ?_, ?_⟩
        · rw [hblock, List.toFinset_cons]
          exact hinv _ rfl hnew
        · rw [hblock, List.toFinset_cons]
          exact BuddyAllocator.allocate_full h.full h.arena_inv halloc rfl
  | deallocate off bytes =>
      unfold BuddyState.step
      dsimp only
      split_ifs with hmem
      · have hlive := List.mem_toFinset.2 hmem
        have herase : (s.live.erase (off, bytes)).toFinset =
            s.live.toFinset.erase (off, bytes) := by
          ext b
          rw [List.mem_toFinset, h.nodup.mem_erase_iff, Finset.mem_erase, List.mem_toFinset]
        refine ⟨h.nodup.erase _, ?_, ?_⟩
        · rw [herase]
          exact (BuddyAllocator.deallocate_spec h.arena_inv hlive rfl).2.2
        · rw [herase]
          exact BuddyAllocator.deallocate_full h.full h.arena_inv hlive rfl
      · exact h

end BuddyState

/-- What the allocator guarantees. -/
structure BuddyCorrect (s : BuddyState) : Prop where
  rounds : ∀ bytes ≤ s.arena.arenaSize, bytes ≤ s.arena.rounded bytes ∧
    ∀ o, bytes ≤ s.arena.blockSize o → s.arena.rounded bytes ≤ s.arena.blockSize o
  aligned : ∀ b ∈ s.live, s.arena.rounded b.2 ∣ b.1
  inside : ∀ b ∈ s.live, b.1 + s.arena.rounded b.2 ≤ s.arena.arenaSize
  apart : s.live.Pairwise fun b c => b.1 + s.arena.rounded b.2 ≤ c.1 ∨
    c.1 + s.arena.rounded c.2 ≤ b.1
  pieces_inside : ∀ p ∈ s.pieces, p.off + p.len s.arena.minBlock ≤ s.arena.arenaSize
  pieces_apart : s.pieces.Pairwise (Block.Apart s.arena.minBlock)
  pieces_cover : ∀ x < s.arena.arenaSize, ∃ p ∈ s.pieces, p.Covers s.arena.minBlock x
  used_eq : s.arena.used = (s.live.map fun b => s.arena.rounded b.2).sum
  used_ge : ∀ b ∈ s.live, s.arena.rounded b.2 ≤ s.arena.used
  used_le : s.arena.used ≤ s.arena.arenaSize
  no_buddies : ∀ o < s.arena.maxOrder, ∀ off ∈ s.arena.free o,
    off ^^^ s.arena.blockSize o ∉ s.arena.free o
  fails_iff : ∀ bytes, 0 < bytes → bytes ≤ s.arena.arenaSize → (s.arena.allocate bytes = none ↔
    ¬ ∃ off, s.arena.rounded bytes ∣ off ∧ off + s.arena.rounded bytes ≤ s.arena.arenaSize ∧
      ∀ b ∈ s.live, off + s.arena.rounded bytes ≤ b.1 ∨ b.1 + s.arena.rounded b.2 ≤ off)
  whole : s.arena.blockSize s.arena.maxOrder = s.arena.arenaSize
  emptied : s.live = [] → ∀ o, s.arena.free o = if o = s.arena.maxOrder then [0] else []

namespace BuddyState

variable {s : BuddyState}

theorem mem_pieces {p : Block} (h : s.Inv) :
    p ∈ s.pieces ↔ (∃ b ∈ s.live, s.block b = p) ∨ p.off ∈ s.arena.free p.order := by
  simp only [pieces, List.mem_append, List.mem_map, List.mem_flatMap, List.mem_range]
  refine or_congr Iff.rfl ⟨?_, fun hmem => ?_⟩
  · rintro ⟨o, -, off, hoff, rfl⟩
    exact hoff
  · exact ⟨p.order, Nat.lt_succ_of_le (h.arena_inv.lists.free_order _ _ hmem), p.off, hmem, rfl⟩

theorem Inv.pieces_apart (h : s.Inv) : s.pieces.Pairwise (Block.Apart s.arena.minBlock) := by
  have hlists := h.arena_inv.lists
  refine List.pairwise_append.2 ⟨?_, ?_, ?_⟩
  · rw [List.pairwise_map]
    refine List.Pairwise.imp_of_mem (fun hb hc hne => ?_) h.nodup
    exact hlists.live_apart _ (List.mem_toFinset.2 hb) _ (List.mem_toFinset.2 hc) hne
  · rw [List.pairwise_flatMap]
    refine ⟨fun o _ => ?_, ?_⟩
    · rw [List.pairwise_map]
      refine List.Pairwise.imp_of_mem (fun hx hy hne => ?_) (hlists.free_nodup o)
      exact hlists.free_apart o _ o _ hx hy fun heq => hne (congrArg Block.off heq)
    · refine List.Pairwise.imp (fun hne => ?_) List.nodup_range
      intro x hx y hy
      obtain ⟨off, hoff, rfl⟩ := List.mem_map.1 hx
      obtain ⟨off', hoff', rfl⟩ := List.mem_map.1 hy
      exact hlists.free_apart _ off _ off' hoff hoff' fun heq => hne (congrArg Block.order heq)
  · intro x hx y hy
    obtain ⟨b, hb, rfl⟩ := List.mem_map.1 hx
    obtain ⟨o, -, hy⟩ := List.mem_flatMap.1 hy
    obtain ⟨off, hoff, rfl⟩ := List.mem_map.1 hy
    exact hlists.live_free_apart b (List.mem_toFinset.2 hb) o off hoff

theorem Inv.correct (h : s.Inv) : BuddyCorrect s := by
  have hlists := h.arena_inv.lists
  have hlive := fun b (hb : b ∈ s.live) => hlists.live_within b (List.mem_toFinset.2 hb)
  have hsum : s.arena.used = (s.live.map fun b => s.arena.rounded b.2).sum := by
    rw [h.arena_inv.used_eq, List.sum_toFinset _ h.nodup]
    rfl
  have hfails : ∀ bytes, 0 < bytes → bytes ≤ s.arena.arenaSize → (s.arena.allocate bytes = none ↔
      ¬ ∃ off, s.arena.rounded bytes ∣ off ∧ off + s.arena.rounded bytes ≤ s.arena.arenaSize ∧
        ∀ b ∈ s.live, off + s.arena.rounded bytes ≤ b.1 ∨ b.1 + s.arena.rounded b.2 ≤ off) := by
    intro bytes hpos hle
    rw [BuddyAllocator.allocate_none_iff h.full h.arena_inv hpos hle]
    refine not_congr (exists_congr fun off => ?_)
    rw [Block.Within, and_assoc]
    refine and_congr Iff.rfl (and_congr Iff.rfl ?_)
    exact forall_congr' fun b => (by rw [List.mem_toFinset]; rfl)
  have hcover : ∀ x < s.arena.arenaSize, ∃ p ∈ s.pieces, p.Covers s.arena.minBlock x := by
    intro x hx
    rw [h.arena_inv.arena_eq] at hx
    rcases h.full.covered x hx with ⟨o, off, hmem, hcovers⟩ | ⟨b, hb, hcovers⟩
    · exact ⟨⟨off, o⟩, (mem_pieces h).2 (Or.inr hmem), hcovers⟩
    · exact ⟨s.block b, (mem_pieces h).2 (Or.inl ⟨b, List.mem_toFinset.1 hb, rfl⟩), hcovers⟩
  have hinside : ∀ p ∈ s.pieces, p.off + p.len s.arena.minBlock ≤ s.arena.arenaSize := by
    intro p hp
    rw [h.arena_inv.arena_eq]
    rcases (mem_pieces h).1 hp with ⟨b, hb, rfl⟩ | hmem
    · exact (hlive b hb).2
    · exact (hlists.free_within _ _ hmem).2
  have happart := List.pairwise_map.1 (List.pairwise_append.1 h.pieces_apart).1
  exact {
    rounds := fun bytes hle => h.arena_inv.rounds hle
    aligned := fun b hb => (hlive b hb).1
    inside := fun b hb => hinside _ ((mem_pieces h).2 (Or.inl ⟨b, hb, rfl⟩))
    apart := happart
    pieces_inside := hinside
    pieces_apart := h.pieces_apart
    pieces_cover := hcover
    used_eq := hsum
    used_ge := fun b hb => hsum ▸ List.single_le_sum (fun _ _ => Nat.zero_le _) _
      (List.mem_map_of_mem hb)
    used_le := h.arena_inv.used_le
    no_buddies := h.full.no_buddies
    fails_iff := hfails
    whole := h.arena_inv.arena_eq.symm
    emptied := fun hnil => by
      have hfull := h.full
      have hinv := h.arena_inv
      rw [hnil] at hfull hinv
      exact BuddyAllocator.free_of_live_empty hfull hinv }

end BuddyState

/-- In every run on an arena whose size and smallest block are powers of two: the live blocks are
aligned to their rounded sizes, inside the arena and apart; together with the free blocks they
partition it; `used` is the sum of their rounded sizes; no two buddies are free; a request fails
exactly if no aligned block of its rounded size is clear of the live blocks; and when nothing is
live the arena is one free block. -/
theorem buddy_allocator_correct {arenaSize minBlock : Nat} (harena : isPowerOfTwo arenaSize = true)
    (hmin : isPowerOfTwo minBlock = true) (hle : minBlock ≤ arenaSize) (hlt : arenaSize < wrap64)
    (ops : List BuddyOp) :
    BuddyCorrect (run BuddyState.step ⟨BuddyAllocator.create arenaSize minBlock, []⟩ ops) := by
  obtain ⟨a, rfl⟩ := is_power_of_two_iff.1 hmin
  obtain ⟨b, rfl⟩ := is_power_of_two_iff.1 harena
  have hab : a ≤ b := (Nat.pow_le_pow_iff_right (by decide)).1 hle
  have hb : b < 64 := (Nat.pow_lt_pow_iff_right (by decide)).1 hlt
  have hsize : 2 ^ b = 2 ^ a * 2 ^ (b - a) := by rw [← Nat.pow_add, Nat.add_sub_of_le hab]
  refine (invariant_run (I := BuddyState.Inv) (fun _ op _ h => h.step op) ?_
    (allowed_true _ _ ops)).correct
  rw [hsize]
  exact ⟨List.nodup_nil, BuddyAllocator.create_inv (by omega),
    BuddyAllocator.create_full (by omega)⟩

/-- Three requests on four units, of which the second one comes back. -/
theorem buddy_allocator_correct_four :
    BuddyCorrect (run BuddyState.step ⟨BuddyAllocator.create 16384 4096, []⟩
      [.allocate 4096, .allocate 5000, .allocate 1, .deallocate 8192 5000]) :=
  buddy_allocator_correct (by decide) (by decide) (by decide) (by decide) _

end GoblinStore.Core
