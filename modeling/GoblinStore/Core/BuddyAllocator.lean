import GoblinStore.Lib.Dyadic
import Mathlib.Algebra.BigOperators.Group.Finset.Basic
import Mathlib.Algebra.Order.BigOperators.Group.Finset

/-!
# The buddy allocator inside one block

`BuddyAllocator` subdivides one arena into power-of-two blocks and keeps a stack of free
offsets per order (`free o`, last element on top). `BuddyAllocator.Inv` relates it to the
blocks that are handed out: free and live blocks are aligned, inside the arena and pairwise
apart, and `used` is the total length of the live ones. The live blocks are named by an index
type so that a client can use its own region type as the name. `allocate_spec` and
`deallocate_spec` say that the two operations keep the invariant.
-/

namespace GoblinStore.Core

open GoblinStore.Lib

/-- Offset-based buddy allocator over one power-of-two arena. -/
structure BuddyAllocator where
  arenaSize : Nat
  minBlock : Nat
  maxOrder : Nat
  used : Nat
  free : Nat → List Nat

namespace BuddyAllocator

/-- The doubling loop `for (bs = from; bs < need; bs <<= 1) ++o`; a 64-bit size needs at most 64
doublings. -/
def orderLoop : Nat → Nat → Nat → Nat
  | 0, _, _ => 0
  | fuel + 1, bs, need => if bs < need then orderLoop fuel (bs * 2) need + 1 else 0

/-- A fresh arena: one free block of the maximal order. -/
def create (arenaSize minBlock : Nat) : BuddyAllocator :=
  let maxOrder := orderLoop 64 minBlock arenaSize
  ⟨arenaSize, minBlock, maxOrder, 0, Function.update (fun _ => []) maxOrder [0]⟩

/-- The least order whose blocks of `minBlock << order` hold this many bytes. -/
def orderOf (minBlock bytes : Nat) : Nat :=
  orderLoop 64 minBlock (if bytes < minBlock then minBlock else bytes)

/-- The order that serves a request of this many bytes. -/
def orderFor (arena : BuddyAllocator) (bytes : Nat) : Nat := orderOf arena.minBlock bytes

/-- `min_block << order`. -/
def blockSize (arena : BuddyAllocator) (order : Nat) : Nat := arena.minBlock * 2 ^ order

/-- `free_[order].push_back(off)`. -/
def pushBack (free : Nat → List Nat) (order off : Nat) : Nat → List Nat :=
  Function.update free order (free order ++ [off])

/-- Split the block of order `target + k` at `off` down to order `target`, freeing each upper
half. -/
def splitDown (minBlock off target : Nat) : Nat → (Nat → List Nat) → Nat → List Nat
  | 0, free => free
  | k + 1, free =>
      splitDown minBlock off target k
        (pushBack free (target + k) (off + minBlock * 2 ^ (target + k)))

/-- Hand out a block that holds `bytes`, or `none` if it is too large or there is no room. -/
def allocate (arena : BuddyAllocator) (bytes : Nat) : Option (Nat × BuddyAllocator) :=
  if bytes = 0 ∨ bytes > arena.arenaSize then none
  else
    let target := arena.orderFor bytes
    if target > arena.maxOrder then none
    else
      -- the first order from `target` on with a free block
      match (List.range' target (arena.maxOrder + 1 - target)).find?
          fun o => !(arena.free o).isEmpty with
      | none => none
      | some o =>
          match (arena.free o).getLast? with
          | none => none
          | some off =>
              let popped := Function.update arena.free o (arena.free o).dropLast
              some (off, { arena with
                free := splitDown arena.minBlock off target (o - target) popped
                used := arena.used + arena.blockSize target })

/-- Merge the freed block upwards while its buddy is free, then push it. -/
def coalesce (minBlock : Nat) : Nat → (Nat → List Nat) → Nat → Nat → Nat → List Nat
  | 0, free, order, cur => pushBack free order cur
  | k + 1, free, order, cur =>
      let buddy := cur ^^^ (minBlock * 2 ^ order)
      if buddy ∈ free order then
        coalesce minBlock k (Function.update free order ((free order).erase buddy)) (order + 1)
          (if cur < buddy then cur else buddy)
      else pushBack free order cur

/-- Return a block to the arena; `bytes` is what was passed to `allocate`. -/
def deallocate (arena : BuddyAllocator) (off bytes : Nat) : BuddyAllocator :=
  let target := arena.orderFor bytes
  { arena with
    free := coalesce arena.minBlock (arena.maxOrder - target) arena.free target off
    used := arena.used - arena.blockSize target }

/-! ## Orders -/

variable {fuel bs : Nat}

theorem order_loop_le {need : Nat} (h : need ≤ bs * 2 ^ fuel) :
    need ≤ bs * 2 ^ orderLoop fuel bs need := by
  induction fuel generalizing bs with
  | zero => simpa [orderLoop] using h
  | succ fuel ih =>
      rw [orderLoop]
      split
      · rw [Nat.pow_succ, Nat.mul_comm (2 ^ _) 2, ← Nat.mul_assoc]
        refine ih ?_
        rwa [Nat.mul_assoc, Nat.mul_comm 2, ← Nat.pow_succ]
      · rw [Nat.pow_zero, Nat.mul_one]
        omega

/-- The loop stops at the first power that is large enough. -/
theorem order_loop_le_of_le {need k : Nat} (h : need ≤ bs * 2 ^ k) :
    orderLoop fuel bs need ≤ k := by
  induction fuel generalizing bs k with
  | zero => simp [orderLoop]
  | succ fuel ih =>
      rw [orderLoop]
      split
      · rename_i hlt
        cases k with
        | zero => simp at h; omega
        | succ k =>
            refine Nat.succ_le_succ (ih ?_)
            rwa [Nat.mul_assoc, Nat.mul_comm 2, ← Nat.pow_succ]
      · exact Nat.zero_le _

/-- The loop finds the exponent of a power of two. -/
theorem order_loop_pow {k : Nat} (hbs : 0 < bs) (hk : k ≤ fuel) :
    orderLoop fuel bs (bs * 2 ^ k) = k := by
  refine Nat.le_antisymm (order_loop_le_of_le le_rfl) ?_
  have hle : bs * 2 ^ k ≤ bs * 2 ^ orderLoop fuel bs (bs * 2 ^ k) :=
    order_loop_le (Nat.mul_le_mul_left _ (Nat.pow_le_pow_right (by omega) hk))
  exact (Nat.pow_le_pow_iff_right (by omega)).1 (Nat.le_of_mul_le_mul_left hle hbs)

/-- A block of the order of a request holds the request. -/
theorem le_order_of {minBlock bytes : Nat} (h : bytes ≤ minBlock * 2 ^ 64) :
    bytes ≤ minBlock * 2 ^ orderOf minBlock bytes := by
  unfold orderOf
  split_ifs with hlt
  · exact hlt.le.trans (Nat.le_mul_of_pos_right _ (Nat.two_pow_pos _))
  · exact order_loop_le h

/-! ## The invariant of the free lists -/

section Inv

variable {ι : Type*}

/-- Free blocks and the live blocks `blk i`, `i ∈ live`, are aligned blocks of the arena of
`unit * 2 ^ top` bytes that do not overlap. -/
structure FreeInv (unit top : Nat) (free : Nat → List Nat) (live : Finset ι)
    (blk : ι → Block) : Prop where
  unit_pow : ∃ a, unit = 2 ^ a
  free_nodup : ∀ o, (free o).Nodup
  free_order : ∀ o off, off ∈ free o → o ≤ top
  free_within : ∀ o off, off ∈ free o → Block.Within unit (unit * 2 ^ top) ⟨off, o⟩
  live_order : ∀ i ∈ live, (blk i).order ≤ top
  live_within : ∀ i ∈ live, (blk i).Within unit (unit * 2 ^ top)
  free_apart : ∀ o off o' off', off ∈ free o → off' ∈ free o' →
    (⟨off, o⟩ : Block) ≠ ⟨off', o'⟩ → Block.Apart unit ⟨off, o⟩ ⟨off', o'⟩
  live_free_apart : ∀ i ∈ live, ∀ o off, off ∈ free o → (blk i).Apart unit ⟨off, o⟩
  live_apart : ∀ i ∈ live, ∀ j ∈ live, i ≠ j → (blk i).Apart unit (blk j)

/-- A block of the arena that overlaps neither a free nor a live block. -/
structure Loose (unit top : Nat) (free : Nat → List Nat) (live : Finset ι) (blk : ι → Block)
    (b : Block) : Prop where
  order : b.order ≤ top
  within : b.Within unit (unit * 2 ^ top)
  free : ∀ o off, off ∈ free o → b.Apart unit ⟨off, o⟩
  live : ∀ i ∈ live, b.Apart unit (blk i)

variable {unit top : Nat} {free : Nat → List Nat} {live : Finset ι} {blk : ι → Block}
  {b : Block}

theorem FreeInv.unit_pos (h : FreeInv unit top free live blk) : 0 < unit := by
  obtain ⟨a, rfl⟩ := h.unit_pow
  exact Nat.two_pow_pos a

variable {off o : Nat}

theorem mem_push_back {order x : Nat} :
    x ∈ pushBack free order off o ↔ x ∈ free o ∨ (o = order ∧ x = off) := by
  unfold pushBack
  by_cases ho : o = order
  · subst ho
    simp
  · simp [ho]

/-- Pushing a loose block makes it free. -/
theorem FreeInv.push (h : FreeInv unit top free live blk) (hb : Loose unit top free live blk b) :
    FreeInv unit top (pushBack free b.order b.off) live blk where
  __ := h
  free_nodup o := by
    by_cases ho : o = b.order
    · subst ho
      simp only [pushBack, Function.update_self]
      refine List.Nodup.append (h.free_nodup _) (List.nodup_singleton _) ?_
      intro x hx hx'
      rw [List.mem_singleton] at hx'
      subst hx'
      exact Block.not_apart_self h.unit_pos (hb.free _ _ hx)
    · simpa [pushBack, ho] using h.free_nodup o
  free_order o off hmem := by
    rcases mem_push_back.1 hmem with hmem | ⟨rfl, rfl⟩
    · exact h.free_order o off hmem
    · exact hb.order
  free_within o off hmem := by
    rcases mem_push_back.1 hmem with hmem | ⟨rfl, rfl⟩
    · exact h.free_within o off hmem
    · exact hb.within
  free_apart o off o' off' hmem hmem' hne := by
    rcases mem_push_back.1 hmem with hmem | ⟨rfl, rfl⟩ <;>
      rcases mem_push_back.1 hmem' with hmem' | ⟨rfl, rfl⟩
    · exact h.free_apart o off o' off' hmem hmem' hne
    · exact (hb.free o off hmem).symm
    · exact hb.free o' off' hmem'
    · exact absurd rfl hne
  live_free_apart i hi o off hmem := by
    rcases mem_push_back.1 hmem with hmem | ⟨rfl, rfl⟩
    · exact h.live_free_apart i hi o off hmem
    · exact (hb.live i hi).symm

/-- Free lists with fewer entries keep the invariant. -/
theorem FreeInv.shrink {less : Nat → List Nat} (h : FreeInv unit top free live blk)
    (hsub : ∀ o, less o ⊆ free o) (hnodup : ∀ o, (less o).Nodup) :
    FreeInv unit top less live blk where
  __ := h
  free_nodup := hnodup
  free_order o off hmem := h.free_order o off (hsub o hmem)
  free_within o off hmem := h.free_within o off (hsub o hmem)
  free_apart o off o' off' hmem hmem' hne :=
    h.free_apart o off o' off' (hsub o hmem) (hsub o' hmem') hne
  live_free_apart i hi o off hmem := h.live_free_apart i hi o off (hsub o hmem)

/-- A free block that left its list is loose. -/
theorem FreeInv.loose_of_removed {less : Nat → List Nat}
    (h : FreeInv unit top free live blk) (hmem : off ∈ free o)
    (hsub : ∀ o, less o ⊆ free o) (hgone : off ∉ less o) :
    Loose unit top less live blk ⟨off, o⟩ where
  order := h.free_order o off hmem
  within := h.free_within o off hmem
  free o' off' hmem' := by
    refine h.free_apart o off o' off' hmem (hsub o' hmem') ?_
    intro heq
    injection heq with h1 h2
    subst h1 h2
    exact hgone hmem'
  live i hi := (h.live_free_apart i hi o off hmem).symm

variable {k : Nat}

/-- A loose block splits into a loose lower half and an upper half that is pushed. -/
theorem Loose.split (h : FreeInv unit top free live blk)
    (hb : Loose unit top free live blk ⟨off, k + 1⟩) :
    FreeInv unit top (pushBack free k (off + unit * 2 ^ k)) live blk ∧
      Loose unit top (pushBack free k (off + unit * 2 ^ k)) live blk ⟨off, k⟩ := by
  have horder := hb.order
  have hupper : Loose unit top free live blk (Block.upper unit off k) :=
    ⟨Nat.le_of_succ_le horder, Block.within_upper hb.within,
      fun o x hx => (Block.apart_halves (hb.free o x hx)).2,
      fun i hi => (Block.apart_halves (hb.live i hi)).2⟩
  refine ⟨h.push hupper, ⟨Nat.le_of_succ_le horder, Block.within_lower hb.within, ?_,
    fun i hi => (Block.apart_halves (hb.live i hi)).1⟩⟩
  intro o x hx
  rcases mem_push_back.1 hx with hx | ⟨rfl, rfl⟩
  · exact (Block.apart_halves (hb.free o x hx)).1
  · exact Block.lower_apart_upper off o

/-- Splitting down to the target order leaves the lowest part loose. -/
theorem split_down_inv {target : Nat} (h : FreeInv unit top free live blk)
    (hb : Loose unit top free live blk ⟨off, target + k⟩) :
    FreeInv unit top (splitDown unit off target k free) live blk ∧
      Loose unit top (splitDown unit off target k free) live blk ⟨off, target⟩ := by
  induction k generalizing free with
  | zero => exact ⟨h, hb⟩
  | succ k ih =>
      obtain ⟨h', hb'⟩ := hb.split h
      exact ih h' hb'

/-- A merged block starts at the lower one of the two. -/
theorem merged_off (cur buddy : Nat) : (if cur < buddy then cur else buddy) = min cur buddy := by
  split <;> omega

/-- Coalescing a loose block keeps the invariant of the free lists. -/
theorem coalesce_inv {order cur : Nat} (hk : order + k = top)
    (h : FreeInv unit top free live blk) (hb : Loose unit top free live blk ⟨cur, order⟩) :
    FreeInv unit top (coalesce unit k free order cur) live blk := by
  induction k generalizing free order cur with
  | zero => exact h.push hb
  | succ k ih =>
      rw [coalesce]
      split
      · rename_i hmem
        -- the buddy leaves its list and merges with the loose block
        have hsub : ∀ o, Function.update free order ((free order).erase
            (cur ^^^ (unit * 2 ^ order))) o ⊆ free o := by
          intro o
          by_cases ho : o = order
          · subst ho
            simpa using List.erase_subset
          · simp [ho]
        have hnodup : ∀ o, (Function.update free order ((free order).erase
            (cur ^^^ (unit * 2 ^ order))) o).Nodup := by
          intro o
          by_cases ho : o = order
          · subst ho
            simpa using (h.free_nodup o).erase _
          · simpa [ho] using h.free_nodup o
        have hloose := h.loose_of_removed hmem hsub
          (by simpa using (h.free_nodup order).not_mem_erase)
        have hbuddy : (⟨cur ^^^ (unit * 2 ^ order), order⟩ : Block) =
            Block.buddy unit ⟨cur, order⟩ := rfl
        rw [hbuddy] at hloose
        rw [merged_off]
        refine ih (by omega) (h.shrink hsub hnodup) ⟨by simp only; omega, ?_, ?_, ?_⟩
        · exact Block.within_parent h.unit_pow hb.within hloose.within
        · intro o x hx
          exact Block.apart_parent h.unit_pow hb.within.1 (hb.free o x (hsub o hx))
            (hloose.free o x hx)
        · intro i hi
          exact Block.apart_parent h.unit_pow hb.within.1 (hb.live i hi) (hloose.live i hi)
      · exact h.push hb

variable [DecidableEq ι]

variable {i : ι}

/-- A loose block may be handed out under a new name. -/
theorem FreeInv.insert_live (h : FreeInv unit top free live blk)
    (hb : Loose unit top free live blk (blk i)) (hi : i ∉ live) :
    FreeInv unit top free (insert i live) blk where
  __ := h
  live_order j hj := by
    rcases Finset.mem_insert.1 hj with rfl | hj
    · exact hb.order
    · exact h.live_order j hj
  live_within j hj := by
    rcases Finset.mem_insert.1 hj with rfl | hj
    · exact hb.within
    · exact h.live_within j hj
  live_free_apart j hj o off hmem := by
    rcases Finset.mem_insert.1 hj with rfl | hj
    · exact hb.free o off hmem
    · exact h.live_free_apart j hj o off hmem
  live_apart j hj k hk hne := by
    rw [Finset.mem_insert] at hj hk
    rcases hj with rfl | hj <;> rcases hk with rfl | hk
    · exact absurd rfl hne
    · exact hb.live k hk
    · exact (hb.live j hj).symm
    · exact h.live_apart j hj k hk hne

/-- A name that is given back leaves its block loose. -/
theorem FreeInv.erase_live (h : FreeInv unit top free live blk) (hi : i ∈ live) :
    FreeInv unit top free (live.erase i) blk ∧
      Loose unit top free (live.erase i) blk (blk i) := by
  refine ⟨{ h with
    live_order := fun j hj => h.live_order j (Finset.mem_of_mem_erase hj)
    live_within := fun j hj => h.live_within j (Finset.mem_of_mem_erase hj)
    live_free_apart := fun j hj => h.live_free_apart j (Finset.mem_of_mem_erase hj)
    live_apart := fun j hj k hk =>
      h.live_apart j (Finset.mem_of_mem_erase hj) k (Finset.mem_of_mem_erase hk) },
    h.live_order i hi, h.live_within i hi, h.live_free_apart i hi, ?_⟩
  intro j hj
  exact h.live_apart i hi j (Finset.mem_of_mem_erase hj) (Finset.ne_of_mem_erase hj).symm

/-- The invariant of an arena whose live blocks are `blk i`, `i ∈ live`. -/
structure Inv (arena : BuddyAllocator) (live : Finset ι) (blk : ι → Block) : Prop where
  arena_eq : arena.arenaSize = arena.minBlock * 2 ^ arena.maxOrder
  order_le : arena.maxOrder ≤ 64
  lists : FreeInv arena.minBlock arena.maxOrder arena.free live blk
  used_eq : arena.used = ∑ i ∈ live, (blk i).len arena.minBlock

variable {arena : BuddyAllocator}

omit [DecidableEq ι] in
/-- A fresh arena has one free block and nothing handed out. -/
theorem create_inv {a : Nat} (hk : k ≤ 64) :
    (create (2 ^ a * 2 ^ k) (2 ^ a)).Inv (∅ : Finset ι) blk := by
  have hmax : orderLoop 64 (2 ^ a) (2 ^ a * 2 ^ k) = k :=
    order_loop_pow (Nat.two_pow_pos a) hk
  have hmem : ∀ o off, off ∈ Function.update (fun _ => ([] : List Nat)) k [0] o ↔
      o = k ∧ off = 0 := by
    intro o off
    by_cases ho : o = k
    · subst ho
      simp
    · simp [ho]
  refine ⟨by simp [create, hmax], by simpa [create, hmax] using hk, ?_, by simp [create]⟩
  simp only [create, hmax]
  refine ⟨⟨a, rfl⟩, ?_, ?_, ?_, by simp, by simp, ?_, by simp, by simp⟩
  · intro o
    by_cases ho : o = k
    · subst ho
      simp
    · simp [ho]
  · intro o off h
    exact ((hmem o off).1 h).1.le
  · intro o off h
    obtain ⟨rfl, rfl⟩ := (hmem o off).1 h
    exact ⟨Nat.dvd_zero _, by simp [Block.len]⟩
  · intro o off o' off' h h' hne
    obtain ⟨rfl, rfl⟩ := (hmem o off).1 h
    obtain ⟨rfl, rfl⟩ := (hmem o' off').1 h'
    exact absurd rfl hne

omit [DecidableEq ι] in
variable {bytes : Nat}

/-- The decisions of a successful `allocate`: the request fits, and the block comes from the
top of the first nonempty free list from the target order on. -/
theorem allocate_cases {next : BuddyAllocator} (halloc : arena.allocate bytes = some (off, next)) :
    0 < bytes ∧ bytes ≤ arena.arenaSize ∧ arena.orderFor bytes ≤ arena.maxOrder ∧
      ∃ k, off ∈ arena.free (arena.orderFor bytes + k) ∧
        (arena.free (arena.orderFor bytes + k)).getLast? = some off ∧
        (∀ o, arena.orderFor bytes ≤ o → o < arena.orderFor bytes + k → arena.free o = []) ∧
        next = { arena with
          free := splitDown arena.minBlock off (arena.orderFor bytes) k
            (Function.update arena.free (arena.orderFor bytes + k)
              (arena.free (arena.orderFor bytes + k)).dropLast)
          used := arena.used + arena.blockSize (arena.orderFor bytes) } := by
  unfold allocate at halloc
  split_ifs at halloc with hsize
  dsimp only at halloc
  split_ifs at halloc with horder
  split at halloc
  · cases halloc
  · rename_i o hfind
    split at halloc
    · cases halloc
    · rename_i last hlast
      have hrange := List.mem_range'_1.1 (List.mem_of_find?_eq_some hfind)
      obtain ⟨k, rfl⟩ : ∃ k, o = arena.orderFor bytes + k := ⟨o - arena.orderFor bytes, by omega⟩
      simp only [Nat.add_sub_cancel_left, Option.some.injEq, Prod.mk.injEq] at halloc
      obtain ⟨rfl, rfl⟩ := halloc
      refine ⟨by omega, by omega, by omega, k, List.mem_of_getLast? hlast, hlast,
        fun o hlow hhigh => ?_, rfl⟩
      obtain ⟨-, -, hbefore⟩ := List.find?_range'_eq_some.1 hfind
      simpa using hbefore o hlow hhigh

/-- What `allocate` returns is a block of the rounded size apart from every live block; naming
it keeps the invariant. The geometry is unchanged. -/
theorem allocate_spec {next : BuddyAllocator}
    (h : arena.Inv live blk) (halloc : arena.allocate bytes = some (off, next)) :
    next.minBlock = arena.minBlock ∧ next.maxOrder = arena.maxOrder ∧
      Block.Within arena.minBlock arena.arenaSize ⟨off, arena.orderFor bytes⟩ ∧
      (∀ j ∈ live, Block.Apart arena.minBlock ⟨off, arena.orderFor bytes⟩ (blk j)) ∧
      ∀ i, blk i = ⟨off, arena.orderFor bytes⟩ → i ∉ live → next.Inv (insert i live) blk := by
  obtain ⟨-, -, horder, k, hmem, hlast, -, rfl⟩ := allocate_cases halloc
  -- popping the block makes it loose, splitting leaves its lowest part loose
  have hnodup := h.lists.free_nodup (arena.orderFor bytes + k)
  have happ := List.dropLast_append_getLast? off hlast
  have hgone : off ∉ (arena.free (arena.orderFor bytes + k)).dropLast := by
    rw [← happ] at hnodup
    intro hin
    exact (List.nodup_append.1 hnodup).2.2 off hin off (List.mem_singleton_self off) rfl
  have hsub : ∀ o, Function.update arena.free (arena.orderFor bytes + k)
      (arena.free (arena.orderFor bytes + k)).dropLast o ⊆ arena.free o := by
    intro o
    by_cases ho : o = arena.orderFor bytes + k
    · subst ho
      simpa using List.dropLast_subset _
    · simp [ho]
  have hless : ∀ o, (Function.update arena.free (arena.orderFor bytes + k)
      (arena.free (arena.orderFor bytes + k)).dropLast o).Nodup := by
    intro o
    by_cases ho : o = arena.orderFor bytes + k
    · subst ho
      simpa using hnodup.sublist (List.dropLast_sublist _)
    · simpa [ho] using h.lists.free_nodup o
  obtain ⟨hsplit, hloose⟩ := split_down_inv (h.lists.shrink hsub hless)
    (h.lists.loose_of_removed hmem hsub (by simpa using hgone))
  refine ⟨rfl, rfl, ?_, hloose.live, ?_⟩
  · rw [h.arena_eq]
    exact hloose.within
  · intro i hi hnot
    refine ⟨h.arena_eq, h.order_le, hsplit.insert_live (hi ▸ hloose) hnot, ?_⟩
    simp only [Finset.sum_insert hnot, h.used_eq, hi, Block.len, blockSize]
    omega

/-- Giving back a live block keeps the invariant. The geometry is unchanged. -/
theorem deallocate_spec (h : arena.Inv live blk) (hi : i ∈ live)
    (hblk : blk i = ⟨off, arena.orderFor bytes⟩) :
    (arena.deallocate off bytes).minBlock = arena.minBlock ∧
      (arena.deallocate off bytes).maxOrder = arena.maxOrder ∧
      (arena.deallocate off bytes).Inv (live.erase i) blk := by
  obtain ⟨hlists, hloose⟩ := h.lists.erase_live hi
  have horder := hloose.order
  rw [hblk] at hloose horder
  refine ⟨rfl, rfl, h.arena_eq, h.order_le, coalesce_inv ?_ hlists hloose, ?_⟩
  · exact Nat.add_sub_of_le horder
  · have hsum := Finset.add_sum_erase live (fun j => (blk j).len arena.minBlock) hi
    simp only [hblk, Block.len] at hsum
    simp only [deallocate, h.used_eq, blockSize, Block.len]
    omega

omit [DecidableEq ι] in
/-- An arena with nothing in use has nothing handed out. -/
theorem Inv.live_eq_empty (h : arena.Inv live blk) (hused : arena.used = 0) : live = ∅ := by
  rw [h.used_eq, Finset.sum_eq_zero_iff] at hused
  refine Finset.eq_empty_of_forall_notMem fun i hi => ?_
  exact absurd (hused i hi) (Block.len_pos h.lists.unit_pos (blk i)).ne'

omit [DecidableEq ι] in
/-- A request that fits succeeds as soon as some large enough order has a free block. -/
theorem allocate_some (hpos : 0 < bytes) (hle : bytes ≤ arena.arenaSize)
    (htarget : arena.orderFor bytes ≤ o) (ho : o ≤ arena.maxOrder) (hfree : arena.free o ≠ []) :
    ∃ off next, arena.allocate bytes = some (off, next) := by
  unfold allocate
  rw [if_neg (by omega)]
  dsimp only
  rw [if_neg (by omega)]
  cases hfind : (List.range' (arena.orderFor bytes)
      (arena.maxOrder + 1 - arena.orderFor bytes)).find? fun o => !(arena.free o).isEmpty with
  | none =>
      have hnone := List.find?_eq_none.1 hfind o (List.mem_range'_1.2 (by omega))
      simp [hfree] at hnone
  | some first =>
      have hne := List.find?_some hfind
      cases hlast : (arena.free first).getLast? with
      | none => simp [List.getLast?_eq_none_iff.1 hlast] at hne
      | some off =>
          simp only [hlast]
          exact ⟨off, _, rfl⟩

omit [DecidableEq ι] in
/-- A fresh arena serves every request up to its size. -/
theorem create_allocate {a : Nat} (hk : k ≤ 64) (hpos : 0 < bytes) (hle : bytes ≤ 2 ^ a * 2 ^ k) :
    ∃ off next, (create (2 ^ a * 2 ^ k) (2 ^ a)).allocate bytes = some (off, next) := by
  have hmax : orderLoop 64 (2 ^ a) (2 ^ a * 2 ^ k) = k :=
    order_loop_pow (Nat.two_pow_pos a) hk
  refine allocate_some hpos hle ?_ (le_of_eq hmax.symm) ?_
  · refine order_loop_le_of_le ?_
    split_ifs
    · exact Nat.le_mul_of_pos_right _ (Nat.two_pow_pos k)
    · exact hle
  · simp [create, hmax]

end Inv

end BuddyAllocator

end GoblinStore.Core
