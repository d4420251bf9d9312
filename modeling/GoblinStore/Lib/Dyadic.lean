import Mathlib.Data.Nat.Bitwise

/-!
# Dyadic blocks

A block of order `k` over a unit `m` is the interval of `m * 2 ^ k` positions starting at its
offset. `Block.Within` says that a block is aligned to its own length and lies below a limit,
`Block.Apart` that two blocks do not overlap. A block splits into its two halves and, when the
unit is a power of two, merges with its buddy, whose offset differs in one bit.
-/

namespace GoblinStore.Lib

/-- A block of `m * 2 ^ order` positions starting at `off`, for a unit `m` fixed by context. -/
structure Block where
  off : Nat
  order : Nat
  deriving DecidableEq, Repr

namespace Block

/-- The length of a block. -/
def len (m : Nat) (b : Block) : Nat := m * 2 ^ b.order

/-- Two blocks do not overlap. -/
def Apart (m : Nat) (b c : Block) : Prop := b.off + b.len m ≤ c.off ∨ c.off + c.len m ≤ b.off

/-- The block is aligned to its length and lies in `[0, limit)`. -/
def Within (m limit : Nat) (b : Block) : Prop := b.len m ∣ b.off ∧ b.off + b.len m ≤ limit

/-- The positions of a block. -/
def Covers (m : Nat) (b : Block) (x : Nat) : Prop := b.off ≤ x ∧ x < b.off + b.len m

/-- The lower half of a block of order `k + 1` at `off`. -/
def lower (off k : Nat) : Block := ⟨off, k⟩

/-- The upper half of a block of order `k + 1` at `off`. -/
def upper (m off k : Nat) : Block := ⟨off + m * 2 ^ k, k⟩

/-- The block that forms a block of the next order together with this one. -/
def buddy (m : Nat) (b : Block) : Block := ⟨b.off ^^^ b.len m, b.order⟩

/-- The block formed by a block and its buddy. -/
def parent (m : Nat) (b : Block) : Block := ⟨min b.off (b.buddy m).off, b.order + 1⟩

variable {m limit : Nat} {b c : Block}

theorem len_pos (hm : 0 < m) (b : Block) : 0 < b.len m := Nat.mul_pos hm (Nat.two_pow_pos _)

/-- A block of the next order is twice as long. -/
theorem len_succ (m off k : Nat) : (⟨off, k + 1⟩ : Block).len m = m * 2 ^ k + m * 2 ^ k := by
  simp only [len, Nat.pow_succ]
  rw [← Nat.mul_assoc, Nat.mul_two]

theorem Apart.symm (h : b.Apart m c) : c.Apart m b := Or.symm h

/-- A block that is apart from itself does not exist. -/
theorem not_apart_self (hm : 0 < m) : ¬ b.Apart m b := by
  have := len_pos hm b
  simp only [Apart]
  omega

variable {x : Nat}

/-- A position is in one of two blocks that are apart. -/
theorem Apart.not_covers (h : b.Apart m c) (hb : b.Covers m x) : ¬ c.Covers m x := by
  rintro ⟨hlow, hhigh⟩
  obtain ⟨hlow', hhigh'⟩ := hb
  rcases h with h | h <;> omega

/-- Aligned blocks are nested or apart. -/
theorem nested (hb : b.len m ∣ b.off) (hc : c.len m ∣ c.off) (horder : c.order ≤ b.order)
    (h : ¬ b.Apart m c) :
    b.off ≤ c.off ∧ c.off + c.len m ≤ b.off + b.len m := by
  -- all ends are multiples of the smaller length
  obtain ⟨p, hp⟩ : c.len m ∣ b.len m := Nat.mul_dvd_mul_left m (Nat.pow_dvd_pow 2 horder)
  obtain ⟨q, hq⟩ := (Dvd.intro p hp.symm).trans hb
  obtain ⟨u, hu⟩ := hc
  rw [Apart, not_or, Nat.not_le, Nat.not_le, hp, hq, hu, ← Nat.mul_add] at h
  have hlow : q < u + 1 := by
    refine Nat.lt_of_mul_lt_mul_left (a := c.len m) ?_
    rw [Nat.mul_add, Nat.mul_one]
    exact h.2
  have hhigh : u < q + p := Nat.lt_of_mul_lt_mul_left h.1
  rw [hp, hq, hu]
  refine ⟨Nat.mul_le_mul_left _ (by omega), ?_⟩
  calc c.len m * u + c.len m = c.len m * (u + 1) := by rw [Nat.mul_add, Nat.mul_one]
    _ ≤ c.len m * (q + p) := Nat.mul_le_mul_left _ hhigh
    _ = c.len m * q + c.len m * p := Nat.mul_add _ _ _

/-! ## Splitting -/

variable {off k : Nat}

theorem within_lower (h : Within m limit ⟨off, k + 1⟩) :
    Within m limit (lower off k) := by
  obtain ⟨hdvd, hle⟩ := h
  rw [len_succ] at hdvd hle
  refine ⟨dvd_trans ?_ hdvd, by simp only [lower, len] at *; omega⟩
  exact Dvd.intro 2 (by simp only [lower, len]; omega)

theorem within_upper (h : Within m limit ⟨off, k + 1⟩) :
    Within m limit (upper m off k) := by
  obtain ⟨hdvd, hle⟩ := within_lower h
  have hle' := h.2
  rw [len_succ] at hle'
  exact ⟨Nat.dvd_add hdvd (dvd_refl _), by simp only [upper, len] at *; omega⟩

/-- What is apart from a block is apart from its halves. -/
theorem apart_halves (h : Apart m ⟨off, k + 1⟩ c) :
    Apart m (lower off k) c ∧ Apart m (upper m off k) c := by
  simp only [Apart, len_succ] at h
  simp only [Apart, lower, upper, len] at h ⊢
  omega

/-- The halves of a block are apart. -/
theorem lower_apart_upper (off k : Nat) : Apart m (lower off k) (upper m off k) := by
  simp only [Apart, lower, upper, len]
  omega

/-- The halves of a block cover it. -/
theorem covers_halves (h : Covers m ⟨off, k + 1⟩ x) :
    Covers m (lower off k) x ∨ Covers m (upper m off k) x := by
  simp only [Covers, len_succ] at h
  simp only [Covers, lower, upper, len]
  omega

/-! ## Merging -/

/-- For a power-of-two unit, the buddy of an aligned block is the block just before or just
after it, so that the pair starts at a multiple of twice the length. -/
theorem buddy_off (hm : ∃ a, m = 2 ^ a) (h : b.len m ∣ b.off) :
    (∃ q, b.off = 2 * q * b.len m ∧ (b.buddy m).off = b.off + b.len m) ∨
      (∃ q, b.off = (2 * q + 1) * b.len m ∧ (b.buddy m).off = b.off - b.len m) := by
  obtain ⟨a, rfl⟩ := hm
  obtain ⟨q, hq⟩ := h
  have hlen : b.len (2 ^ a) = 1 <<< (a + b.order) := by
    rw [len, ← Nat.pow_add, Nat.one_shiftLeft]
  have hoff : b.off = q <<< (a + b.order) := by
    rw [hq, len, ← Nat.pow_add, Nat.shiftLeft_eq, Nat.mul_comm]
  have hxor : (b.buddy (2 ^ a)).off = (q ^^^ 1) <<< (a + b.order) := by
    simp only [buddy]
    rw [hlen, hoff, ← Nat.shiftLeft_xor_distrib]
  rcases Nat.even_or_odd' q with ⟨r, hr | hr⟩
  · refine Or.inl ⟨r, by rw [hq, hr, Nat.mul_comm], ?_⟩
    rw [hxor, Nat.xor_one_of_even ⟨r, by omega⟩, hoff, hlen]
    simp only [Nat.shiftLeft_eq, Nat.add_mul]
  · refine Or.inr ⟨r, by rw [hq, hr, Nat.mul_comm], ?_⟩
    rw [hxor, Nat.xor_one_of_odd ⟨r, by omega⟩, hoff, hlen]
    simp only [Nat.shiftLeft_eq, Nat.sub_mul]

/-- The parent starts at the lower of the two buddies and ends with the upper one. -/
theorem parent_cases (hm : ∃ a, m = 2 ^ a) (h : b.len m ∣ b.off) :
    ((b.parent m).off = b.off ∧ (b.buddy m).off = b.off + b.len m) ∨
      ((b.parent m).off = (b.buddy m).off ∧ b.off = (b.buddy m).off + b.len m) := by
  rcases buddy_off hm h with ⟨q, hq, hb⟩ | ⟨q, hq, hb⟩
  · exact Or.inl ⟨by simp only [parent, hb]; omega, hb⟩
  · have : b.len m ≤ b.off := by
      rw [hq, Nat.add_mul, Nat.one_mul]
      exact Nat.le_add_left _ _
    exact Or.inr ⟨by simp only [parent, hb]; omega, by omega⟩

@[simp] theorem buddy_len : (b.buddy m).len m = b.len m := rfl

theorem parent_len : (b.parent m).len m = b.len m + b.len m := len_succ m _ _

/-- The parent of an aligned block is aligned. -/
theorem parent_aligned (hm : ∃ a, m = 2 ^ a) (hb : b.len m ∣ b.off) :
    (b.parent m).len m ∣ (b.parent m).off := by
  rw [parent_len]
  rcases buddy_off hm hb with ⟨q, hq, ho⟩ | ⟨q, hq, ho⟩
  · have : (b.parent m).off = 2 * q * b.len m := by
      simp only [parent, ho]
      omega
    exact ⟨q, by rw [this, Nat.mul_comm 2 q, Nat.mul_assoc, Nat.two_mul, Nat.mul_comm]⟩
  · have : (b.parent m).off = 2 * q * b.len m := by
      rw [Nat.add_mul, Nat.one_mul] at hq
      simp only [parent, ho]
      omega
    exact ⟨q, by rw [this, Nat.mul_comm 2 q, Nat.mul_assoc, Nat.two_mul, Nat.mul_comm]⟩

/-- Buddies that both lie below the limit merge into a block that does. -/
theorem within_parent (hm : ∃ a, m = 2 ^ a) (hb : b.Within m limit)
    (hbuddy : (b.buddy m).Within m limit) : (b.parent m).Within m limit := by
  obtain ⟨hdvd, hle⟩ := hb
  obtain ⟨-, hle'⟩ := hbuddy
  refine ⟨parent_aligned hm hdvd, ?_⟩
  rw [parent_len]
  rw [buddy_len] at hle'
  rcases parent_cases hm hdvd with ⟨h1, h2⟩ | ⟨h1, h2⟩ <;> omega

/-- The parent covers what its two blocks cover. -/
theorem covers_parent (hm : ∃ a, m = 2 ^ a) (hb : b.len m ∣ b.off)
    (h : b.Covers m x ∨ (b.buddy m).Covers m x) : (b.parent m).Covers m x := by
  simp only [Covers, parent_len, buddy_len] at h ⊢
  rcases parent_cases hm hb with ⟨h1, h2⟩ | ⟨h1, h2⟩ <;> omega

theorem buddy_ne (hm : 0 < m) : (b.buddy m).off ≠ b.off := by
  intro h
  have hlen := len_pos hm b
  have hzero : b.len m = 0 := by
    have hxor : b.off ^^^ b.off ^^^ b.len m =
        b.off ^^^ b.off := by rw [Nat.xor_assoc]; exact congrArg _ h
    rwa [Nat.xor_self, Nat.zero_xor] at hxor
  omega

/-- The lower half of an aligned block has the upper half as its buddy. -/
theorem buddy_lower (hm : ∃ a, m = 2 ^ a) (h : (⟨off, k + 1⟩ : Block).len m ∣ off) :
    ((lower off k).buddy m).off = off + m * 2 ^ k := by
  obtain ⟨q, hq⟩ := h
  have hpos : 0 < m * 2 ^ k := by
    obtain ⟨a, rfl⟩ := hm
    exact Nat.mul_pos (Nat.two_pow_pos a) (Nat.two_pow_pos k)
  rw [len_succ, ← Nat.two_mul, Nat.mul_right_comm] at hq
  rcases buddy_off (b := lower off k) hm (Dvd.intro_left _ hq.symm) with ⟨r, -, hr⟩ | ⟨r, hr, -⟩
  · exact hr
  · -- an odd multiple is not an even one
    rw [show (lower off k).off = 2 * q * (m * 2 ^ k) from hq] at hr
    have heq := Nat.eq_of_mul_eq_mul_right hpos hr
    omega

/-- What is apart from both buddies is apart from their parent. -/
theorem apart_parent (hm : ∃ a, m = 2 ^ a) (hb : b.len m ∣ b.off) (h : b.Apart m c)
    (h' : (b.buddy m).Apart m c) : (b.parent m).Apart m c := by
  have hpos : 0 < m := by
    obtain ⟨a, rfl⟩ := hm
    exact Nat.two_pow_pos a
  have hc := len_pos hpos c
  simp only [Apart, parent_len, buddy_len] at *
  rcases parent_cases hm hb with ⟨h1, h2⟩ | ⟨h1, h2⟩ <;> omega

end Block

end GoblinStore.Lib
