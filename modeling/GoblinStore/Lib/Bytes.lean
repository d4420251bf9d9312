import Mathlib.Tactic.Common

/-!
# Byte buffers as functions

A buffer, a file body or a block of RAM is a function from positions to bytes.
`blit` is `memcpy` into such a function and `ByteView` is a sized, read-only view of one.
`Agrees` says that two functions carry the same bytes on a range of positions.
-/

namespace GoblinStore.Lib

/-- `dst` with the `n` bytes at `pos` replaced by the first `n` bytes of `src`. -/
def blit {α : Type*} (dst : Nat → α) (pos n : Nat) (src : Nat → α) : Nat → α :=
  fun i => if pos ≤ i ∧ i < pos + n then src (i - pos) else dst i

variable {α : Type*} {dst src : Nat → α} {pos n i : Nat}

/-- A position inside the copied range reads the source. -/
theorem blit_inside (hlo : pos ≤ i) (hhi : i < pos + n) :
    blit dst pos n src i = src (i - pos) := if_pos ⟨hlo, hhi⟩

/-- A position outside the copied range is untouched. -/
theorem blit_outside (h : i < pos ∨ pos + n ≤ i) : blit dst pos n src i = dst i :=
  if_neg (by omega)

/-- Position `pos + i` of the copy is position `i` of the source. -/
theorem blit_at (hi : i < n) : blit dst pos n src (pos + i) = src i := by
  rw [blit_inside (by omega) (by omega), Nat.add_sub_cancel_left]

/-- Copying nothing changes nothing. -/
@[simp] theorem blit_zero : blit dst pos 0 src = dst := by
  funext i
  exact blit_outside (by omega)

/-- A read-only view of `size` bytes: `std::span<const std::byte>`. -/
structure ByteView where
  size : Nat
  data : Nat → UInt8

namespace ByteView

/-- The empty view. -/
def empty : ByteView := ⟨0, fun _ => 0⟩

/-- The first view followed by the second. -/
def append (front back : ByteView) : ByteView :=
  ⟨front.size + back.size, blit front.data front.size back.size back.data⟩

@[simp] theorem append_size (front back : ByteView) :
    (front.append back).size = front.size + back.size := rfl

/-- Bytes of the first view keep their position. -/
theorem append_left {front back : ByteView} (hi : i < front.size) :
    (front.append back).data i = front.data i := blit_outside (by omega)

/-- Bytes of the second view follow those of the first. -/
theorem append_right {front back : ByteView} (hi : i < back.size) :
    (front.append back).data (front.size + i) = back.data i := blit_at hi

end ByteView

end GoblinStore.Lib
