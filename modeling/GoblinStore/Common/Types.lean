import Mathlib.Algebra.Group.Nat.Defs
import Mathlib.Tactic.Common

/-!
# Shared types and configuration

Sizes and offsets are natural numbers; where the 64-bit arithmetic of `types.hpp` can wrap,
the definitions reduce modulo `2 ^ 64` explicitly. `TierSizes` carries the order and the
alignment that `validate` checks, so an unchecked geometry cannot be built.
-/

namespace GoblinStore

/-- The modulus of `std::uint64_t`. -/
def wrap64 : Nat := 2 ^ 64

/-- The modulus of `std::uint32_t`. -/
def wrap32 : Nat := 2 ^ 32

/-- Device block and O_DIRECT alignment: 4 KiB. -/
def kDeviceBlock : Nat := 4096

theorem device_block_pos : 0 < kDeviceBlock := by decide

/-- A nonzero value with one bit set. -/
def isPowerOfTwo (v : Nat) : Bool := v ≠ 0 && v &&& (v - 1) = 0

variable {v : Nat}

theorem is_power_of_two_iff : isPowerOfTwo v = true ↔ ∃ k, v = 2 ^ k := by
  rw [isPowerOfTwo, Bool.and_eq_true, decide_eq_true_eq, decide_eq_true_eq]
  exact Nat.ne_zero_and_sub_one_eq_zero_iff_isPowerOfTwo

/-- A power of two that is not smaller is a multiple of 4 KiB. -/
theorem device_block_dvd (hpow : ∃ k, v = 2 ^ k) (hge : kDeviceBlock ≤ v) : kDeviceBlock ∣ v := by
  obtain ⟨k, rfl⟩ := hpow
  rw [show kDeviceBlock = 2 ^ 12 from rfl] at *
  exact Nat.pow_dvd_pow 2 ((Nat.pow_le_pow_iff_right (Nat.le_refl 2)).1 hge)

/-- `(v + a - 1) & ~(a - 1)` for a power of two `a`: the sum wraps, clearing the low bits
rounds down to a multiple of `a`. -/
def alignUp (v a : Nat) : Nat := (v + a - 1) % wrap64 / a * a

/-- Below the wrap, the rounded value is the least multiple of 4 KiB that is not smaller. -/
theorem align_up_spec (h : v + kDeviceBlock ≤ wrap64) :
    v ≤ alignUp v kDeviceBlock ∧ alignUp v kDeviceBlock < v + kDeviceBlock ∧
      kDeviceBlock ∣ alignUp v kDeviceBlock := by
  unfold alignUp
  rw [Nat.mod_eq_of_lt (by simp only [kDeviceBlock] at *; omega)]
  refine ⟨?_, ?_, Nat.dvd_mul_left _ _⟩ <;> simp only [kDeviceBlock] <;> omega

theorem align_up_aligned (v : Nat) : kDeviceBlock ∣ alignUp v kDeviceBlock := Nat.dvd_mul_left _ _

/-- An aligned size is its own rounding. -/
theorem align_up_of_dvd (h : v + kDeviceBlock ≤ wrap64) (hv : kDeviceBlock ∣ v) :
    alignUp v kDeviceBlock = v := by
  obtain ⟨hlo, hhi, hdvd⟩ := align_up_spec h
  obtain ⟨k, hk⟩ := hv
  obtain ⟨l, hl⟩ := hdvd
  simp only [kDeviceBlock] at *
  omega

/-- Error codes of `error.hpp` that the modelled functions return. -/
inductive Errc where
  | invalidArgument
  | notFound
  | ioError
  | wouldBlock
  | casMismatch
  deriving DecidableEq, Repr

/-- The 32-byte SHA-256 identity of a key. -/
structure Digest where
  bytes : List UInt8
  size_eq : bytes.length = 32
  deriving DecidableEq

namespace Digest

/-- The first eight bytes read as a little-endian 64-bit word: index bucket and stripe seed. -/
def bucket (digest : Digest) : Nat :=
  (digest.bytes.take 8).foldr (fun byte acc => byte.toNat + 256 * acc) 0

/-- The bucket is a 64-bit word. -/
theorem bucket_lt (digest : Digest) : digest.bucket < wrap64 := by
  have hword : ∀ bytes : List UInt8, bytes.foldr (fun byte acc => byte.toNat + 256 * acc) 0 <
      256 ^ bytes.length := by
    intro bytes
    induction bytes with
    | nil => exact Nat.one_pos
    | cons byte rest ih =>
        have hbyte := byte.toNat_lt
        rw [List.foldr_cons, List.length_cons, Nat.pow_succ]
        omega
  have hlen : (digest.bytes.take 8).length = 8 := by
    rw [List.length_take, digest.size_eq]
    rfl
  have h := hword (digest.bytes.take 8)
  rwa [hlen] at h

/-- The digest whose 32 bytes are all `b`. -/
def replicate (b : UInt8) : Digest := ⟨List.replicate 32 b, List.length_replicate⟩

end Digest

/-- Positional per-object tier sizes. -/
structure TierSizes where
  ramHead : Nat
  ssdPrefix : Nat
  ram_head_le : ramHead ≤ ssdPrefix
  ram_head_aligned : kDeviceBlock ∣ ramHead
  ssd_prefix_aligned : kDeviceBlock ∣ ssdPrefix

end GoblinStore
