import Mathlib.Algebra.Group.Nat.Defs
import Mathlib.Data.Nat.Find
import Mathlib.Tactic.Common

/-!
# SHA-256 as FIPS 180-4 defines it

The functions, constants, padding and hash computation of the standard, for messages of whole bytes.
A round constant is read off the cube root of a prime, an initial word off its square root;
`root_bits_eq` gives their values.
-/

namespace GoblinStore.Lib.Sha2

abbrev Word := BitVec 32

/-- The eight working variables, and the eight words of a hash value. -/
structure Registers (α : Type) where
  a : α
  b : α
  c : α
  d : α
  e : α
  f : α
  g : α
  h : α
  deriving DecidableEq

namespace Registers

def toList {α : Type} (r : Registers α) : List α := [r.a, r.b, r.c, r.d, r.e, r.f, r.g, r.h]

def map {α β : Type} (φ : α → β) (r : Registers α) : Registers β :=
  ⟨φ r.a, φ r.b, φ r.c, φ r.d, φ r.e, φ r.f, φ r.g, φ r.h⟩

/-- The words of two hash values added. -/
def add {α : Type} [Add α] (r s : Registers α) : Registers α :=
  ⟨r.a + s.a, r.b + s.b, r.c + s.c, r.d + s.d, r.e + s.e, r.f + s.f, r.g + s.g, r.h + s.h⟩

end Registers

/-! ## Functions -/

def ch (x y z : Word) : Word := (x &&& y) ^^^ (~~~x &&& z)

def maj (x y z : Word) : Word := (x &&& y) ^^^ (x &&& z) ^^^ (y &&& z)

def bigSigma0 (x : Word) : Word := x.rotateRight 2 ^^^ x.rotateRight 13 ^^^ x.rotateRight 22

def bigSigma1 (x : Word) : Word := x.rotateRight 6 ^^^ x.rotateRight 11 ^^^ x.rotateRight 25

def smallSigma0 (x : Word) : Word := x.rotateRight 7 ^^^ x.rotateRight 18 ^^^ x >>> 3

def smallSigma1 (x : Word) : Word := x.rotateRight 17 ^^^ x.rotateRight 19 ^^^ x >>> 10

/-! ## Constants -/

/-- The first 64 primes. -/
def primes : List Nat :=
  [2, 3, 5, 7, 11, 13, 17, 19, 23, 29, 31, 37, 41, 43, 47, 53, 59, 61, 67, 71, 73, 79, 83, 89, 97,
    101, 103, 107, 109,
   113, 127, 131, 137, 139, 149, 151, 157, 163, 167, 173, 179, 181, 191, 193, 197, 199, 211, 223,
   227, 229, 233, 239, 241, 251, 257, 263, 269, 271, 277, 281, 283, 293, 307, 311]

/-- The first 32 bits of the fractional part of the `k`-th root of `p`. -/
def rootBits (k p : Nat) : Nat :=
  Nat.findGreatest (fun r => r ^ k ≤ p * 2 ^ (32 * k)) (p * 2 ^ (32 * k)) % 2 ^ 32

/-- The constant of round `t`. -/
def roundConstant (t : Nat) : Word := BitVec.ofNat 32 (rootBits 3 (primes.getD t 0))

/-- The initial hash value. -/
def initialHash : Registers Word :=
  Registers.map (fun p => BitVec.ofNat 32 (rootBits 2 p)) ⟨2, 3, 5, 7, 11, 13, 17, 19⟩

theorem root_bits_eq {k p r : Nat} (hk : k ≠ 0) (hlow : r ^ k ≤ p * 2 ^ (32 * k))
    (hhigh : p * 2 ^ (32 * k) < (r + 1) ^ k) :
    rootBits k p = r % 2 ^ 32 := by
  have hgreatest : Nat.findGreatest (fun r => r ^ k ≤ p * 2 ^ (32 * k)) (p * 2 ^ (32 * k)) = r := by
    refine Nat.findGreatest_eq_iff.2
      ⟨Nat.le_trans (Nat.le_self_pow hk r) hlow, fun _ => hlow, fun n hn _ hle => ?_⟩
    have hpow : (r + 1) ^ k ≤ n ^ k := Nat.pow_le_pow_left hn k
    omega
  rw [rootBits, hgreatest]

/-! ## Bytes -/

/-- The number that bytes stand for, the highest first. -/
def bigEndian (bytes : List UInt8) : Nat := bytes.foldl (fun n b => n * 256 + b.toNat) 0

/-- A number in this many bytes, the highest first. -/
def bigEndianBytes (count n : Nat) : List UInt8 :=
  (List.range count).map fun i => UInt8.ofNat (n / 256 ^ (count - 1 - i))

/-! ## Padding -/

theorem exists_zero_bytes (len : Nat) : ∃ k, 64 ∣ len + 1 + k + 8 :=
  ⟨(64 - (len + 9) % 64) % 64, by omega⟩

/-- The least number of zero bytes that makes whole blocks. -/
def zeroBytes (len : Nat) : Nat := Nat.find (exists_zero_bytes len)

/-- The message with the bit one, zeros and its length in bits. -/
def pad (m : List UInt8) : List UInt8 :=
  m ++ 128 :: (List.replicate (zeroBytes m.length) 0 ++ bigEndianBytes 8 (8 * m.length))

/-- The blocks of 512 bits. -/
def blocks (s : List UInt8) : List (List UInt8) :=
  (List.range (s.length / 64)).map fun i => (s.drop (64 * i)).take 64

/-! ## Hash computation -/

/-- The word `t` of a block. -/
def wordOf (block : List UInt8) (t : Nat) : Word :=
  BitVec.ofNat 32 (bigEndian ((block.drop (4 * t)).take 4))

/-- The message schedule. -/
def schedule (block : List UInt8) (t : Nat) : Word :=
  if t < 16 then wordOf block t
  else smallSigma1 (schedule block (t - 2)) + schedule block (t - 7) + smallSigma0
    (schedule block (t - 15)) +
    schedule block (t - 16)
termination_by t

def round (k w : Word) (r : Registers Word) : Registers Word :=
  let t1 := r.h + bigSigma1 r.e + ch r.e r.f r.g + k + w
  let t2 := bigSigma0 r.a + maj r.a r.b r.c
  ⟨t1 + t2, r.a, r.b, r.c, r.d + t1, r.e, r.f, r.g⟩

/-- The hash value after a block. -/
def compress (hash : Registers Word) (block : List UInt8) : Registers Word :=
  Registers.add ((List.range 64).foldl
    (fun r t => round (roundConstant t) (schedule block t) r) hash) hash

/-- The message digest. -/
def sha256 (m : List UInt8) : List UInt8 :=
  ((blocks (pad m)).foldl compress initialHash).toList.flatMap fun w => bigEndianBytes 4 w.toNat

end GoblinStore.Lib.Sha2
