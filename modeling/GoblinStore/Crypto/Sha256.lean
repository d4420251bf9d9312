import GoblinStore.Common.Types
import GoblinStore.Lib.Bytes
import GoblinStore.Lib.Sha2
import Mathlib.Data.List.GetD

/-!
# SHA-256 of a key

`sha256` hashes the full blocks of the data in place and builds the last one or two blocks in a
buffer of its own. It computes the digest of the standard (`sha256_eq_standard`).
-/

namespace GoblinStore.Crypto

open GoblinStore.Lib GoblinStore.Lib.Sha2

/-- The round constants. -/
def K : List UInt32 :=
  [0x428a2f98, 0x71374491, 0xb5c0fbcf, 0xe9b5dba5, 0x3956c25b, 0x59f111f1, 0x923f82a4, 0xab1c5ed5,
   0xd807aa98, 0x12835b01, 0x243185be, 0x550c7dc3, 0x72be5d74, 0x80deb1fe, 0x9bdc06a7, 0xc19bf174,
   0xe49b69c1, 0xefbe4786, 0x0fc19dc6, 0x240ca1cc, 0x2de92c6f, 0x4a7484aa, 0x5cb0a9dc, 0x76f988da,
   0x983e5152, 0xa831c66d, 0xb00327c8, 0xbf597fc7, 0xc6e00bf3, 0xd5a79147, 0x06ca6351, 0x14292967,
   0x27b70a85, 0x2e1b2138, 0x4d2c6dfc, 0x53380d13, 0x650a7354, 0x766a0abb, 0x81c2c92e, 0x92722c85,
   0xa2bfe8a1, 0xa81a664b, 0xc24b8b70, 0xc76c51a3, 0xd192e819, 0xd6990624, 0xf40e3585, 0x106aa070,
   0x19a4c116, 0x1e376c08, 0x2748774c, 0x34b0bcb5, 0x391c0cb3, 0x4ed8aa4a, 0x5b9cca4f, 0x682e6ff3,
   0x748f82ee, 0x78a5636f, 0x84c87814, 0x8cc70208, 0x90befffa, 0xa4506ceb, 0xbef9a3f7, 0xc67178f2]

def rotr (x n : UInt32) : UInt32 := (x >>> n) ||| (x <<< (32 - n))

variable (state : Registers UInt32) (p : Nat → UInt8)

/-- Word `i` of the block at `p`. -/
def loadWord (i : Nat) : UInt32 :=
  ((p (i * 4)).toUInt32 <<< 24) ||| ((p (i * 4 + 1)).toUInt32 <<< 16) |||
    ((p (i * 4 + 2)).toUInt32 <<< 8) |||
    (p (i * 4 + 3)).toUInt32

/-- The next entry of `w`. -/
def expand (w : List UInt32) (i : Nat) : List UInt32 :=
  let s0 := rotr (w.getD (i - 15) 0) 7 ^^^ rotr (w.getD (i - 15) 0) 18 ^^^ (w.getD (i - 15) 0 >>> 3)
  let s1 := rotr (w.getD (i - 2) 0) 17 ^^^ rotr (w.getD (i - 2) 0) 19 ^^^ (w.getD (i - 2) 0 >>> 10)
  w ++ [w.getD (i - 16) 0 + s0 + w.getD (i - 7) 0 + s1]

/-- The array `w`, filled in order. -/
def schedule : List UInt32 := (List.range' 16 48).foldl expand ((List.range 16).map (loadWord p))

/-- One round with its constant and its entry of `w`. -/
def round (k w : UInt32) (r : Registers UInt32) : Registers UInt32 :=
  let S1 := rotr r.e 6 ^^^ rotr r.e 11 ^^^ rotr r.e 25
  let ch := (r.e &&& r.f) ^^^ (~~~r.e &&& r.g)
  let t1 := r.h + S1 + ch + k + w
  let S0 := rotr r.a 2 ^^^ rotr r.a 13 ^^^ rotr r.a 22
  let maj := (r.a &&& r.b) ^^^ (r.a &&& r.c) ^^^ (r.b &&& r.c)
  let t2 := S0 + maj
  ⟨t1 + t2, r.a, r.b, r.c, r.d + t1, r.e, r.f, r.g⟩

def sha256Block : Registers UInt32 :=
  let w := schedule p
  let r := (List.range 64).foldl (fun r i => round (K.getD i 0) (w.getD i 0) r) state
  state.add r

def initialState : Registers UInt32 :=
  ⟨0x6a09e667, 0xbb67ae85, 0x3c6ef372, 0xa54ff53a, 0x510e527f, 0x9b05688c, 0x1f83d9ab, 0x5be0cd19⟩

/-- The size of the last blocks. -/
def padlen (len : Nat) : Nat := if len % 64 < 56 then 64 else 128

/-- The buffer of the last blocks, of which `scratch` is what was there before. -/
def lastBlocks (scratch data : Nat → UInt8) (len : Nat) : Nat → UInt8 :=
  let rem := len % 64
  let tail := if rem = 0 then scratch else blit scratch 0 rem fun i => data (len / 64 * 64 + i)
  let tail := blit tail rem 1 fun _ => 0x80
  let tail := blit tail (rem + 1) (padlen len - rem - 1 - 8) fun _ => 0
  let bits := len * 8 % wrap64
  (List.range 8).foldl (fun tail i => blit tail (padlen len - 1 - i) 1 fun _ =>
  UInt8.ofNat (bits >>> (i * 8))) tail

/-- The bytes of a word of the state in the digest. -/
def wordBytes (w : UInt32) : List UInt8 :=
  [((w >>> 24) &&& 0xFF).toUInt8, ((w >>> 16) &&& 0xFF).toUInt8, ((w >>> 8) &&& 0xFF).toUInt8,
    (w &&& 0xFF).toUInt8]

/-- The state after all blocks. -/
def finalState (scratch data : Nat → UInt8) (len : Nat) : Registers UInt32 :=
  let state := (List.range (len / 64)).foldl
    (fun state i => sha256Block state fun j => data (i * 64 + j)) initialState
  let tail := lastBlocks scratch data len
  let state := sha256Block state tail
  if padlen len = 128 then sha256Block state fun j => tail (64 + j) else state

def sha256 (scratch data : Nat → UInt8) (len : Nat) : Digest where
  bytes := (finalState scratch data len).toList.flatMap wordBytes
  size_eq := rfl

/-- The identity of a key. -/
def hashKey (scratch : Nat → UInt8) (key : List UInt8) : Digest :=
  sha256 scratch (fun i => key.getD i 0) key.length

/-! ## Words -/

/-- The words of the standard. -/
def bits (r : Registers UInt32) : Registers Word := r.map UInt32.toBitVec

/-- Rotations and the other operators are those of the standard. -/
theorem round_eq (k w : UInt32) (r : Registers UInt32) :
    bits (round k w r) = Sha2.round k.toBitVec w.toBitVec (bits r) := rfl

/-- Bytes shifted apart are the digits of a number. -/
theorem or_bytes {a b c d : Nat} (hb : b < 256) (hc : c < 256) (hd : d < 256) :
    a <<< 24 ||| b <<< 16 ||| c <<< 8 ||| d = ((a * 256 + b) * 256 + c) * 256 + d := by
  have hlow : c <<< 8 ||| d = c * 256 + d := by
    rw [← Nat.shiftLeft_add_eq_or_of_lt hd, Nat.shiftLeft_eq]
  have hmid : b <<< 16 ||| (c * 256 + d) = b * 65536 + (c * 256 + d) := by
    rw [← Nat.shiftLeft_add_eq_or_of_lt (by omega), Nat.shiftLeft_eq]
  rw [Nat.or_assoc, hlow, Nat.or_assoc, hmid, ← Nat.shiftLeft_add_eq_or_of_lt (by omega),
    Nat.shiftLeft_eq]
  omega

/-- A word is loaded with its highest byte first. -/
theorem load_word_eq (i : Nat) : (loadWord p i).toBitVec =
      BitVec.ofNat 32 (bigEndian [p (i * 4), p (i * 4 + 1), p (i * 4 + 2), p (i * 4 + 3)]) := by
  have h0 := (p (i * 4)).toNat_lt
  have h1 := (p (i * 4 + 1)).toNat_lt
  have h2 := (p (i * 4 + 2)).toNat_lt
  have h3 := (p (i * 4 + 3)).toNat_lt
  have hshift : ∀ (b : UInt8) (n : Nat), n ≤ 24 → b.toNat <<< n % 2 ^ 32 = b.toNat <<< n := by
    intro b n hn
    have hb := b.toNat_lt
    have hpow : 2 ^ n ≤ 2 ^ 24 := Nat.pow_le_pow_right (by decide) hn
    rw [Nat.shiftLeft_eq, Nat.mod_eq_of_lt]
    calc b.toNat * 2 ^ n ≤ 255 * 2 ^ 24 := Nat.mul_le_mul (by omega) hpow
      _ < 2 ^ 32 := by decide
  refine BitVec.eq_of_toNat_eq ?_
  rw [BitVec.toNat_ofNat, UInt32.toNat_toBitVec]
  simp only [loadWord, UInt32.toNat_or, UInt32.toNat_shiftLeft, UInt8.toNat_toUInt32]
  show (p (i * 4)).toNat <<< 24 % 2 ^ 32 ||| (p (i * 4 + 1)).toNat <<< 16 % 2 ^ 32 |||
    (p (i * 4 + 2)).toNat <<< 8 % 2 ^ 32 ||| (p (i * 4 + 3)).toNat = _
  rw [hshift _ _ (by decide), hshift _ _ (by decide), hshift _ _ (by decide), or_bytes h1 h2 h3]
  have hvalue : bigEndian [p (i * 4), p (i * 4 + 1), p (i * 4 + 2), p (i * 4 + 3)] =
      (((0 * 256 + (p (i * 4)).toNat) * 256 + (p (i * 4 + 1)).toNat) * 256 +
      (p (i * 4 + 2)).toNat) * 256 +
        (p (i * 4 + 3)).toNat := rfl
  rw [hvalue, Nat.zero_mul, Nat.zero_add, Nat.mod_eq_of_lt (by omega)]

/-- The block of the 64 bytes at `p`. -/
def blockAt : List UInt8 := (List.range 64).map p

theorem word_of_block {t : Nat} (ht : t < 16) : wordOf (blockAt p) t = (loadWord p t).toBitVec := by
  have hbytes : ((blockAt p).drop (4 * t)).take 4 =
      [p (t * 4), p (t * 4 + 1), p (t * 4 + 2), p (t * 4 + 3)] := by
    refine List.ext_getElem ?_ fun i hi hi' => ?_
    · simp [blockAt]
      omega
    · have hfour : i < 4 := hi'
      have hget : (((blockAt p).drop (4 * t)).take 4)[i] = p (4 * t + i) := by
        simp [blockAt]
      rw [hget]
      rcases i with _ | _ | _ | _ | i
      · exact congrArg p (by omega)
      · exact congrArg p (by omega)
      · exact congrArg p (by omega)
      · exact congrArg p (by omega)
      · omega
  rw [wordOf, hbytes, load_word_eq]

/-- The entries of `w` so far are those of the message schedule. -/
def Scheduled (w : List UInt32) (n : Nat) : Prop :=
  w.length = n ∧ ∀ t < n, (w.getD t 0).toBitVec = Sha2.schedule (blockAt p) t

/-- The first loop loads the words of the block. -/
theorem scheduled_load : Scheduled p ((List.range 16).map (loadWord p)) 16 := by
  refine ⟨by simp, fun t ht => ?_⟩
  rw [Sha2.schedule, if_pos ht, word_of_block p ht]
  simp [List.getD_eq_getElem?_getD, ht]

variable {n : Nat}

/-- An iteration of the second loop adds the next entry. -/
theorem Scheduled.expand {p : Nat → UInt8} {w : List UInt32} (h : Scheduled p w n) (hn : 16 ≤ n) :
    Scheduled p (expand w n) (n + 1) := by
  obtain ⟨hlen, hw⟩ := h
  refine ⟨by rw [Crypto.expand, List.length_append, hlen]; rfl, fun t ht => ?_⟩
  rcases Nat.lt_or_ge t n with hold | hnew
  · rw [← hw t hold, Crypto.expand, List.getD_append _ _ _ _ (by omega)]
  · obtain rfl : t = n := by omega
    have hentry : ((Crypto.expand w t).getD t 0).toBitVec =
        (w.getD (t - 16) 0).toBitVec + smallSigma0 (w.getD (t - 15) 0).toBitVec +
        (w.getD (t - 7) 0).toBitVec +
          smallSigma1 (w.getD (t - 2) 0).toBitVec := by
      rw [Crypto.expand, List.getD_append_right _ _ _ _ (by omega), hlen, Nat.sub_self]
      rfl
    rw [hentry, hw _ (by omega), hw _ (by omega), hw _ (by omega), hw _ (by omega)]
    conv_rhs => rw [Sha2.schedule, if_neg (by omega)]
    ac_rfl

theorem schedule_eq : Scheduled p (schedule p) 64 := by
  have hloop : ∀ n, Scheduled p ((List.range' 16 n).foldl expand ((List.range 16).map (loadWord p)))
      (16 + n) := by
    intro n
    induction n with
    | zero => exact scheduled_load p
    | succ n ih =>
        rw [List.range'_concat, List.foldl_append, Nat.one_mul]
        exact ih.expand (by omega)
  exact hloop 48

/-! ## Constants -/

/-- Every constant is the fractional part of the cube root of its prime. -/
theorem round_constant_eq {t : Nat} (ht : t < 64) : (K.getD t 0).toBitVec = roundConstant t := by
  have hroots : ∀ t < 64, ∃ c < 7, (c * 2 ^ 32 + (K.getD t 0).toNat) ^ 3 ≤
      primes.getD t 0 * 2 ^ (32 * 3) ∧
      primes.getD t 0 * 2 ^ (32 * 3) < (c * 2 ^ 32 + (K.getD t 0).toNat + 1) ^ 3 := by
    decide +kernel
  obtain ⟨c, -, hlow, hhigh⟩ := hroots t ht
  refine BitVec.eq_of_toNat_eq ?_
  rw [roundConstant, root_bits_eq (by decide) hlow hhigh,
    Nat.mul_add_mod_of_lt (K.getD t 0).toNat_lt, BitVec.toNat_ofNat,
    Nat.mod_eq_of_lt (K.getD t 0).toNat_lt, UInt32.toNat_toBitVec]

/-- Every initial word is the fractional part of the square root of its prime. -/
theorem initial_state_eq : bits initialState = initialHash := by
  have hroot : ∀ {p c v : Nat}, (c * 2 ^ 32 + v) ^ 2 ≤ p * 2 ^ (32 * 2) →
      p * 2 ^ (32 * 2) < (c * 2 ^ 32 + v + 1) ^ 2 →
      v < 2 ^ 32 → rootBits 2 p = v := by
    intro p c v hlow hhigh hv
    rw [root_bits_eq (by decide) hlow hhigh, Nat.mul_add_mod_of_lt hv]
  have h2 : rootBits 2 2 = 0x6a09e667 := hroot (c := 1) (by decide) (by decide) (by decide)
  have h3 : rootBits 2 3 = 0xbb67ae85 := hroot (c := 1) (by decide) (by decide) (by decide)
  have h5 : rootBits 2 5 = 0x3c6ef372 := hroot (c := 2) (by decide) (by decide) (by decide)
  have h7 : rootBits 2 7 = 0xa54ff53a := hroot (c := 2) (by decide) (by decide) (by decide)
  have h11 : rootBits 2 11 = 0x510e527f := hroot (c := 3) (by decide) (by decide) (by decide)
  have h13 : rootBits 2 13 = 0x9b05688c := hroot (c := 3) (by decide) (by decide) (by decide)
  have h17 : rootBits 2 17 = 0x1f83d9ab := hroot (c := 4) (by decide) (by decide) (by decide)
  have h19 : rootBits 2 19 = 0x5be0cd19 := hroot (c := 4) (by decide) (by decide) (by decide)
  simp only [initialHash, Registers.map, h2, h3, h5, h7, h11, h13, h17, h19]
  rfl

/-! ## Blocks -/

/-- The rounds of a block. -/
theorem rounds_eq (hn : n ≤ 64) :
    bits ((List.range n).foldl (fun r i => round (K.getD i 0) ((schedule p).getD i 0) r) state) =
      (List.range n).foldl (fun r t => Sha2.round (roundConstant t) (Sha2.schedule (blockAt p) t) r)
      (bits state) := by
  induction n with
  | zero => rfl
  | succ n ih =>
      rw [List.range_succ, List.foldl_append, List.foldl_append, ← ih (by omega)]
      show bits (round (K.getD n 0) ((schedule p).getD n 0) _) = Sha2.round (roundConstant n) _ _
      rw [round_eq, round_constant_eq (by omega), (schedule_eq p).2 n (by omega)]

theorem sha256_block_eq :
    bits (sha256Block state p) = compress (bits state) (blockAt p) := by
  have hadd : ∀ r : Registers UInt32, bits (state.add r) = (bits r).add (bits state) := by
    intro r
    simp only [bits, Registers.add, Registers.map, UInt32.toBitVec_add, BitVec.add_comm]
  rw [compress, ← rounds_eq state p le_rfl, ← hadd]
  rfl

theorem block_at_congr {p q : Nat → UInt8} (h : ∀ j < 64, p j = q j) : blockAt p = blockAt q :=
  List.map_congr_left fun j hj => h j (List.mem_range.1 hj)

/-- The blocks of a text of whole blocks. -/
theorem blocks_eq {s : List UInt8} (hlen : s.length = 64 * n) :
    blocks s = (List.range n).map fun i => blockAt fun j => s.getD (i * 64 + j) 0 := by
  rw [blocks, hlen, Nat.mul_div_cancel_left n (by decide)]
  refine List.map_congr_left fun i hi => ?_
  have hin : i < n := List.mem_range.1 hi
  refine List.ext_getElem ?_ fun j hj hj' => ?_
  · rw [List.length_take, List.length_drop, hlen, blockAt, List.length_map, List.length_range]
    omega
  · have hlt : j < 64 := by
      rw [List.length_take] at hj
      omega
    simp only [blockAt, List.getElem_take, List.getElem_drop, List.getElem_map, List.getElem_range]
    rw [List.getD_eq_getElem _ _ (by omega)]
    exact getElem_congr_idx (by omega)

/-! ## Padding -/

section Padding

variable {len : Nat}

theorem padlen_cases (len : Nat) :
    (len % 64 < 56 ∧ padlen len = 64) ∨ (56 ≤ len % 64 ∧ padlen len = 128) := by
  unfold padlen
  split_ifs with h
  · exact Or.inl ⟨h, rfl⟩
  · exact Or.inr ⟨Nat.not_lt.1 h, rfl⟩

/-- One or two blocks are the least that the rest of the message needs. -/
theorem zero_bytes_eq (len : Nat) : zeroBytes len = padlen len - len % 64 - 9 := by
  rw [zeroBytes, Nat.find_eq_iff]
  have hmod := Nat.mod_lt len (show 0 < 64 by decide)
  rcases padlen_cases len with ⟨hrem, hpad⟩ | ⟨hrem, hpad⟩ <;> rw [hpad] <;>
    refine ⟨by omega, fun k hk => by omega⟩

theorem pad_length (m : List UInt8) : (pad m).length = m.length / 64 * 64 + padlen m.length := by
  have hmod := Nat.mod_lt m.length (show 0 < 64 by decide)
  have hzeros := zero_bytes_eq m.length
  simp only [pad, List.length_append, List.length_cons, List.length_replicate, bigEndianBytes,
    List.length_map, List.length_range]
  rcases padlen_cases m.length with ⟨hrem, hpad⟩ | ⟨hrem, hpad⟩ <;> omega

variable {m : List UInt8}

theorem pad_get_message {i : Nat} (hi : i < m.length) : (pad m).getD i 0 = m.getD i 0 :=
  List.getD_append _ _ _ _ hi

theorem pad_get_one (m : List UInt8) : (pad m).getD m.length 0 = 128 := by
  rw [pad, List.getD_append_right _ _ _ _ le_rfl, Nat.sub_self]
  rfl

/-- What follows the bit one. -/
theorem pad_get_after (m : List UInt8) (j : Nat) : (pad m).getD (m.length + 1 + j) 0 =
      (List.replicate (zeroBytes m.length) 0 ++ bigEndianBytes 8 (8 * m.length)).getD j 0 := by
  rw [pad, List.getD_append_right _ _ _ _ (by omega), show m.length + 1 + j - m.length =
    j + 1 by omega]
  rfl

variable {j : Nat}

theorem pad_get_zero (hj : j < zeroBytes m.length) : (pad m).getD (m.length + 1 + j) 0 = 0 := by
  rw [pad_get_after, List.getD_append _ _ _ _ (by rwa [List.length_replicate]),
    List.getD_replicate _ hj]

theorem pad_get_length (hj : j < 8) :
    (pad m).getD (m.length + 1 + (zeroBytes m.length + j)) 0 =
      UInt8.ofNat (8 * m.length / 256 ^ (7 - j)) := by
  rw [pad_get_after, List.getD_append_right _ _ _ _ (by rw [List.length_replicate]; omega),
    List.length_replicate, Nat.add_sub_cancel_left, bigEndianBytes,
    List.getD_eq_getElem _ _ (by simpa using hj), List.getElem_map, List.getElem_range]

/-- The loop that writes the length backwards from the end of the last block. -/
theorem foldl_length_bytes (tail : Nat → UInt8) (byte : Nat → UInt8) {top n : Nat}
    (hn : n ≤ top) (j : Nat) :
    (List.range n).foldl (fun tail i => blit tail (top - 1 - i) 1 fun _ => byte i) tail j =
      if top - n ≤ j ∧ j < top then byte (top - 1 - j) else tail j := by
  induction n with
  | zero =>
      rw [if_neg (by omega)]
      rfl
  | succ n ih =>
      rw [List.range_succ, List.foldl_append, List.foldl_cons, List.foldl_nil]
      by_cases hj : j = top - 1 - n
      · rw [if_pos (by omega), blit_inside (by omega) (by omega), hj,
          show top - 1 - (top - 1 - n) = n by omega]
      · rw [blit_outside (by omega), ih (by omega)]
        by_cases hin : top - n ≤ j ∧ j < top
        · rw [if_pos hin, if_pos (by omega)]
        · rw [if_neg hin, if_neg (by omega)]

/-- The buffer holds the end of the padded message, whatever was in it before. -/
theorem last_blocks_eq (scratch : Nat → UInt8) (hm : m.length < 2 ^ 61) (hj : j < padlen m.length) :
    lastBlocks scratch (fun i => m.getD i 0) m.length j =
      (pad m).getD (m.length / 64 * 64 + j) 0 := by
  have hmod := Nat.mod_lt m.length (show 0 < 64 by decide)
  have hdiv := Nat.div_add_mod m.length 64
  have hzeros := zero_bytes_eq m.length
  have hroom : m.length % 64 + 9 ≤ padlen m.length := by
    rcases padlen_cases m.length with ⟨hrem, hpad⟩ | ⟨hrem, hpad⟩ <;> omega
  have hbits : m.length * 8 % wrap64 = 8 * m.length := by
    rw [Nat.mod_eq_of_lt (by unfold wrap64; omega), Nat.mul_comm]
  unfold lastBlocks
  simp only [hbits]
  rw [foldl_length_bytes _ _ (by omega)]
  by_cases hlength : padlen m.length - 8 ≤ j
  · -- the length in bits
    rw [if_pos ⟨hlength, hj⟩]
    have hpos : m.length / 64 * 64 + j =
        m.length + 1 + (zeroBytes m.length + (j - (padlen m.length - 8))) := by omega
    rw [hpos, pad_get_length (by omega), Nat.shiftRight_eq_div_pow,
      show (256 : Nat) = 2 ^ 8 from rfl, ← Nat.pow_mul]
    congr 3
    omega
  rw [if_neg (by omega)]
  by_cases hzero : m.length % 64 + 1 ≤ j
  · have hpos : m.length / 64 * 64 + j = m.length + 1 + (j - (m.length % 64 + 1)) := by omega
    rw [blit_inside hzero (by omega), hpos, pad_get_zero (by omega)]
  rw [blit_outside (by omega)]
  by_cases hone : j = m.length % 64
  · have hpos : m.length / 64 * 64 + j = m.length := by omega
    rw [blit_inside (by omega) (by omega), hpos, pad_get_one]
  · rw [blit_outside (by omega), if_neg (by omega), blit_inside (by omega) (by omega), Nat.sub_zero,
      pad_get_message (by omega)]

end Padding

/-! ## The digest -/

theorem byte_eq (x : UInt32) : (x &&& 0xFF).toUInt8 = UInt8.ofNat x.toNat := by
  refine UInt8.toNat_inj.1 ?_
  rw [UInt32.toNat_toUInt8, UInt32.toNat_and, UInt8.toNat_ofNat']
  show (x.toNat &&& 2 ^ 8 - 1) % 2 ^ 8 = x.toNat % 2 ^ 8
  rw [Nat.and_two_pow_sub_one_eq_mod, Nat.mod_mod]

/-- The bytes of a word. -/
theorem word_bytes_eq (w : UInt32) : wordBytes w = bigEndianBytes 4 w.toBitVec.toNat := by
  simp only [wordBytes, byte_eq, UInt32.toNat_shiftRight, Nat.shiftRight_eq_div_pow]
  show [_, _, _, UInt8.ofNat w.toNat] = [_, _, _, UInt8.ofNat (w.toNat / 1)]
  rw [Nat.div_one]
  rfl

/-- The full blocks are hashed in place. -/
theorem full_blocks_eq (m : List UInt8) (hn : n ≤ m.length / 64) :
    bits ((List.range n).foldl (fun state i => sha256Block state fun j => m.getD (i * 64 + j) 0)
      initialState) =
      (List.range n).foldl (fun hash i =>
      compress hash (blockAt fun j => (pad m).getD (i * 64 + j) 0)) initialHash := by
  induction n with
  | zero => exact initial_state_eq
  | succ n ih =>
      rw [List.range_succ, List.foldl_append, List.foldl_append, List.foldl_cons, List.foldl_nil,
        List.foldl_cons, List.foldl_nil, sha256_block_eq, ih (by omega)]
      exact congrArg _ (block_at_congr fun j hj => (pad_get_message (by omega)).symm)

/-- The blocks of the padded message, hashed in place and from the buffer. -/
theorem final_state_eq (scratch : Nat → UInt8) {m : List UInt8} (hm : m.length < 2 ^ 61) :
    bits (finalState scratch (fun i => m.getD i 0) m.length) =
      (blocks (pad m)).foldl compress initialHash := by
  have hfull := full_blocks_eq m le_rfl
  have hlen := pad_length m
  unfold finalState
  rcases padlen_cases m.length with ⟨-, hpad⟩ | ⟨-, hpad⟩
  · have hfirst : blockAt (lastBlocks scratch (fun i => m.getD i 0) m.length) =
        blockAt fun j => (pad m).getD (m.length / 64 * 64 + j) 0 :=
      block_at_congr fun j hj => last_blocks_eq scratch hm (by omega)
    rw [if_neg (by omega), sha256_block_eq, hfull, hfirst,
      blocks_eq (n := m.length / 64 + 1) (by omega), List.foldl_map, List.range_succ,
        List.foldl_append]
    rfl
  · have hfirst : blockAt (lastBlocks scratch (fun i => m.getD i 0) m.length) =
        blockAt fun j => (pad m).getD (m.length / 64 * 64 + j) 0 :=
      block_at_congr fun j hj => last_blocks_eq scratch hm (by omega)
    have hsecond : blockAt (fun j => lastBlocks scratch (fun i => m.getD i 0) m.length (64 + j)) =
        blockAt fun j => (pad m).getD ((m.length / 64 + 1) * 64 + j) 0 := by
      refine block_at_congr fun j hj => ?_
      rw [last_blocks_eq scratch hm (by omega)]
      exact congrArg (fun i => (pad m).getD i 0) (by omega)
    rw [if_pos hpad, sha256_block_eq, sha256_block_eq, hfull, hfirst, hsecond,
      blocks_eq (n := m.length / 64 + 2) (by omega), List.foldl_map, List.range_succ,
        List.range_succ, List.foldl_append,
      List.foldl_append]
    rfl

/-- `sha256` is the hash of the standard for every message that it defines one for. -/
theorem sha256_eq_standard (scratch : Nat → UInt8) (m : List UInt8) (hm : m.length < 2 ^ 61) :
    (sha256 scratch (fun i => m.getD i 0) m.length).bytes = Sha2.sha256 m := by
  have hbytes : ∀ r : Registers UInt32, r.toList.flatMap wordBytes =
      (bits r).toList.flatMap fun w => bigEndianBytes 4 w.toNat := by
    intro r
    simp only [Registers.toList, bits, Registers.map, List.flatMap_cons, List.flatMap_nil,
      word_bytes_eq]
  show (finalState scratch (fun i => m.getD i 0) m.length).toList.flatMap wordBytes = _
  rw [hbytes, final_state_eq scratch hm]
  rfl

example :
    (hashKey (fun _ => 0xAA) [97, 98, 99]).bytes =
      [0xba, 0x78, 0x16, 0xbf, 0x8f, 0x01, 0xcf, 0xea, 0x41, 0x41, 0x40, 0xde, 0x5d, 0xae, 0x22,
      0x23,
       0xb0, 0x03, 0x61, 0xa3, 0x96, 0x17, 0x7a, 0x9c, 0xb4, 0x10, 0xff, 0x61, 0xf2, 0x00, 0x15,
       0xad] := by
  decide +kernel

/-- The rest of this message needs a second block. -/
theorem sha256_eq_standard_two :
    (List.replicate 56 (97 : UInt8)).length < 2 ^ 61 ∧
      padlen (List.replicate 56 (97 : UInt8)).length = 128 ∧
      (hashKey (fun _ => 0) (List.replicate 56 97)).bytes = Sha2.sha256 (List.replicate 56 97) :=
  ⟨by decide, by decide, sha256_eq_standard (fun _ => 0) (List.replicate 56 97) (by decide)⟩

end GoblinStore.Crypto
