import Mathlib.Algebra.Group.Nat.Defs
import Mathlib.Data.List.DropRight
import Mathlib.Tactic.Common

/-!
# Text as bytes

Protocol text is a list of bytes. `ascii` and `text` write characters and constants of it, `decimal`
and `hexadecimal` numbers, `digits` and `toUint` read them; `words` and `splitLine` take lines
apart, `strip` removes what surrounds a text.
-/

namespace GoblinStore.Lib

/-- The byte of an ASCII character. -/
def ascii (c : Char) : UInt8 := UInt8.ofNat c.toNat

/-- The bytes of an ASCII string. -/
def text (s : String) : List UInt8 := s.toList.map ascii

/-- The end of a line. -/
def crlf : List UInt8 := [ascii '\r', ascii '\n']

/-- A number in decimal digits. -/
def decimal (n : Nat) : List UInt8 := (Nat.toDigits 10 n).map ascii

/-- A number in hexadecimal digits. -/
def hexadecimal (n : Nat) : List UInt8 := (Nat.toDigits 16 n).map ascii

variable {n : Nat} {c : UInt8}

/-- The digits of a hexadecimal number. -/
theorem mem_hexadecimal (h : c ∈ hexadecimal n) : ∃ k < 16, c = ascii (Nat.digitChar k) := by
  obtain ⟨char, hchar, rfl⟩ := List.mem_map.1 h
  induction n using Nat.strongRecOn generalizing char with
  | ind n ih =>
      rcases Nat.lt_or_ge n 16 with hn | hn
      · rw [Nat.toDigits_of_lt_base hn, List.mem_singleton] at hchar
        exact ⟨n, hn, by rw [hchar]⟩
      · rw [Nat.toDigits_of_base_le (by decide) hn, List.mem_append, List.mem_singleton] at hchar
        rcases hchar with hchar | rfl
        · exact ih (n / 16) (by omega) char hchar (List.mem_map_of_mem hchar)
        · exact ⟨n % 16, Nat.mod_lt n (by decide), rfl⟩

variable {q : UInt8} {s : List UInt8}

/-- What precedes the first occurrence of a byte, and what follows it. -/
theorem append_cons_injective {x y t : List UInt8} (hx : q ∉ x) (hy : q ∉ y)
    (h : x ++ q :: s = y ++ q :: t) : x = y ∧ s = t := by
  rcases List.append_eq_append_iff.1 h with ⟨c, rfl, hc⟩ | ⟨c, rfl, hc⟩
  · cases c with
    | nil =>
        cases hc
        exact ⟨(List.append_nil x).symm, rfl⟩
    | cons first rest =>
        cases hc
        exact absurd (List.mem_append_right x List.mem_cons_self) hy
  · cases c with
    | nil =>
        cases hc
        exact ⟨List.append_nil y, rfl⟩
    | cons first rest =>
        cases hc
        exact absurd (List.mem_append_right y List.mem_cons_self) hx

variable {l : List UInt8}

/-- A text that starts with a byte is found after what has no such byte. -/
theorem infix_append_left {x r : List UInt8} (hx : q ∉ x) (h : q :: l <:+: x ++ r) :
    q :: l <:+: r := by
  obtain ⟨s, t, hst⟩ := h
  rw [List.append_assoc] at hst
  rcases List.append_eq_append_iff.1 hst with ⟨c, rfl, hc⟩ | ⟨c, rfl, hc⟩
  · cases c with
    | nil => exact ⟨[], t, hc⟩
    | cons first rest =>
        have hfirst : q = first := List.head_eq_of_cons_eq hc
        rw [hfirst] at hx
        exact absurd (List.mem_append_right s List.mem_cons_self) hx
  · exact ⟨c, t, by rw [hc, List.append_assoc]⟩

/-- A quoted text after a quote: it starts there or later. -/
theorem quoted_infix_cons {a r : List UInt8} (h : q :: (a ++ [q]) <:+: q :: r) :
    (∃ t, r = a ++ q :: t) ∨ q :: (a ++ [q]) <:+: r := by
  rcases List.infix_cons_iff.1 h with ⟨t, ht⟩ | hin
  · refine Or.inl ⟨t, ?_⟩
    have htail : a ++ [q] ++ t = r := List.tail_eq_of_cons_eq ht
    rw [← htail, List.append_assoc]
    rfl
  · exact Or.inr hin

/-- A decimal digit. -/
def IsDigit (c : UInt8) : Prop := ascii '0' ≤ c ∧ c ≤ ascii '9'

instance : DecidablePred IsDigit :=
  fun c => inferInstanceAs (Decidable (ascii '0' ≤ c ∧ c ≤ ascii '9'))

/-- The number that decimal digits stand for. -/
def decimalValue (s : List UInt8) : Nat :=
  s.foldl (fun n c => n * 10 + (c.toNat - (ascii '0').toNat)) 0

/-- The value of a sequence of decimal digits. -/
def digits (s : List UInt8) : Option Nat :=
  if s ≠ [] ∧ s.all (fun c => IsDigit c) then some (decimalValue s) else none

/-- The same for an unsigned number of this width. -/
def toUint (width : Nat) (s : List UInt8) : Option Nat := (digits s).filter (· < 2 ^ width)

theorem digits_of (hne : s ≠ []) (hdigits : ∀ c ∈ s, IsDigit c) :
    digits s = some (decimalValue s) :=
  if_pos ⟨hne, List.all_eq_true.2 fun c hc => decide_eq_true (hdigits c hc)⟩

theorem digits_eq_none : digits s = none ↔ s = [] ∨ ∃ c ∈ s, ¬ IsDigit c := by
  by_cases hne : s = []
  · exact ⟨fun _ => Or.inl hne, fun _ => if_neg fun h => h.1 hne⟩
  by_cases hdigits : ∀ c ∈ s, IsDigit c
  · rw [digits_of hne hdigits]
    refine ⟨nofun, ?_⟩
    rintro (h | ⟨c, hc, hnot⟩)
    · exact absurd h hne
    · exact absurd (hdigits c hc) hnot
  · refine ⟨fun _ => Or.inr ?_, fun _ => if_neg fun h => hdigits fun c hc => ?_⟩
    · push Not at hdigits
      exact hdigits
    · exact of_decide_eq_true (List.all_eq_true.1 h.2 c hc)

/-- Not an unsigned number of this width: empty, not only digits, or out of range. -/
def BadUint (width : Nat) (s : List UInt8) : Prop :=
  s = [] ∨ (∃ c ∈ s, ¬ IsDigit c) ∨ 2 ^ width ≤ decimalValue s

variable {width : Nat}

theorem to_uint_eq_none : toUint width s = none ↔ BadUint width s := by
  unfold toUint BadUint
  by_cases hdigits : digits s = none
  · rw [hdigits, ← or_assoc, ← digits_eq_none]
    exact ⟨fun _ => Or.inl hdigits, fun _ => rfl⟩
  · have hgood := mt digits_eq_none.2 hdigits
    rw [not_or] at hgood
    rw [digits_of hgood.1 fun c hc => not_not.1 fun hnot => hgood.2 ⟨c, hc, hnot⟩]
    simp [Option.filter, hgood.1, hgood.2]

/-- Decimal digits, at least one, for a number of this width. -/
def IsNumeral (width : Nat) (s : List UInt8) (n : Nat) : Prop :=
  s ≠ [] ∧ (∀ c ∈ s, IsDigit c) ∧ decimalValue s = n ∧ n < 2 ^ width

theorem to_uint_eq_some : toUint width s = some n ↔ IsNumeral width s n := by
  constructor
  · intro h
    have hgood : ¬ BadUint width s := by
      rw [← to_uint_eq_none, h]
      exact Option.some_ne_none n
    simp only [BadUint, not_or, not_exists, not_and, not_not, Nat.not_le] at hgood
    obtain ⟨hne, hdigits, hlt⟩ := hgood
    rw [toUint, digits_of hne hdigits, Option.filter_some, if_pos (decide_eq_true hlt)] at h
    cases h
    exact ⟨hne, hdigits, rfl, hlt⟩
  · rintro ⟨hne, hdigits, rfl, hlt⟩
    rw [toUint, digits_of hne hdigits, Option.filter_some, if_pos (decide_eq_true hlt)]

theorem decimal_of_lt (hn : n < 10) : decimal n = [ascii (Nat.digitChar n)] := by
  rw [decimal, Nat.toDigits_of_lt_base hn]
  rfl

theorem decimal_of_ge (hn : 10 ≤ n) :
    decimal n = decimal (n / 10) ++ [ascii (Nat.digitChar (n % 10))] := by
  rw [decimal, Nat.toDigits_of_base_le (by decide) hn, List.map_append]
  rfl

theorem decimal_ne_nil (n : Nat) :
    decimal n ≠ [] := fun h => Nat.toDigits_ne_nil (List.map_eq_nil_iff.1 h)

/-- The digit of a number below ten. -/
theorem digit_char {k : Nat} (hk : k < 10) :
    IsDigit (ascii (Nat.digitChar k)) ∧
      (ascii (Nat.digitChar k)).toNat - (ascii '0').toNat = k := by
  unfold IsDigit
  revert k
  decide

theorem mem_decimal (h : c ∈ decimal n) : IsDigit c := by
  induction n using Nat.strongRecOn with
  | ind n ih =>
      rcases Nat.lt_or_ge n 10 with hn | hn
      · rw [decimal_of_lt hn, List.mem_singleton] at h
        exact h ▸ (digit_char hn).1
      · rw [decimal_of_ge hn, List.mem_append, List.mem_singleton] at h
        rcases h with h | rfl
        · exact ih (n / 10) (by omega) h
        · exact (digit_char (Nat.mod_lt n (by decide))).1

theorem decimal_value (n : Nat) : decimalValue (decimal n) = n := by
  induction n using Nat.strongRecOn with
  | ind n ih =>
      rcases Nat.lt_or_ge n 10 with hn | hn
      · rw [decimal_of_lt hn]
        show 0 * 10 + _ = n
        rw [(digit_char hn).2, Nat.zero_mul, Nat.zero_add]
      · have hrest := ih (n / 10) (by omega)
        unfold decimalValue at hrest
        rw [decimal_of_ge hn, decimalValue, List.foldl_append, hrest]
        show n / 10 * 10 + _ = n
        rw [(digit_char (Nat.mod_lt n (by decide))).2]
        omega

theorem digits_decimal (n : Nat) : digits (decimal n) = some n := by
  rw [digits_of (decimal_ne_nil n) fun c hc => mem_decimal hc, decimal_value]

theorem to_uint_decimal (hn : n < 2 ^ width) : toUint width (decimal n) = some n := by
  rw [toUint, digits_decimal, Option.filter_some, if_pos (decide_eq_true hn)]

theorem IsNumeral.decimal (h : IsNumeral width s n) :
    IsNumeral width (Lib.decimal n) n :=
  to_uint_eq_some.1 (to_uint_decimal h.2.2.2)

/-- A part between two separators has none. -/
theorem not_mem_of_mem_split {seg : List UInt8} (h : seg ∈ s.splitOn c) : c ∉ seg := by
  induction hlen : s.length using Nat.strongRecOn generalizing s with
  | ind n ih =>
      by_cases hc : c ∈ s
      · obtain ⟨before, rest, rfl, hbefore⟩ := List.eq_append_cons_of_mem hc
        rw [List.splitOn_append_cons_self_of_not_mem hbefore, List.mem_cons] at h
        rcases h with rfl | hrest
        · exact hbefore
        · refine ih rest.length ?_ hrest rfl
          rw [← hlen, List.length_append, List.length_cons]
          omega
      · rw [List.splitOn_eq_singleton hc, List.mem_singleton] at h
        rw [h]
        exact hc

/-- The words between the blanks of a line. -/
def words (line : List UInt8) : List (List UInt8) := (line.splitOn (ascii ' ')).filter (· ≠ [])

/-- A word is not empty and has no blanks. -/
def IsWord (w : List UInt8) : Prop := w ≠ [] ∧ ascii ' ' ∉ w

theorem decimal_is_word (n : Nat) : IsWord (decimal n) :=
  ⟨decimal_ne_nil n, fun h => absurd (mem_decimal h) (by decide)⟩

theorem words_nil : words [] = [] := rfl

theorem words_blank (line : List UInt8) : words (ascii ' ' :: line) = words line := by
  have hsplit : (ascii ' ' :: line).splitOn (ascii ' ') = [] :: line.splitOn (ascii ' ') :=
    List.splitOn_append_cons_self_of_not_mem List.not_mem_nil line
  rw [words, hsplit, List.filter_cons_of_neg (by simp)]
  rfl

variable {w : List UInt8}

theorem words_single (hw : IsWord w) : words w = [w] := by
  rw [words, List.splitOn_eq_singleton hw.2, List.filter_cons_of_pos (by simpa using hw.1)]
  rfl

theorem words_cons (hw : IsWord w) (line : List UInt8) :
    words (w ++ ascii ' ' :: line) = w :: words line := by
  rw [words, List.splitOn_append_cons_self_of_not_mem hw.2,
    List.filter_cons_of_pos (by simpa using hw.1)]
  rfl

theorem words_blanks (n : Nat) (line : List UInt8) :
    words (List.replicate n (ascii ' ') ++ line) = words line := by
  induction n with
  | zero => rfl
  | succ n ih =>
      rw [List.replicate_succ, List.cons_append, words_blank]
      exact ih

/-- The words before and after a blank. -/
theorem words_append (before rest : List UInt8) :
    words (before ++ ascii ' ' :: rest) = words before ++ words rest := by
  rw [words, List.splitOn_append_cons_self, List.filter_append]
  rfl

variable {line : List UInt8}

theorem is_word_of_mem (h : w ∈ words line) : IsWord w := by
  obtain ⟨hsplit, hne⟩ := List.mem_filter.1 h
  exact ⟨of_decide_eq_true hne, not_mem_of_mem_split hsplit⟩

/-- Words with blanks between them, one more than `gap` says. -/
def spaced (gap : Nat → Nat) : List (List UInt8) → List UInt8
  | [] => []
  | [w] => w
  | w :: next :: rest =>
      w ++ List.replicate (gap 0 + 1) (ascii ' ') ++ spaced (fun i => gap (i + 1)) (next :: rest)

theorem words_spaced (gap : Nat → Nat) {ws : List (List UInt8)} (hws : ∀ w ∈ ws, IsWord w) :
    words (spaced gap ws) = ws := by
  induction ws generalizing gap with
  | nil => rfl
  | cons w rest ih =>
      have hw := hws w List.mem_cons_self
      have hrest := fun gap => ih gap fun v hv => hws v (List.mem_cons_of_mem w hv)
      cases rest with
      | nil => exact words_single hw
      | cons next rest =>
          rw [spaced, List.replicate_succ, List.append_assoc, List.cons_append, words_cons hw,
            words_blanks, hrest]

/-! ## Removing what surrounds a text -/

section Strip

variable {α : Type} (p : α → Bool) {pre s post : List α}

/-- Without the elements at both ends that satisfy `p`. -/
def strip (s : List α) : List α := (s.dropWhile p).rdropWhile p

/-- There is nothing to remove. -/
def Stripped (s : List α) : Prop := (∀ c ∈ s.head?, p c = false) ∧ ∀ c ∈ s.getLast?, p c = false

variable {p}

/-- What `dropWhile` stops at. -/
theorem head_drop_while {c : α} {rest : List α} (h : s.dropWhile p = c :: rest) : p c = false := by
  have hhead := List.head?_dropWhile_not p s
  rw [h] at hhead
  simpa using hhead

theorem drop_while_append (hpre : ∀ c ∈ pre, p c = true) (hs : ∀ c ∈ s.head?, p c = false) :
    (pre ++ s).dropWhile p = s := by
  rw [List.dropWhile_append_of_pos hpre]
  cases s with
  | nil => rfl
  | cons c rest => exact List.dropWhile_cons_of_neg (by simp [hs c rfl])

theorem rdrop_while_append (hpost : ∀ c ∈ post, p c = true) (hs : ∀ c ∈ s.getLast?, p c = false) :
    (s ++ post).rdropWhile p = s := by
  have hdrop : (post.reverse ++ s.reverse).dropWhile p = s.reverse := by
    refine drop_while_append (fun c hc => hpost c (List.mem_reverse.1 hc)) fun c hc => ?_
    rw [List.head?_reverse] at hc
    exact hs c hc
  rw [List.rdropWhile, List.reverse_append, hdrop, List.reverse_reverse]

theorem strip_eq (hpre : ∀ c ∈ pre, p c = true) (hpost : ∀ c ∈ post, p c = true)
    (hs : Stripped p s) :
    strip p (pre ++ s ++ post) = s := by
  unfold strip
  cases s with
  | nil =>
      have hall : ∀ c ∈ pre ++ [] ++ post, p c = true := by
        intro c hc
        rw [List.append_nil] at hc
        exact (List.mem_append.1 hc).elim (hpre c) (hpost c)
      rw [List.dropWhile_eq_nil_iff.2 hall]
      rfl
  | cons c rest =>
      have hhead : ∀ d ∈ (c :: rest ++ post).head?, p d = false := fun d hd => hs.1 d hd
      rw [List.append_assoc, drop_while_append hpre hhead]
      exact rdrop_while_append hpost hs.2

/-- A text is what is left of it, and what was removed at both ends. -/
theorem strip_split (s : List α) :
    ∃ pre post, (∀ c ∈ pre, p c = true) ∧ (∀ c ∈ post, p c = true) ∧
      s = pre ++ strip p s ++ post := by
  refine ⟨s.takeWhile p, (s.dropWhile p).rtakeWhile p, fun c hc => List.mem_takeWhile_imp hc,
    fun c hc => List.mem_rtakeWhile_imp hc, ?_⟩
  rw [strip, List.append_assoc, List.rdropWhile_append_rtakeWhile, List.takeWhile_append_dropWhile]

end Strip

/-- What precedes the first end of a line, and what follows it. -/
def splitLine : List UInt8 → Option (List UInt8 × List UInt8)
  | a :: b :: rest =>
      if a = ascii '\r' ∧ b = ascii '\n' then some ([], rest)
      else (splitLine (b :: rest)).map fun split => (a :: split.1, split.2)
  | _ => none

/-- A line, its end and the rest are what was split. -/
theorem split_line_eq {rest : List UInt8} (h : splitLine l = some (line, rest)) :
    l = line ++ crlf ++ rest := by
  induction l generalizing line with
  | nil => cases h
  | cons a tail ih =>
      cases tail with
      | nil => cases h
      | cons b tail =>
          rw [splitLine] at h
          split_ifs at h with hend
          · cases h
            rw [hend.1, hend.2]
            rfl
          · rw [Option.map_eq_some_iff] at h
            obtain ⟨split, hsplit, heq⟩ := h
            cases heq
            rw [ih hsplit]
            rfl

theorem split_line_length {rest : List UInt8} (h : splitLine l = some (line, rest)) :
    l.length = line.length + 2 + rest.length := by
  rw [split_line_eq h, List.length_append, List.length_append]
  rfl

/-- There is no end of a line without its first character. -/
theorem split_line_none (h : ascii '\r' ∉ l) : splitLine l = none := by
  induction l with
  | nil => rfl
  | cons a tail ih =>
      cases tail with
      | nil => rfl
      | cons b tail =>
          rw [List.mem_cons, not_or] at h
          rw [splitLine, if_neg fun hend => h.1 hend.1.symm, ih h.2]
          rfl

/-- A line without that character ends where its end is. -/
theorem split_line_append (h : ascii '\r' ∉ line) (rest : List UInt8) :
    splitLine (line ++ crlf ++ rest) = some (line, rest) := by
  induction line with
  | nil => rfl
  | cons a tail ih =>
      rw [List.mem_cons, not_or] at h
      obtain ⟨b, more, heq⟩ : ∃ b more, tail ++ crlf ++ rest = b :: more := by
        cases tail with
        | nil => exact ⟨_, _, rfl⟩
        | cons b tail => exact ⟨_, _, rfl⟩
      have hrest := ih h.2
      rw [heq] at hrest
      rw [List.cons_append, List.cons_append, heq, splitLine,
        if_neg fun hend => h.1 hend.1.symm, hrest]
      rfl

end GoblinStore.Lib
