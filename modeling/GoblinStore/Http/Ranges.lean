import GoblinStore.Http.Request

/-!
# Single byte ranges

`Spells value r` says that the value of a Range field is the range `r`: the unit, one or two numbers
and a dash, with blanks around each of them. `parse_range` accepts exactly these values
(`parse_range_iff`), and `resolve_range` gives the positions of the object that the range asks for
(`resolve_range_serves`).
-/

namespace GoblinStore.Http

open GoblinStore.Lib

/-- A blank of an optional white space. -/
def IsBlank (c : UInt8) : Prop := c = ascii ' ' ∨ c = ascii '\t'

instance : DecidablePred IsBlank :=
  fun c => inferInstanceAs (Decidable (c = ascii ' ' ∨ c = ascii '\t'))

/-- Only blanks. -/
def Blanks (s : List UInt8) : Prop := ∀ c ∈ s, IsBlank c

/-- The value of a Range field with these texts before and after the dash. -/
def RangeText (value lo hi : List UInt8) : Prop :=
  ∃ b0 b1 b2 b3 b4, Blanks b0 ∧ Blanks b1 ∧ Blanks b2 ∧ Blanks b3 ∧ Blanks b4 ∧
    value = b0 ++ text "bytes=" ++ ((b1 ++ lo ++ b2) ++ ascii '-' :: (b3 ++ hi ++ b4))

/-- The value of a Range field is this range. -/
inductive Spells : List UInt8 → ByteRange → Prop where
  | closed {value lo hi : List UInt8} {a b : Nat} :
      RangeText value lo hi → IsNumeral 64 lo a → IsNumeral 64 hi b → a ≤ b →
      Spells value ⟨.closed, a, b⟩
  | openEnded {value lo : List UInt8} {a : Nat} :
      RangeText value lo [] → IsNumeral 64 lo a → Spells value ⟨.from, a, 0⟩
  | suffix {value hi : List UInt8} {n : Nat} :
      RangeText value [] hi → IsNumeral 64 hi n → 1 ≤ n → Spells value ⟨.suffix, n, 0⟩

/-! ## What `parse_range` accepts -/

/-- What `parse_range` makes of the texts before and after the dash. -/
def rangeOf (lo hi : List UInt8) : Option ByteRange :=
  if lo = [] then ((toUint 64 hi).filter (· ≠ 0)).map fun n => ⟨.suffix, n, 0⟩
  else
    (toUint 64 lo).bind fun a =>
      if hi = [] then some ⟨.from, a, 0⟩
      else ((toUint 64 hi).filter (a ≤ ·)).map fun b => ⟨.closed, a, b⟩

variable {r : ByteRange}

theorem range_of_iff {lo hi : List UInt8} :
    rangeOf lo hi = some r ↔
      (∃ a b, IsNumeral 64 lo a ∧ IsNumeral 64 hi b ∧ a ≤ b ∧ r = ⟨.closed, a, b⟩) ∨
      (∃ a, hi = [] ∧ IsNumeral 64 lo a ∧ r = ⟨.from, a, 0⟩) ∨
      (∃ n, lo = [] ∧ IsNumeral 64 hi n ∧ 1 ≤ n ∧ r = ⟨.suffix, n, 0⟩) := by
  unfold rangeOf
  by_cases hlo : lo = []
  · rw [if_pos hlo]
    constructor
    · intro h
      obtain ⟨n, hn, rfl⟩ := Option.map_eq_some_iff.1 h
      obtain ⟨hnum, hpos⟩ := Option.filter_eq_some_iff.1 hn
      exact Or.inr (Or.inr ⟨n, hlo, to_uint_eq_some.1 hnum,
        Nat.pos_of_ne_zero (of_decide_eq_true hpos), rfl⟩)
    · rintro (⟨a, b, ha, -⟩ | ⟨a, -, ha, -⟩ | ⟨n, -, hn, hpos, rfl⟩)
      · exact absurd hlo ha.1
      · exact absurd hlo ha.1
      · rw [to_uint_eq_some.2 hn, Option.filter_some, if_pos (decide_eq_true (Nat.ne_of_gt hpos))]
        rfl
  · rw [if_neg hlo]
    constructor
    · intro h
      obtain ⟨a, ha, hrest⟩ := Option.bind_eq_some_iff.1 h
      by_cases hhi : hi = []
      · rw [if_pos hhi] at hrest
        cases hrest
        exact Or.inr (Or.inl ⟨a, hhi, to_uint_eq_some.1 ha, rfl⟩)
      · rw [if_neg hhi] at hrest
        obtain ⟨b, hb, rfl⟩ := Option.map_eq_some_iff.1 hrest
        obtain ⟨hnum, hle⟩ := Option.filter_eq_some_iff.1 hb
        exact Or.inl ⟨a, b, to_uint_eq_some.1 ha, to_uint_eq_some.1 hnum,
          of_decide_eq_true hle, rfl⟩
    · rintro (⟨a, b, ha, hb, hle, rfl⟩ | ⟨a, hhi, ha, rfl⟩ | ⟨n, hnil, -⟩)
      · rw [to_uint_eq_some.2 ha, Option.bind_some, if_neg hb.1, to_uint_eq_some.2 hb,
          Option.filter_some, if_pos (decide_eq_true hle)]
        rfl
      · rw [to_uint_eq_some.2 ha, Option.bind_some, if_pos hhi]
      · exact absurd hnil hlo

variable {value : List UInt8}

/-- The texts before and after the first dash. -/
theorem parse_range_eq {u t : List UInt8} (hu : ascii '-' ∉ u)
    (h : trim value = text "bytes=" ++ (u ++ ascii '-' :: t)) :
    parseRange value = if ascii ',' ∈ u ∨
      ascii ',' ∈ t then none else rangeOf (trim u) (trim t) := by
  have hunit : (text "bytes=").isPrefixOf (trim value) = true := by
    rw [List.isPrefixOf_iff_prefix, h]
    exact List.prefix_append _ _
  have hdrop : (trim value).drop (text "bytes=").length = u ++ ascii '-' :: t := by
    rw [h, List.drop_left]
  have hplain : ∀ c ∈ u, (fun c : UInt8 => decide (c ≠ ascii '-')) c = true :=
    fun c hc => decide_eq_true fun heq => hu (heq ▸ hc)
  have htake : (u ++ ascii '-' :: t).takeWhile (fun c => c ≠ ascii '-') = u := by
    rw [List.takeWhile_append_of_pos hplain, List.takeWhile_cons_of_neg (by simp), List.append_nil]
  have htail : (u ++ ascii '-' :: t).dropWhile (fun c => c ≠ ascii '-') = ascii '-' :: t := by
    rw [List.dropWhile_append_of_pos hplain, List.dropWhile_cons_of_neg (by simp)]
  have hguard : (ascii ',' ∈ u ++ ascii '-' :: t ∨ ascii '-' ∉ u ++ ascii '-' :: t) ↔
      (ascii ',' ∈ u ∨ ascii ',' ∈ t) := by
    have hne : ascii ',' ≠ ascii '-' := by decide
    simp [hne]
  unfold parseRange
  simp only [hunit, hdrop, htake, htail, hguard, if_true, List.tail_cons]
  rfl

/-- An accepted value has the unit and a dash. -/
theorem parse_range_dash (h : parseRange value = some r) :
    ∃ u t, ascii '-' ∉ u ∧ trim value = text "bytes=" ++ (u ++ ascii '-' :: t) := by
  unfold parseRange at h
  by_cases hunit : (text "bytes=").isPrefixOf (trim value) = true
  · obtain ⟨rest, hrest⟩ := List.isPrefixOf_iff_prefix.1 hunit
    have hdrop : (trim value).drop (text "bytes=").length = rest := by
      rw [← hrest, List.drop_left]
    rw [if_pos hunit, hdrop] at h
    have hdash : ascii '-' ∈ rest := by
      by_contra hnot
      rw [if_pos (Or.inr hnot)] at h
      cases h
    obtain ⟨u, t, heq, hu⟩ := List.eq_append_cons_of_mem hdash
    exact ⟨u, t, hu, by rw [← hrest, heq]⟩
  · rw [if_neg hunit] at h
    cases h

/-! ## Blanks -/

variable {s : List UInt8}

theorem blanks_iff :
    Blanks s ↔ ∀ c ∈ s, (fun c : UInt8 => decide (c = ascii ' ' ∨ c = ascii '\t')) c = true :=
  forall₂_congr fun _ _ => decide_eq_true_iff.symm

theorem Blanks.nil : Blanks [] := fun _ h => absurd h List.not_mem_nil

theorem Blanks.append {t : List UInt8} (hs : Blanks s) (ht : Blanks t) :
    Blanks (s ++ t) := fun c hc =>
  (List.mem_append.1 hc).elim (hs c) (ht c)

theorem not_blank_of_digit {c : UInt8} (h : IsDigit c) : ¬ IsBlank c := by
  rintro (rfl | rfl) <;> exact absurd h (by decide)

variable {pre post : List UInt8}

/-- Blanks around a text are removed. -/
theorem trim_eq (hpre : Blanks pre) (hpost : Blanks post)
    (hs : (∀ c ∈ s.head?, ¬ IsBlank c) ∧ ∀ c ∈ s.getLast?, ¬ IsBlank c) :
    trim (pre ++ s ++ post) = s :=
  strip_eq (blanks_iff.1 hpre) (blanks_iff.1 hpost)
    ⟨fun c hc => decide_eq_false (hs.1 c hc), fun c hc => decide_eq_false (hs.2 c hc)⟩

/-- A text is what is left of it between blanks. -/
theorem trim_split (s : List UInt8) :
    ∃ pre post, Blanks pre ∧ Blanks post ∧ s = pre ++ trim s ++ post := by
  obtain ⟨pre, post, hpre, hpost, heq⟩ :=
    @strip_split _ (fun c : UInt8 => decide (c = ascii ' ' ∨ c = ascii '\t')) s
  exact ⟨pre, post, blanks_iff.2 hpre, blanks_iff.2 hpost, heq⟩

/-- Blanks around digits are removed. -/
theorem trim_digits (hpre : Blanks pre) (hpost : Blanks post)
    (hs : ∀ c ∈ s, IsDigit c) : trim (pre ++ s ++ post) = s :=
  trim_eq hpre hpost ⟨fun c hc => not_blank_of_digit (hs c (List.mem_of_mem_head? hc)),
    fun c hc => not_blank_of_digit (hs c (List.mem_of_mem_getLast? hc))⟩

/-- The characters between blanks and digits. -/
theorem not_mem_digits {c : UInt8} (hpre : Blanks pre) (hpost : Blanks post)
    (hs : ∀ c ∈ s, IsDigit c) (hblank : ¬ IsBlank c) (hdigit : ¬ IsDigit c) :
    c ∉ pre ++ s ++ post := by
  simp only [List.mem_append, not_or]
  exact ⟨⟨fun h => hblank (hpre c h), fun h => hdigit (hs c h)⟩, fun h => hblank (hpost c h)⟩

/-! ## The accepted values -/

/-- The numbers of a value of this form are read as they are. -/
theorem RangeText.parse {lo hi : List UInt8} (h : RangeText value lo hi) (hlo : ∀ c ∈ lo, IsDigit c)
    (hhi : ∀ c ∈ hi, IsDigit c) : parseRange value = rangeOf lo hi := by
  obtain ⟨b0, b1, b2, b3, b4, h0, h1, h2, h3, h4, rfl⟩ := h
  have hdash : ascii '-' ∉ b1 ++ lo ++ b2 := not_mem_digits h1 h2 hlo (by decide) (by decide)
  have hcomma : ascii ',' ∉ b1 ++ lo ++ b2 := not_mem_digits h1 h2 hlo (by decide) (by decide)
  have hfirst : ∀ rest, ∀ c ∈ (text "bytes=" ++ rest).head?, ¬ IsBlank c := by
    intro rest c hc
    cases hc
    decide
  -- blanks at the end go with the dash if there is no second number
  cases hi with
  | nil =>
      have hlast : ∀ c ∈ (text "bytes=" ++ ((b1 ++ lo ++ b2) ++ ascii '-' :: [])).getLast?,
          ¬ IsBlank c := by
        intro c hc
        rw [← List.append_assoc, List.getLast?_append_cons] at hc
        cases hc
        decide
      have htrim := trim_eq h0 (h3.append h4) ⟨hfirst _, hlast⟩
      have hvalue : b0 ++ text "bytes=" ++ ((b1 ++ lo ++ b2) ++ ascii '-' :: (b3 ++ [] ++ b4)) =
          b0 ++ (text "bytes=" ++ ((b1 ++ lo ++ b2) ++ ascii '-' :: [])) ++ (b3 ++ b4) := by
        simp only [List.append_assoc, List.nil_append, List.cons_append]
      rw [← hvalue] at htrim
      rw [parse_range_eq hdash htrim, trim_digits h1 h2 hlo, if_neg]
      · rfl
      · rintro (hin | hin)
        · exact hcomma hin
        · cases hin
  | cons d rest =>
      have hlast : ∀ c ∈ (text "bytes=" ++
          ((b1 ++ lo ++ b2) ++ ascii '-' :: (b3 ++ (d :: rest)))).getLast?,
          ¬ IsBlank c := by
        have hends : text "bytes=" ++ ((b1 ++ lo ++ b2) ++ ascii '-' :: (b3 ++ (d :: rest))) =
            text "bytes=" ++ ((b1 ++ lo ++ b2) ++ ascii '-' :: b3) ++ (d :: rest) := by
          simp only [List.append_assoc, List.cons_append]
        intro c hc
        rw [hends, List.getLast?_append_of_ne_nil _ (List.cons_ne_nil d rest)] at hc
        exact not_blank_of_digit (hhi c (List.mem_of_mem_getLast? hc))
      have htrim := trim_eq h0 h4 ⟨hfirst _, hlast⟩
      have hvalue : b0 ++ text "bytes=" ++
          ((b1 ++ lo ++ b2) ++ ascii '-' :: (b3 ++ (d :: rest) ++ b4)) =
          b0 ++ (text "bytes=" ++ ((b1 ++ lo ++ b2) ++ ascii '-' :: (b3 ++ (d :: rest)))) ++
            b4 := by
        simp only [List.append_assoc, List.cons_append]
      rw [← hvalue] at htrim
      have hhi' : trim (b3 ++ (d :: rest)) = d :: rest := by
        have htail := trim_digits h3 Blanks.nil hhi
        rwa [List.append_nil] at htail
      rw [parse_range_eq hdash htrim, trim_digits h1 h2 hlo, hhi', if_neg]
      rintro (hin | hin)
      · exact hcomma hin
      · rw [← List.append_nil (b3 ++ (d :: rest))] at hin
        exact not_mem_digits h3 Blanks.nil hhi (by decide) (by decide) hin

/-- `parse_range` accepts exactly the values that spell a range. -/
theorem parse_range_iff : parseRange value = some r ↔ Spells value r := by
  constructor
  · intro h
    obtain ⟨u, t, hdash, htrim⟩ := parse_range_dash h
    rw [parse_range_eq hdash htrim] at h
    split_ifs at h
    obtain ⟨b0, b5, h0, h5, hvalue⟩ := trim_split value
    obtain ⟨b1, b2, h1, h2, hu⟩ := trim_split u
    obtain ⟨b3, b4, h3, h4, ht⟩ := trim_split t
    have hform : RangeText value (trim u) (trim t) := by
      refine ⟨b0, b1, b2, b3, b4 ++ b5, h0, h1, h2, h3, h4.append h5, ?_⟩
      rw [← hu, ← List.append_assoc _ b4, ← ht]
      conv_lhs => rw [hvalue, htrim]
      simp only [List.append_assoc, List.cons_append]
    rcases range_of_iff.1 h with ⟨a, b, ha, hb, hle, rfl⟩ | ⟨a, hhi, ha, rfl⟩ |
      ⟨n, hlo, hn, hpos, rfl⟩
    · exact .closed hform ha hb hle
    · exact .openEnded (hhi ▸ hform) ha
    · exact .suffix (hlo ▸ hform) hn hpos
  · have hnone : ∀ c ∈ ([] : List UInt8), IsDigit c := fun c hc => absurd hc List.not_mem_nil
    intro h
    cases h with
    | closed hform ha hb hle =>
        rw [hform.parse ha.2.1 hb.2.1, range_of_iff]
        exact Or.inl ⟨_, _, ha, hb, hle, rfl⟩
    | openEnded hform ha =>
        rw [hform.parse ha.2.1 hnone, range_of_iff]
        exact Or.inr (Or.inl ⟨_, rfl, ha, rfl⟩)
    | suffix hform hn hpos =>
        rw [hform.parse hnone hn.2.1, range_of_iff]
        exact Or.inr (Or.inr ⟨_, rfl, hn, hpos, rfl⟩)

/-! ## The rejected values -/

/-- The texts of a value that spells a range, with their blanks, hold blanks and digits only. -/
theorem Spells.parts (h : Spells value r) :
    ∃ b0 u t, Blanks b0 ∧ (∀ c ∈ u ++ t, IsBlank c ∨ IsDigit c) ∧
      value = b0 ++ (text "bytes=" ++ (u ++ ascii '-' :: t)) := by
  have hparts : ∀ {lo hi}, RangeText value lo hi → (∀ c ∈ lo, IsDigit c) → (∀ c ∈ hi, IsDigit c) →
      ∃ b0 u t, Blanks b0 ∧ (∀ c ∈ u ++ t, IsBlank c ∨ IsDigit c) ∧
        value = b0 ++ (text "bytes=" ++ (u ++ ascii '-' :: t)) := by
    rintro lo hi ⟨b0, b1, b2, b3, b4, h0, h1, h2, h3, h4, rfl⟩ hlo hhi
    refine ⟨b0, b1 ++ lo ++ b2, b3 ++ hi ++ b4, h0, fun c hc => ?_, List.append_assoc _ _ _⟩
    simp only [List.mem_append] at hc
    rcases hc with ((hc | hc) | hc) | ((hc | hc) | hc)
    · exact Or.inl (h1 c hc)
    · exact Or.inr (hlo c hc)
    · exact Or.inl (h2 c hc)
    · exact Or.inl (h3 c hc)
    · exact Or.inr (hhi c hc)
    · exact Or.inl (h4 c hc)
  have hnone : ∀ c ∈ ([] : List UInt8), IsDigit c := fun c hc => absurd hc List.not_mem_nil
  cases h with
  | closed hform ha hb _ => exact hparts hform ha.2.1 hb.2.1
  | openEnded hform ha => exact hparts hform ha.2.1 hnone
  | suffix hform hn _ => exact hparts hform hnone hn.2.1

/-- What follows the leading blanks of two equal texts. -/
theorem after_blanks {b b' s' : List UInt8} (hb : Blanks b) (hb' : Blanks b')
    (hs : ∀ c ∈ s.head?, ¬ IsBlank c) (hs' : ∀ c ∈ s'.head?, ¬ IsBlank c)
    (h : b ++ s = b' ++ s') : s = s' := by
  rw [← drop_while_append (blanks_iff.1 hb) fun c hc => decide_eq_false (hs c hc), h,
    drop_while_append (blanks_iff.1 hb') fun c hc => decide_eq_false (hs' c hc)]

/-- Values with several ranges, with another unit, with bounds the wrong way round, or with
something else than digits. -/
inductive Rejected : List UInt8 → Prop where
  | comma {value : List UInt8} : ascii ',' ∈ value → Rejected value
  | otherUnit {pre unit rest : List UInt8} : Blanks pre → (∀ c ∈ unit, ¬ IsBlank c) →
      ascii '=' ∉ unit →
      unit ≠ text "bytes" → Rejected (pre ++ (unit ++ ascii '=' :: rest))
  | inverted {value lo hi : List UInt8} {a b : Nat} : RangeText value lo hi → IsNumeral 64 lo a →
      IsNumeral 64 hi b → b < a → Rejected value
  | nonDigit {pre rest : List UInt8} {c : UInt8} :
      Blanks pre → c ∈ rest → c ≠ ascii '-' → ¬ IsBlank c →
      ¬ IsDigit c → Rejected (pre ++ (text "bytes=" ++ rest))

theorem Rejected.not_parsed (h : Rejected value) : parseRange value = none := by
  rw [Option.eq_none_iff_forall_ne_some]
  intro r hr
  have hspells := parse_range_iff.1 hr
  have hunit : ∀ rest, ∀ c ∈ (text "bytes=" ++ rest).head?, ¬ IsBlank c := by
    intro rest c hc
    cases hc
    decide
  cases h with
  | comma hcomma =>
      obtain ⟨b0, u, t, h0, hparts, rfl⟩ := hspells.parts
      simp only [List.mem_append, List.mem_cons] at hcomma hparts
      rcases hcomma with hin | hin | hin | hin | hin
      · exact absurd (h0 _ hin) (by decide)
      · exact absurd hin (by decide)
      · exact absurd (hparts _ (Or.inl hin)) (by decide)
      · exact absurd hin (by decide)
      · exact absurd (hparts _ (Or.inr hin)) (by decide)
  | @otherUnit pre unit rest hpre hplain heq hne =>
      obtain ⟨b0, u, t, h0, -, hvalue⟩ := hspells.parts
      have hhead : ∀ c ∈ (unit ++ ascii '=' :: rest).head?, ¬ IsBlank c := by
        cases unit with
        | nil =>
            intro c hc
            cases hc
            decide
        | cons d more => exact fun c hc => hplain c (List.mem_of_mem_head? hc)
      have htexts := after_blanks hpre h0 hhead (hunit _) hvalue
      exact hne (append_cons_injective heq (by decide) htexts).1
  | inverted hform ha hb hlt =>
      rw [hform.parse ha.2.1 hb.2.1, range_of_iff] at hr
      rcases hr with ⟨a', b', ha', hb', hle, -⟩ | ⟨a', hnil, -⟩ | ⟨n, hnil, -⟩
      · rw [← ha.2.2.1, ← hb.2.2.1, ha'.2.2.1, hb'.2.2.1] at hlt
        exact absurd hle (Nat.not_le.2 hlt)
      · exact hb.1 hnil
      · exact ha.1 hnil
  | @nonDigit pre rest c hpre hmem hdash hblank hdigit =>
      obtain ⟨b0, u, t, h0, hparts, hvalue⟩ := hspells.parts
      have hrest := List.append_cancel_left (after_blanks hpre h0 (hunit _) (hunit _) hvalue)
      rw [hrest, List.mem_append, List.mem_cons] at hmem
      rcases hmem with hin | rfl | hin
      · exact (hparts c (List.mem_append_left t hin)).elim hblank hdigit
      · exact hdash rfl
      · exact (hparts c (List.mem_append_right u hin)).elim hblank hdigit

/-! ## The positions of a range -/

/-- The range asks for this position of an object of this size. -/
def Requested (r : ByteRange) (size i : Nat) : Prop :=
  i < size ∧
    match r.kind with
    | .closed => r.a ≤ i ∧ i ≤ r.b
    | .from => r.a ≤ i
    | .suffix => size ≤ i + r.a

/-- The offset and length are those of the requested positions, or there are none. -/
def Serves (r : ByteRange) (size : Nat) : Option (Nat × Nat) → Prop
  | some (off, len) =>
      1 ≤ len ∧ off + len ≤ size ∧ ∀ i, (off ≤ i ∧ i < off + len) ↔ Requested r size i
  | none => ∀ i, ¬ Requested r size i

theorem resolve_range_serves (h : Spells value r) {size : Nat}
    (hsize : size < wrap64) : Serves r size (resolveRange r size) := by
  cases h with
  | @closed _ _ a b _ ha hb hle =>
      have hb64 : b < wrap64 := hb.2.2.2
      show Serves _ size (if size ≤ a then none else
          some (a, (min b (size - 1) + wrap64 - a + 1) % wrap64))
      by_cases hpast : size ≤ a
      · rw [if_pos hpast]
        rintro i ⟨hi, hlo, -⟩
        exact absurd hi (by simpa using hpast.trans hlo)
      · have hlen : (min b (size - 1) + wrap64 - a + 1) % wrap64 = min b (size - 1) - a + 1 := by
          rw [show min b (size - 1) + wrap64 - a + 1 = (min b (size - 1) - a + 1) + wrap64 by omega,
            Nat.add_mod_right, Nat.mod_eq_of_lt (by omega)]
        rw [if_neg hpast, hlen]
        refine ⟨by omega, by omega, fun i => ?_⟩
        show _ ↔ i < size ∧ a ≤ i ∧ i ≤ b
        omega
  | @openEnded _ a _ ha =>
      show Serves _ size (if size ≤ a then none else some (a, size - a))
      by_cases hpast : size ≤ a
      · rw [if_pos hpast]
        rintro i ⟨hi, hlo⟩
        exact absurd hi (by simpa using hpast.trans hlo)
      · rw [if_neg hpast]
        refine ⟨by omega, by omega, fun i => ?_⟩
        show _ ↔ i < size ∧ a ≤ i
        omega
  | @suffix _ n _ hn hpos =>
      show Serves _ size (if size = 0 then none else some (size - min n size, min n size))
      by_cases hempty : size = 0
      · rw [if_pos hempty]
        rintro i ⟨hi, -⟩
        exact absurd hi (by omega)
      · rw [if_neg hempty]
        refine ⟨by omega, by omega, fun i => ?_⟩
        show _ ↔ i < size ∧ size ≤ i + n
        omega

/-- The range of a value is served exactly, for every object size, and no other value is a range. -/
theorem byte_ranges_exact (value : List UInt8) :
    (∀ r, parseRange value = some r ↔ Spells value r) ∧
      (∀ r, Spells value r → ∀ size < wrap64, Serves r size (resolveRange r size)) ∧
      (Rejected value → parseRange value = none) :=
  ⟨fun _ => parse_range_iff, fun _ h _ hsize => resolve_range_serves h hsize, Rejected.not_parsed⟩

example :
    parseRange (text " bytes=990 - 100000") = some ⟨.closed, 990, 100000⟩ ∧
      resolveRange ⟨.closed, 990, 100000⟩ 1000 = some (990, 10) := by
  decide

end GoblinStore.Http
