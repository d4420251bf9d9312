import GoblinStore.Http.HttpLoop
import GoblinStore.Http.Ranges

/-!
# Entity tags

The tag of an object is its size and its store generation in quotes. A field If-None-Match is a star
or a list of tags (`FieldValue`). `inm_matches` searches the field for a star and for the tag of the
object with its quotes. No other arrangement of tags looks like a quoted tag of an object
(`TagList.listed`), but a star inside a tag is taken for the star that matches every object.
-/

namespace GoblinStore.Http

open GoblinStore.Lib

/-! ## Tags of objects -/

variable {c : UInt8}

/-- No digit of a tag is one of these characters. -/
theorem not_mem_hexadecimal (hc : c ∈ [ascii '"', ascii '-', ascii '*', ascii ',']) (n : Nat) :
    c ∉ hexadecimal n := by
  intro h
  obtain ⟨k, hk, rfl⟩ := mem_hexadecimal h
  exact absurd hc
    ((by decide : ∀ k < 16,
    ascii (Nat.digitChar k) ∉ [ascii '"', ascii '-', ascii '*', ascii ',']) k hk)

/-- What stands between the quotes of a tag. -/
def tagText (m : ObjectMeta) : List UInt8 := hexadecimal m.size ++ ascii '-' :: hexadecimal m.etag

theorem make_etag_eq (m : ObjectMeta) : makeEtag m = ascii '"' :: (tagText m ++ [ascii '"']) := by
  simp only [makeEtag, tagText, text, List.append_assoc, List.cons_append]
  rfl

theorem not_mem_tag_text (hc : c = ascii '"' ∨ c = ascii '*' ∨ c = ascii ',') (m : ObjectMeta) :
    c ∉ tagText m := by
  have hmem : c ∈ [ascii '"', ascii '-', ascii '*', ascii ','] := by
    rcases hc with rfl | rfl | rfl <;> decide
  have hdash : c ≠ ascii '-' := by
    rcases hc with rfl | rfl | rfl <;> decide
  rw [tagText, List.mem_append, List.mem_cons]
  rintro (h | h | h)
  · exact not_mem_hexadecimal hmem _ h
  · exact hdash h
  · exact not_mem_hexadecimal hmem _ h

/-- An entity tag: weak or not, and the characters between its quotes. -/
structure EntityTag where
  weak : Bool
  chars : List UInt8

namespace EntityTag

/-- The tag without the mark of a weak one. -/
def quoted (t : EntityTag) : List UInt8 := ascii '"' :: (t.chars ++ [ascii '"'])

def render (t : EntityTag) : List UInt8 := (if t.weak then text "W/" else []) ++ t.quoted

end EntityTag

variable {a : List UInt8}

/-- Commas and blanks. -/
def IsGap (s : List UInt8) : Prop := ∀ c ∈ s, IsBlank c ∨ c = ascii ','

theorem IsGap.nil : IsGap [] := fun _ h => absurd h List.not_mem_nil

/-- Tags with commas between them. -/
inductive TagList : List UInt8 → List EntityTag → Prop where
  | last {t : EntityTag} {gap : List UInt8} : ascii '"' ∉ t.chars → IsGap gap →
      TagList (t.render ++ gap) [t]
  | cons {t : EntityTag} {gap rest : List UInt8} {ts : List EntityTag} :
      ascii '"' ∉ t.chars → IsGap gap →
      ascii ',' ∈ gap → TagList rest ts → TagList (t.render ++ (gap ++ rest)) (t :: ts)

/-- What a field If-None-Match says. -/
inductive IfNoneMatch where
  | any
  | tags (ts : List EntityTag)

/-- The valid fields. -/
inductive FieldValue : List UInt8 → IfNoneMatch → Prop where
  | any : FieldValue (text "*") .any
  | tags {gap list : List UInt8} {ts : List EntityTag} : IsGap gap → TagList list ts →
      FieldValue (gap ++ list) (.tags ts)

namespace IfNoneMatch

/-- The field is the star, or one of its tags is that of the object. -/
def Lists (m : ObjectMeta) : IfNoneMatch → Prop
  | .any => True
  | .tags ts => ∃ t ∈ ts, t.quoted = makeEtag m

/-- A tag of the field has a star in it. -/
def Starred : IfNoneMatch → Prop
  | .any => False
  | .tags ts => ∃ t ∈ ts, ascii '*' ∈ t.chars

end IfNoneMatch

/-! ## What the search finds -/

theorem IsGap.not_mem {gap : List UInt8} (h : IsGap gap)
    (hc : c = ascii '"' ∨ c = ascii '*') : c ∉ gap := by
  intro hmem
  have hgap := h c hmem
  revert hgap
  unfold IsBlank
  rcases hc with rfl | rfl <;> decide

theorem EntityTag.not_mem_weak (hc : c = ascii '"' ∨ c = ascii '*') (weak : Bool) :
    c ∉ (if weak then text "W/" else []) := by
  cases weak <;> rcases hc with rfl | rfl <;> decide

/-- A quoted text that starts in a tag is this tag. -/
theorem EntityTag.infix_render {t : EntityTag} (ht : ascii '"' ∉ t.chars) {rest : List UInt8}
    (ha : ascii '"' ∉ a) (h : ascii '"' :: (a ++ [ascii '"']) <:+: t.render ++ rest) :
    t.chars = a ∨ (∃ tail, rest = a ++ ascii '"' :: tail) ∨
      ascii '"' :: (a ++ [ascii '"']) <:+: rest := by
  have hsplit : t.render ++ rest =
      (if t.weak then text "W/" else []) ++ ascii '"' :: (t.chars ++ ascii '"' :: rest) := by
    simp only [render, quoted, List.append_assoc, List.cons_append, List.nil_append]
  rw [hsplit] at h
  -- the quote at which the text starts is the first of the tag, the second of the tag, or a later
  -- one
  rcases quoted_infix_cons (infix_append_left (not_mem_weak (Or.inl rfl) t.weak) h) with
    ⟨tail, heq⟩ | hin
  · exact Or.inl (append_cons_injective ht ha heq).1
  · exact Or.inr (quoted_infix_cons (infix_append_left ht hin))

/-- A quoted text does not start at the end of a tag: there is a comma before the next quote. -/
theorem IsGap.not_quoted {gap rest tail : List UInt8} (hgap : IsGap gap) (hcomma : ascii ',' ∈ gap)
    (ha : ascii ',' ∉ a) : gap ++ rest ≠ a ++ ascii '"' :: tail := by
  intro heq
  rcases List.append_eq_append_iff.1 heq with ⟨c, rfl, -⟩ | ⟨c, rfl, hc⟩
  · exact ha (List.mem_append_left c hcomma)
  · cases c with
    | nil =>
        rw [List.append_nil] at hcomma
        exact ha hcomma
    | cons first more =>
        cases hc
        exact hgap.not_mem (Or.inl rfl) (List.mem_append_right a List.mem_cons_self)

variable {s : List UInt8} {ts : List EntityTag}

/-- A quoted text without commas that is found in a list of tags is one of them. -/
theorem TagList.listed (h : TagList s ts) (ha : ascii '"' ∉ a)
    (hcomma : ascii ',' ∉ a) (hin : ascii '"' :: (a ++ [ascii '"']) <:+: s) :
    ∃ t ∈ ts, t.chars = a := by
  induction h with
  | @last t gap ht hgap =>
      have hquote := hgap.not_mem (Or.inl rfl)
      rcases EntityTag.infix_render ht ha hin with heq | ⟨tail, heq⟩ | hrest
      · exact ⟨t, List.mem_singleton_self t, heq⟩
      · exact absurd (heq ▸ List.mem_append_right a List.mem_cons_self) hquote
      · exact absurd (hrest.subset List.mem_cons_self) hquote
  | @cons t gap rest ts ht hgap hsep _ ih =>
      rcases EntityTag.infix_render ht ha hin with heq | ⟨tail, heq⟩ | hrest
      · exact ⟨t, List.mem_cons_self, heq⟩
      · exact absurd heq (hgap.not_quoted hsep hcomma)
      · obtain ⟨t', hmem, heq⟩ := ih (infix_append_left (hgap.not_mem (Or.inl rfl)) hrest)
        exact ⟨t', List.mem_cons_of_mem t hmem, heq⟩

/-- Every tag of a list is found with its quotes. -/
theorem TagList.found (h : TagList s ts) {t : EntityTag} (ht : t ∈ ts) :
    t.quoted <:+: s := by
  have hself : ∀ (t : EntityTag) (rest : List UInt8), t.quoted <:+: t.render ++ rest :=
    fun t rest =>
    ⟨if t.weak then text "W/" else [], rest, rfl⟩
  induction h with
  | @last t' gap _ _ =>
      rw [List.mem_singleton.1 ht]
      exact hself t' gap
  | @cons t' gap rest ts _ _ _ _ ih =>
      rcases List.mem_cons.1 ht with rfl | hrest
      · exact hself t (gap ++ rest)
      · exact (ih hrest).trans ⟨t'.render ++ gap, [], by simp⟩

/-- A star of a list is in one of its tags. -/
theorem TagList.star (h : TagList s ts) (hstar : ascii '*' ∈ s) :
    ∃ t ∈ ts, ascii '*' ∈ t.chars := by
  have hrender : ∀ t : EntityTag, ascii '*' ∈ t.render → ascii '*' ∈ t.chars := by
    intro t hmem
    rcases List.mem_append.1 hmem with hweak | hquoted
    · exact absurd hweak (EntityTag.not_mem_weak (Or.inr rfl) t.weak)
    · simpa [EntityTag.quoted, show ascii '*' ≠ ascii '"' by decide] using hquoted
  induction h with
  | @last t gap _ hgap =>
      rcases List.mem_append.1 hstar with hmem | hmem
      · exact ⟨t, List.mem_singleton_self t, hrender t hmem⟩
      · exact absurd hmem (hgap.not_mem (Or.inr rfl))
  | @cons t gap rest ts _ hgap _ _ ih =>
      rcases List.mem_append.1 hstar with hmem | hmem
      · exact ⟨t, List.mem_cons_self, hrender t hmem⟩
      rcases List.mem_append.1 hmem with hmem | hmem
      · exact absurd hmem (hgap.not_mem (Or.inr rfl))
      · obtain ⟨t', ht', hchars⟩ := ih hmem
        exact ⟨t', List.mem_cons_of_mem t ht', hchars⟩

variable {header : List UInt8} {v : IfNoneMatch} {m : ObjectMeta}

theorem inm_matches_eq_true : inmMatches header (makeEtag m) = true ↔
    ascii '*' ∈ header ∨ makeEtag m <:+: header := by
  rw [inmMatches, Bool.or_eq_true, decide_eq_true_iff, decide_eq_true_iff]

/-- A field that matches lists the tag of the object, or has a star in a tag. -/
theorem FieldValue.matched (h : FieldValue header v)
    (hmatch : inmMatches header (makeEtag m) = true) :
    v.Starred ∨ v.Lists m := by
  cases h with
  | any => exact Or.inr trivial
  | @tags gap list ts hgap hlist =>
      rcases inm_matches_eq_true.1 hmatch with hstar | hin
      · rcases List.mem_append.1 hstar with hmem | hmem
        · exact absurd hmem (hgap.not_mem (Or.inr rfl))
        · exact Or.inl (hlist.star hmem)
      · rw [make_etag_eq] at hin
        obtain ⟨t, ht, heq⟩ := hlist.listed (not_mem_tag_text (Or.inl rfl) m)
          (not_mem_tag_text (Or.inr (Or.inr rfl)) m)
          (infix_append_left (hgap.not_mem (Or.inl rfl)) hin)
        exact Or.inr ⟨t, ht, by rw [EntityTag.quoted, heq, make_etag_eq]⟩

/-- A field that lists the tag of the object, or has a star in a tag, matches. -/
theorem FieldValue.matched_of (h : FieldValue header v) (hlists : v.Starred ∨ v.Lists m) :
    inmMatches header (makeEtag m) = true := by
  rw [inm_matches_eq_true]
  cases h with
  | any => exact Or.inl (by decide)
  | @tags gap list ts _ hlist =>
      rcases hlists with ⟨t, ht, hstar⟩ | ⟨t, ht, heq⟩
      · have hmem : ascii '*' ∈ t.quoted := List.mem_cons_of_mem _ (List.mem_append_left _ hstar)
        exact Or.inl (List.mem_append_right gap ((hlist.found ht).subset hmem))
      · rw [← heq]
        exact Or.inr ((hlist.found ht).trans ⟨gap, [], by simp⟩)

/-- A valid field matches exactly the objects it lists, if and only if it lists the object or has no
star in its tags. -/
theorem inm_matches_exact_iff (h : FieldValue header v) (m : ObjectMeta) :
    (inmMatches header (makeEtag m) = true ↔ v.Lists m) ↔ (v.Starred → v.Lists m) := by
  constructor
  · intro hexact hstar
    exact hexact.1 (h.matched_of (Or.inl hstar))
  · intro hstar
    refine ⟨fun hmatch => ?_, fun hlists => h.matched_of (Or.inr hlists)⟩
    rcases h.matched hmatch with hs | hl
    · exact hstar hs
    · exact hl

/-- An object of 2000 bytes, the 42nd stored. -/
def taggedMeta : ObjectMeta := ⟨2000, 0, 0, 42, none⟩

/-- A weak tag of another object and the tag of this one. -/
theorem inm_matches_exact_weak :
    FieldValue (text "W/\"1-1\", \"7d0-2a\"") (.tags [⟨true, text "1-1"⟩, ⟨false, text "7d0-2a"⟩]) ∧
      (inmMatches (text "W/\"1-1\", \"7d0-2a\"") (makeEtag taggedMeta) = true ↔
        (IfNoneMatch.tags [⟨true, text "1-1"⟩, ⟨false, text "7d0-2a"⟩]).Lists taggedMeta) := by
  have hlast : TagList (text "\"7d0-2a\"") [⟨false, text "7d0-2a"⟩] :=
    TagList.last (t := ⟨false, text "7d0-2a"⟩) (by decide) IsGap.nil
  have hgap : IsGap (text ", ") := by
    intro c hc
    rcases List.mem_cons.1 hc with rfl | hc
    · exact Or.inr rfl
    · rw [List.mem_singleton.1 hc]
      exact Or.inl (Or.inl rfl)
  have hfield : FieldValue (text "W/\"1-1\", \"7d0-2a\"")
      (.tags [⟨true, text "1-1"⟩, ⟨false, text "7d0-2a"⟩]) :=
    FieldValue.tags IsGap.nil
      (TagList.cons (t := ⟨true, text "1-1"⟩) (by decide) hgap (by decide) hlast)
  refine ⟨hfield, (inm_matches_exact_iff hfield taggedMeta).2 ?_⟩
  rintro ⟨t, ht, hstar⟩
  exact ⟨⟨false, text "7d0-2a"⟩, by simp, by decide⟩

/-- A star in the tag of something else makes the field match. -/
theorem star_in_tag_matches :
    FieldValue (text "\"a*b\"") (.tags [⟨false, text "a*b"⟩]) ∧
      inmMatches (text "\"a*b\"") (makeEtag taggedMeta) = true ∧
      ¬ (IfNoneMatch.tags [⟨false, text "a*b"⟩]).Lists taggedMeta := by
  refine ⟨FieldValue.tags IsGap.nil
    (TagList.last (t := ⟨false, text "a*b"⟩) (by decide) IsGap.nil), by decide, ?_⟩
  rintro ⟨t, ht, heq⟩
  rw [List.mem_singleton.1 ht] at heq
  exact absurd heq (by decide)

end GoblinStore.Http
