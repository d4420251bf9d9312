import GoblinStore.Http.KeyDerivation

/-!
# Canonical paths and the keys made of them

`canonical_path` is a normal form: it resolves the segments of a path from left to right
(`Resolves`), leaves its own results alone, and does not see repeated slashes or detours
(`canonical_path_normal_form`). A key is the host, the canonical path and the query one after the
other, without escapes. The query of one request can be in the path of another, and the path of one
in the host of another, so keys separate the resources of all requests only without queries and
hosts (`derive_key_separates_iff`).
-/

namespace GoblinStore.Http

open GoblinStore.Lib

/-! ## Segments -/

/-- The segments of a path, after decoding if it is asked for. -/
def segments (path : List UInt8) (decode : Bool) : List (List UInt8) :=
  (if decode then percentDecode path else path).splitOn (ascii '/')

/-- A segment that stays in the path. -/
def IsKept (seg : List UInt8) : Prop := seg ≠ [] ∧ seg ≠ text "." ∧ seg ≠ text ".."

/-- The segments from left to right: a dot segment `..` removes the last segment kept before it, if
there is one. -/
inductive Resolves : List (List UInt8) → List (List UInt8) → Prop where
  | nil : Resolves [] []
  | skip {segs kept : List (List UInt8)} {seg : List UInt8} :
      Resolves segs kept → seg = [] ∨ seg = text "." → Resolves (segs ++ [seg]) kept
  | up {segs kept : List (List UInt8)} {last : List UInt8} :
      Resolves segs (kept ++ [last]) → Resolves (segs ++ [text ".."]) kept
  | root {segs : List (List UInt8)} : Resolves segs [] → Resolves (segs ++ [text ".."]) []
  | keep {segs kept : List (List UInt8)} {seg : List UInt8} :
      Resolves segs kept → IsKept seg → Resolves (segs ++ [seg]) (kept ++ [seg])

/-- A slash of a path, or one that decoding makes. -/
def IsSlash (decode : Bool) (s : List UInt8) : Prop :=
  s = text "/" ∨ decode = true ∧ (s = text "%2F" ∨ s = text "%2f")

/-- A segment starts after this part of a path. -/
def StartsSegment (decode : Bool) (path : List UInt8) : Prop :=
  path = [] ∨ ∃ before s, IsSlash decode s ∧ path = before ++ s

section Stack

variable {stack : List (List UInt8)} {seg : List UInt8}

theorem push_segment_kept (h : IsKept seg) : pushSegment stack seg = stack ++ [seg] := by
  rw [pushSegment, if_neg h.2.2, if_pos ⟨h.1, h.2.1⟩]

theorem push_segment_skipped (h : seg = [] ∨ seg = text ".") : pushSegment stack seg = stack := by
  rcases h with rfl | rfl <;> rfl

theorem push_segment_up : pushSegment stack (text "..") = stack.dropLast := rfl

/-- What the loop of `canonical_path` does with a segment. -/
theorem push_segment_cases (seg : List UInt8) :
    (seg = [] ∨ seg = text ".") ∨ seg = text ".." ∨ IsKept seg := by
  unfold IsKept
  by_cases hempty : seg = []
  · exact Or.inl (Or.inl hempty)
  by_cases hdot : seg = text "."
  · exact Or.inl (Or.inr hdot)
  by_cases hup : seg = text ".."
  · exact Or.inr (Or.inl hup)
  · exact Or.inr (Or.inr ⟨hempty, hdot, hup⟩)

/-- Segments that stay are pushed one after the other. -/
theorem foldl_push_kept {segs : List (List UInt8)} (h : ∀ seg ∈ segs, IsKept seg) :
    segs.foldl pushSegment stack = stack ++ segs := by
  induction segs generalizing stack with
  | nil => exact (List.append_nil stack).symm
  | cons first rest ih =>
      rw [List.foldl_cons, push_segment_kept (h first List.mem_cons_self),
        ih fun seg hseg => h seg (List.mem_cons_of_mem first hseg), List.append_assoc]
      rfl

end Stack

/-- The loop of `canonical_path` resolves the segments. -/
theorem resolves_iff {segs kept : List (List UInt8)} :
    Resolves segs kept ↔ segs.foldl pushSegment [] = kept := by
  constructor
  · intro h
    induction h with
    | nil => rfl
    | skip _ hseg ih =>
        rw [List.foldl_append, ih, List.foldl_cons, push_segment_skipped hseg, List.foldl_nil]
    | up _ ih =>
        rw [List.foldl_append, ih, List.foldl_cons, push_segment_up, List.dropLast_concat,
          List.foldl_nil]
    | root _ ih =>
        rw [List.foldl_append, ih, List.foldl_cons, push_segment_up, List.dropLast_nil,
          List.foldl_nil]
    | keep _ hseg ih =>
        rw [List.foldl_append, ih, List.foldl_cons, push_segment_kept hseg, List.foldl_nil]
  · rintro rfl
    induction segs using List.reverseRecOn with
    | nil => exact .nil
    | append_singleton segs seg ih =>
        rw [List.foldl_append, List.foldl_cons, List.foldl_nil]
        rcases push_segment_cases seg with hskip | rfl | hkept
        · rw [push_segment_skipped hskip]
          exact .skip ih hskip
        · rw [push_segment_up]
          rcases List.eq_nil_or_concat (segs.foldl pushSegment []) with hnil | ⟨kept, last, hlast⟩
          · rw [hnil] at ih ⊢
            exact .root ih
          · rw [hlast, List.concat_eq_append] at ih ⊢
            rw [List.dropLast_concat]
            exact .up ih
        · rw [push_segment_kept hkept]
          exact .keep ih hkept

/-- Only segments of the path are kept. -/
theorem Resolves.kept {segs kept : List (List UInt8)} (h : Resolves segs kept) :
    ∀ seg ∈ kept, IsKept seg ∧ seg ∈ segs := by
  induction h with
  | nil => exact fun seg hseg => absurd hseg List.not_mem_nil
  | skip _ _ ih => exact fun seg hseg => ⟨(ih seg hseg).1, List.mem_append_left _ (ih seg hseg).2⟩
  | up _ ih =>
      intro seg hseg
      have hbefore := ih seg (List.mem_append_left _ hseg)
      exact ⟨hbefore.1, List.mem_append_left _ hbefore.2⟩
  | root _ _ => exact fun seg hseg => absurd hseg List.not_mem_nil
  | keep _ hkept ih =>
      intro seg hseg
      rcases List.mem_append.1 hseg with hbefore | hlast
      · exact ⟨(ih seg hbefore).1, List.mem_append_left _ (ih seg hbefore).2⟩
      · rw [List.mem_singleton.1 hlast]
        exact ⟨hkept, List.mem_append_right _ (List.mem_singleton_self _)⟩

/-! ## Slashes -/

/-- A percent sign that is not followed by two hexadecimal digits stays. -/
theorem percent_decode_literal {a b d : UInt8} (h : hexval b = none ∨ hexval d = none)
    (rest : List UInt8) :
    percentDecode (a :: b :: d :: rest) = a :: percentDecode (b :: d :: rest) := by
  rw [percentDecode]
  rcases h with h | h
  · rw [h, ite_self]
  · rw [h]
    split
    · rename_i hnone
      cases hnone
    · rfl

/-- No escape goes beyond a byte that is not a hexadecimal digit. -/
theorem percent_decode_append {c : UInt8} (hc : hexval c = none) (rest : List UInt8) :
    ∀ path, percentDecode (path ++ c :: rest) = percentDecode path ++ percentDecode (c :: rest)
  | [] => rfl
  | [a] => by
      cases rest with
      | nil => rfl
      | cons d rest => exact percent_decode_literal (Or.inl hc) rest
  | [a, b] => by
      have hrest := percent_decode_append hc rest [b]
      rw [List.cons_append, List.cons_append, List.nil_append, percent_decode_literal (Or.inr hc)]
      exact congrArg (a :: ·) hrest
  | a :: b :: d :: path => by
      have hnext := percent_decode_append hc rest (b :: d :: path)
      have hskip := percent_decode_append hc rest path
      simp only [List.cons_append] at hnext ⊢
      rw [percentDecode, percentDecode]
      split
      · rw [hskip, List.cons_append]
      · rw [hnext, List.cons_append]

theorem percent_decode_self {s : List UInt8} (h : ascii '%' ∉ s) : percentDecode s = s := by
  induction s with
  | nil => rfl
  | cons c rest ih =>
      rw [List.mem_cons, not_or] at h
      rw [percent_decode_cons (Ne.symm h.1), ih h.2]

theorem segments_nil (decode : Bool) : segments [] decode = [[]] := by
  cases decode <;> rfl

/-- The segments before and after a slash. -/
theorem segments_slash {decode : Bool} {s : List UInt8} (hs : IsSlash decode s)
    (path rest : List UInt8) :
    segments (path ++ (s ++ rest)) decode = segments path decode ++ segments rest decode := by
  unfold segments
  rcases hs with rfl | ⟨rfl, hs⟩
  · have hdecoded : (if decode then percentDecode (path ++ (text "/" ++ rest)) else path ++
        (text "/" ++ rest)) =
        (if decode then percentDecode path else path) ++
          ascii '/' :: (if decode then percentDecode rest else rest) := by
      cases decode with
      | false => rfl
      | true =>
          rw [if_pos rfl, if_pos rfl, if_pos rfl, ← percent_decode_cons (by decide) rest]
          exact percent_decode_append (by decide) rest path
    rw [hdecoded, List.splitOn_append_cons_self]
  · have hdecoded : percentDecode (path ++ (s ++ rest)) =
        percentDecode path ++ ascii '/' :: percentDecode rest := by
      rcases hs with rfl | rfl
      · rw [← show percentDecode (text "%2F" ++ rest) = ascii '/' :: percentDecode rest from rfl]
        exact percent_decode_append (by decide) (text "2F" ++ rest) path
      · rw [← show percentDecode (text "%2f" ++ rest) = ascii '/' :: percentDecode rest from rfl]
        exact percent_decode_append (by decide) (text "2f" ++ rest) path
    rw [if_pos rfl, if_pos rfl, if_pos rfl, hdecoded, List.splitOn_append_cons_self]

/-- A text without slashes and escapes is one segment. -/
theorem segments_plain {decode : Bool} {x : List UInt8} (hslash : ascii '/' ∉ x)
    (hpercent : ascii '%' ∉ x) :
    segments x decode = [x] := by
  unfold segments
  rw [percent_decode_self hpercent, ite_self, List.splitOn_eq_singleton hslash]

theorem canonical_path_eq (path : List UInt8) (decode : Bool) :
    canonicalPath path decode =
      ascii '/' :: [ascii '/'].intercalate ((segments path decode).foldl pushSegment []) :=
  rfl

/-! ## The normal form -/

/-- The path of kept segments is its own canonical path. -/
theorem canonical_path_kept {kept : List (List UInt8)}
    (h : ∀ seg ∈ kept, IsKept seg ∧ ascii '/' ∉ seg) :
    canonicalPath (ascii '/' :: [ascii '/'].intercalate kept) false =
      ascii '/' :: [ascii '/'].intercalate kept := by
  have hsegs : segments (ascii '/' :: [ascii '/'].intercalate kept) false =
      [] :: ([ascii '/'].intercalate kept).splitOn (ascii '/') :=
    List.splitOn_append_cons_self [] _
  rw [canonical_path_eq, hsegs, List.foldl_cons, push_segment_skipped (Or.inl rfl)]
  rcases List.eq_nil_or_concat kept with rfl | ⟨init, last, hlast⟩
  · rfl
  · have hne : kept ≠ [] := by
      rw [hlast]
      simp
    rw [List.splitOn_intercalate _ (fun seg hseg => (h seg hseg).2) hne,
      foldl_push_kept fun seg hseg => (h seg hseg).1, List.nil_append]

/-- The kept segments of a path. -/
theorem canonical_path_resolves (path : List UInt8) (decode : Bool) :
    ∃ kept, canonicalPath path decode = ascii '/' :: [ascii '/'].intercalate kept ∧
      (∀ seg ∈ kept, IsKept seg ∧ ascii '/' ∉ seg) ∧ Resolves (segments path decode) kept := by
  have hresolves : Resolves (segments path decode) ((segments path decode).foldl pushSegment []) :=
    resolves_iff.2 rfl
  refine ⟨_, canonical_path_eq path decode, fun seg hseg => ?_, hresolves⟩
  have hkept := hresolves.kept seg hseg
  exact ⟨hkept.1, not_mem_of_mem_split hkept.2⟩

/-- A segment and `..` after it are a detour. -/
theorem foldl_push_detour {decode : Bool} {x : List UInt8} (hx : IsKept x) (hslash : ascii '/' ∉ x)
    (hpercent : ascii '%' ∉ x) (rest : List UInt8) (stack : List (List UInt8)) :
    (segments (x ++ (text "/../" ++ rest)) decode).foldl pushSegment stack =
      (segments rest decode).foldl pushSegment stack := by
  have hsegs : segments (x ++ (text "/../" ++ rest)) decode =
      [x] ++ ([text ".."] ++ segments rest decode) := by
    have hfirst : segments x decode = [x] := segments_plain hslash hpercent
    have hsecond : segments (text "..") decode = [text ".."] :=
      segments_plain (by decide) (by decide)
    rw [← hfirst, ← hsecond, ← segments_slash (Or.inl rfl), ← segments_slash (Or.inl rfl)]
    rfl
  rw [hsegs, List.foldl_append, List.foldl_append, List.foldl_cons, List.foldl_nil, List.foldl_cons,
    List.foldl_nil, push_segment_kept hx, push_segment_up, List.dropLast_concat]

/-- A canonical path is a normal form of the resolved segments, which repeated and trailing slashes
and detours do not change. -/
theorem canonical_path_normal_form (path : List UInt8) (decode : Bool) :
    (∃ kept, canonicalPath path decode = ascii '/' :: [ascii '/'].intercalate kept ∧
      (∀ seg ∈ kept, IsKept seg ∧ ascii '/' ∉ seg) ∧ Resolves (segments path decode) kept) ∧
    canonicalPath (canonicalPath path decode) false = canonicalPath path decode ∧
    (∀ before s s' rest, IsSlash decode s → IsSlash decode s' → path = before ++ (s ++ rest) →
      canonicalPath (before ++ (s ++ (s' ++ rest))) decode = canonicalPath path decode) ∧
    (∀ s, IsSlash decode s → canonicalPath (path ++ s) decode = canonicalPath path decode) ∧
    ∀ before rest x, StartsSegment decode before → IsKept x → ascii '/' ∉ x → ascii '%' ∉ x →
      path = before ++ rest →
      canonicalPath (before ++ (x ++ (text "/../" ++ rest))) decode =
        canonicalPath path decode := by
  refine ⟨canonical_path_resolves path decode, ?_, ?_, ?_, ?_⟩
  · obtain ⟨kept, heq, hkept, -⟩ := canonical_path_resolves path decode
    rw [heq]
    exact canonical_path_kept hkept
  · rintro before s s' rest hs hs' rfl
    have hempty : segments (s' ++ rest) decode = [[]] ++ segments rest decode := by
      rw [← segments_nil decode, ← segments_slash hs', List.nil_append]
    rw [canonical_path_eq, canonical_path_eq, segments_slash hs, segments_slash hs, hempty,
      List.foldl_append, List.foldl_append, List.foldl_append, List.foldl_cons,
      push_segment_skipped (Or.inl rfl), List.foldl_nil]
  · intro s hs
    have hend : segments (path ++ s) decode = segments path decode ++ [[]] := by
      rw [← segments_nil decode, ← segments_slash hs, List.append_nil]
    rw [canonical_path_eq, canonical_path_eq, hend, List.foldl_append, List.foldl_cons,
      push_segment_skipped (Or.inl rfl), List.foldl_nil]
  · rintro before rest x hstart hx hslash hpercent rfl
    rw [canonical_path_eq, canonical_path_eq]
    rcases hstart with rfl | ⟨before, s, hs, rfl⟩
    · rw [List.nil_append, foldl_push_detour hx hslash hpercent]
      rfl
    · rw [List.append_assoc, segments_slash hs, List.foldl_append,
        foldl_push_detour hx hslash hpercent, List.append_assoc, segments_slash hs,
        List.foldl_append]

/-! ## The parts of a key -/

/-- The canonical path of a request, with the index name for a directory. -/
def keyPath (uri : List UInt8) (opt : KeyOptions) : List UInt8 :=
  let pathPart := (uri.takeWhile (· ≠ ascii '#')).takeWhile (· ≠ ascii '?')
  if opt.indexName ≠ [] ∧ (pathPart = [] ∨ pathPart.getLast? = some (ascii '/')) then
    canonicalPath (pathPart ++ opt.indexName) true
  else canonicalPath pathPart true

/-- The query of a request with its question mark; empty if there is none. -/
def keyQuery (uri : List UInt8) : List UInt8 :=
  (uri.takeWhile (· ≠ ascii '#')).dropWhile (· ≠ ascii '?')

/-- The requests name the same resource under these options. -/
def SameResource (opt : KeyOptions) (host uri host' uri' : List UInt8) : Prop :=
  keyPath uri opt = keyPath uri' opt ∧ (opt.keepQuery = true → keyQuery uri = keyQuery uri') ∧
    (opt.mode = .vhost → normalizeHost host = normalizeHost host')

/-- Two accepted requests have the same key exactly if they name the same resource. -/
def KeysSeparate (opt : KeyOptions) (host uri host' uri' : List UInt8) : Prop :=
  ∀ key key', deriveKey host uri opt = some key → deriveKey host' uri' opt = some key' →
    (key = key' ↔ SameResource opt host uri host' uri')

/-- The host has no slash and the path no question mark, where they matter. -/
def Unambiguous (opt : KeyOptions) (host uri : List UInt8) : Prop :=
  (opt.keepQuery = true → ascii '?' ∉ keyPath uri opt) ∧
    (opt.mode = .vhost → ascii '/' ∉ normalizeHost host)

variable {opt : KeyOptions} {host uri host' uri' key key' : List UInt8}

/-- Path and query, the part of the key that every mode has. -/
def keyTail (uri : List UInt8) (opt : KeyOptions) : List UInt8 :=
  keyPath uri opt ++ if opt.keepQuery then keyQuery uri else []

/-- A key is the host, the path and the query. -/
theorem derive_key_eq (host uri : List UInt8) (opt : KeyOptions) :
    deriveKey host uri opt =
      match opt.mode with
      | .vhost =>
          if normalizeHost host = [] then none else some (normalizeHost host ++ keyTail uri opt)
      | .path =>
          some (if opt.stripLeadingSlash then (keyTail uri opt).tail else keyTail uri opt) := by
  have hquery : ∀ path : List UInt8,
      (if opt.keepQuery = true ∧ keyQuery uri ≠ [] then path ++ keyQuery uri else path) =
      path ++ if opt.keepQuery then keyQuery uri else [] := by
    intro path
    by_cases hkeep : opt.keepQuery = true
    · by_cases hempty : keyQuery uri = []
      · rw [if_neg fun h => h.2 hempty, if_pos hkeep, hempty, List.append_nil]
      · rw [if_pos ⟨hkeep, hempty⟩, if_pos hkeep]
    · rw [if_neg fun h => hkeep h.1, if_neg hkeep, List.append_nil]
  rw [keyTail, ← hquery]
  rfl

/-- A path starts with a slash. -/
theorem key_path_cons (uri : List UInt8) (opt : KeyOptions) :
    ∃ rest, keyPath uri opt = ascii '/' :: rest := by
  unfold keyPath
  dsimp only
  split
  · exact ⟨_, canonical_path_eq _ true⟩
  · exact ⟨_, canonical_path_eq _ true⟩

theorem key_tail_cons (uri : List UInt8) (opt : KeyOptions) :
    ∃ rest, keyTail uri opt = ascii '/' :: rest := by
  obtain ⟨rest, hrest⟩ := key_path_cons uri opt
  exact ⟨_, by rw [keyTail, hrest, List.cons_append]⟩

/-- A query is empty or starts with its question mark. -/
theorem key_query_cases (uri : List UInt8) :
    keyQuery uri = [] ∨ ∃ rest, keyQuery uri = ascii '?' :: rest := by
  cases hquery : keyQuery uri with
  | nil => exact Or.inl rfl
  | cons c rest =>
      have hstop : decide (c ≠ ascii '?') = false :=
        head_drop_while (p := fun c => decide (c ≠ ascii '?')) hquery
      have hfirst : c = ascii '?' := not_not.1 (of_decide_eq_false hstop)
      exact Or.inr ⟨rest, by rw [hfirst]⟩

/-- Without question marks in the paths the query is where the first one is. -/
theorem key_tail_injective (h : opt.keepQuery = true → ascii '?' ∉ keyPath uri opt)
    (h' : opt.keepQuery = true → ascii '?' ∉ keyPath uri' opt)
    (heq : keyTail uri opt = keyTail uri' opt) :
    keyPath uri opt = keyPath uri' opt ∧ (opt.keepQuery = true → keyQuery uri = keyQuery uri') := by
  unfold keyTail at heq
  by_cases hkeep : opt.keepQuery = true
  swap
  · rw [if_neg hkeep, if_neg hkeep, List.append_nil, List.append_nil] at heq
    exact ⟨heq, fun hk => absurd hk hkeep⟩
  rw [if_pos hkeep, if_pos hkeep] at heq
  rcases key_query_cases uri with hq | ⟨q, hq⟩ <;>
    rcases key_query_cases uri' with hq' | ⟨q', hq'⟩ <;>
    rw [hq, hq'] at heq
  · rw [List.append_nil, List.append_nil] at heq
    exact ⟨heq, fun _ => hq.trans hq'.symm⟩
  · rw [List.append_nil] at heq
    exact absurd (heq ▸ List.mem_append_right _ List.mem_cons_self) (h hkeep)
  · rw [List.append_nil] at heq
    exact absurd (heq ▸ List.mem_append_right _ List.mem_cons_self) (h' hkeep)
  · obtain ⟨hpath, hrest⟩ := append_cons_injective (h hkeep) (h' hkeep) heq
    exact ⟨hpath, fun _ => by rw [hq, hq', hrest]⟩

theorem SameResource.key_tail (h : SameResource opt host uri host' uri') :
    keyTail uri opt = keyTail uri' opt := by
  unfold keyTail
  rw [h.1]
  by_cases hkeep : opt.keepQuery = true
  · rw [h.2.1 hkeep]
  · rw [if_neg hkeep, if_neg hkeep]

/-- Requests whose host has no slash and whose path has no question mark are told apart. -/
theorem Unambiguous.separate (h : Unambiguous opt host uri) (h' : Unambiguous opt host' uri') :
    KeysSeparate opt host uri host' uri' := by
  intro key key' hkey hkey'
  rw [derive_key_eq] at hkey hkey'
  obtain ⟨rest, hrest⟩ := key_tail_cons uri opt
  obtain ⟨rest', hrest'⟩ := key_tail_cons uri' opt
  cases hmode : opt.mode with
  | path =>
      rw [hmode] at hkey hkey'
      cases hkey
      cases hkey'
      have hstrip : ((if opt.stripLeadingSlash then (keyTail uri opt).tail else keyTail uri opt) =
          if opt.stripLeadingSlash then (keyTail uri' opt).tail else keyTail uri' opt) ↔
          keyTail uri opt = keyTail uri' opt := by
        rw [hrest, hrest']
        cases opt.stripLeadingSlash with
        | true => exact ⟨congrArg _, List.tail_eq_of_cons_eq⟩
        | false => exact Iff.rfl
      rw [hstrip]
      refine ⟨fun heq => ?_, SameResource.key_tail⟩
      obtain ⟨hpath, hquery⟩ := key_tail_injective h.1 h'.1 heq
      exact ⟨hpath, hquery, fun hvhost => absurd (hmode.symm.trans hvhost) (by decide)⟩
  | vhost =>
      rw [hmode] at hkey hkey'
      dsimp only at hkey hkey'
      split_ifs at hkey hkey'
      cases hkey
      cases hkey'
      constructor
      · intro heq
        rw [hrest, hrest'] at heq
        obtain ⟨hhost, htail⟩ := append_cons_injective (h.2 hmode) (h'.2 hmode) heq
        have htails : keyTail uri opt = keyTail uri' opt := by
          rw [hrest, hrest', htail]
        obtain ⟨hpath, hquery⟩ := key_tail_injective h.1 h'.1 htails
        exact ⟨hpath, hquery, fun _ => hhost⟩
      · intro hsame
        rw [hsame.2.2 hmode, hsame.key_tail]

/-! ## Collisions -/

/-- A query of one request is in the path of another. -/
theorem query_in_path (opt : KeyOptions) (hkeep : opt.keepQuery = true) :
    deriveKey (text "h") (text "/a?b") opt = deriveKey (text "h") (text "/a%3Fb") opt ∧
      (deriveKey (text "h") (text "/a?b") opt).isSome = true ∧
      keyPath (text "/a?b") opt ≠ keyPath (text "/a%3Fb") opt := by
  have hpath : keyPath (text "/a?b") opt = text "/a" := by
    have hdir : ¬ (opt.indexName ≠ [] ∧
        (text "/a" = [] ∨ (text "/a").getLast? = some (ascii '/'))) :=
      fun h => absurd h.2 (by decide)
    exact if_neg hdir
  have hpath' : keyPath (text "/a%3Fb") opt = text "/a?b" := by
    have hdir : ¬ (opt.indexName ≠ [] ∧
        (text "/a%3Fb" = [] ∨ (text "/a%3Fb").getLast? = some (ascii '/'))) :=
      fun h => absurd h.2 (by decide)
    exact if_neg hdir
  have htail : keyTail (text "/a?b") opt = keyTail (text "/a%3Fb") opt := by
    unfold keyTail
    rw [hpath, hpath', if_pos hkeep, if_pos hkeep]
    decide
  refine ⟨?_, ?_, ?_⟩
  · rw [derive_key_eq, derive_key_eq, htail]
  · rw [derive_key_eq]
    cases opt.mode with
    | path => rfl
    | vhost => rfl
  · rw [hpath, hpath']
    decide

/-- A path of one request is in the host of another. -/
theorem path_in_host (opt : KeyOptions) (hmode : opt.mode = .vhost) :
    deriveKey (text "a") (text "/b/c") opt = deriveKey (text "a/b") (text "/c") opt ∧
      (deriveKey (text "a") (text "/b/c") opt).isSome = true ∧
      normalizeHost (text "a") ≠ normalizeHost (text "a/b") := by
  have hpath : keyPath (text "/b/c") opt = text "/b/c" := by
    have hdir : ¬ (opt.indexName ≠ [] ∧
        (text "/b/c" = [] ∨ (text "/b/c").getLast? = some (ascii '/'))) :=
      fun h => absurd h.2 (by decide)
    exact if_neg hdir
  have hpath' : keyPath (text "/c") opt = text "/c" := by
    have hdir : ¬ (opt.indexName ≠ [] ∧
        (text "/c" = [] ∨ (text "/c").getLast? = some (ascii '/'))) :=
      fun h => absurd h.2 (by decide)
    exact if_neg hdir
  have hquery : ∀ uri : List UInt8, keyQuery uri = [] → keyTail uri opt = keyPath uri opt := by
    intro uri h
    rw [keyTail, h, ite_self, List.append_nil]
  have htail := hquery (text "/b/c") (by decide)
  have htail' := hquery (text "/c") (by decide)
  refine ⟨?_, ?_, by decide⟩
  · rw [derive_key_eq, derive_key_eq, hmode, htail, htail', hpath, hpath']
    rfl
  · rw [derive_key_eq, hmode]
    rfl

/-- Keys separate all requests exactly in path mode without queries. Under the other options they
separate the requests whose hosts have no slashes and whose paths have no question marks. -/
theorem derive_key_separates_iff (opt : KeyOptions) :
    ((∀ host uri host' uri', KeysSeparate opt host uri host' uri') ↔
      opt.mode = .path ∧ opt.keepQuery = false) ∧
      ∀ host uri host' uri', Unambiguous opt host uri → Unambiguous opt host' uri' →
        KeysSeparate opt host uri host' uri' := by
  refine ⟨⟨fun h => ?_, fun ⟨hmode, hkeep⟩ host uri host' uri' => ?_⟩,
    fun _ _ _ _ => Unambiguous.separate⟩
  · by_contra hnot
    rw [not_and_or] at hnot
    rcases hnot with hmode | hkeep
    · have hvhost : opt.mode = .vhost := by
        cases hm : opt.mode with
        | path => exact absurd hm hmode
        | vhost => rfl
      obtain ⟨heq, hsome, hne⟩ := path_in_host opt hvhost
      obtain ⟨key, hkey⟩ := Option.isSome_iff_exists.1 hsome
      have hsame := (h _ _ _ _ key key hkey (heq ▸ hkey)).1 rfl
      exact hne (hsame.2.2 hvhost)
    · obtain ⟨heq, hsome, hne⟩ := query_in_path opt (Bool.not_eq_false _ ▸ hkeep)
      obtain ⟨key, hkey⟩ := Option.isSome_iff_exists.1 hsome
      have hsame := (h _ _ _ _ key key hkey (heq ▸ hkey)).1 rfl
      exact hne hsame.1
  · have hclear : ∀ host uri, Unambiguous opt host uri := fun host uri =>
      ⟨fun hk => absurd (hk.symm.trans hkeep) (by decide),
        fun hv => absurd (hv.symm.trans hmode) (by decide)⟩
    exact (hclear host uri).separate (hclear host' uri')

/-- `/a?b` and `/a%3Fb` collide if queries are kept, and so do `/b/c` of the host `a` and `/c` of
`a/b` with virtual hosts. -/
theorem derive_key_collides :
    (deriveKey [] (text "/a?b") ⟨.path, true, false, []⟩ = some (text "/a?b") ∧
        deriveKey [] (text "/a%3Fb") ⟨.path, true, false, []⟩ = some (text "/a?b") ∧
        keyPath (text "/a?b") ⟨.path, true, false, []⟩ ≠
          keyPath (text "/a%3Fb") ⟨.path, true, false, []⟩) ∧
      (deriveKey (text "a") (text "/b/c") ⟨.vhost, false, false, []⟩ = some (text "a/b/c") ∧
        deriveKey (text "a/b") (text "/c") ⟨.vhost, false, false, []⟩ = some (text "a/b/c") ∧
        normalizeHost (text "a") ≠ normalizeHost (text "a/b")) := by
  decide

end GoblinStore.Http
