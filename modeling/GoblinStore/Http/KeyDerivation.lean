import Mathlib.Data.List.DropRight
import GoblinStore.Lib.Text

/-!
# Keys of HTTP requests and of preloaded files

`derive_key` turns the target of a request into a key, `derive_key_from_relpath` the path of a file
that the preloader stores. A file is found under every percent-encoding of its path in which at
least the escape character and the starts of a query and of a fragment are escaped
(`preloaded_file_is_found`).
-/

namespace GoblinStore.Http

open GoblinStore.Lib

/-- The value of a hexadecimal digit. -/
def hexval (c : UInt8) : Option Nat :=
  if ascii '0' ≤ c ∧ c ≤ ascii '9' then some (c.toNat - (ascii '0').toNat)
  else if ascii 'a' ≤ c ∧ c ≤ ascii 'f' then some (c.toNat - (ascii 'a').toNat + 10)
  else if ascii 'A' ≤ c ∧ c ≤ ascii 'F' then some (c.toNat - (ascii 'A').toNat + 10)
  else none

/-- Replace the escapes; what is not an escape stays. -/
def percentDecode : List UInt8 → List UInt8
  | c :: hi :: lo :: rest =>
      match (if c = ascii '%' then hexval hi else none), hexval lo with
      | some h, some l => UInt8.ofNat (h * 16 + l) :: percentDecode rest
      | _, _ => c :: percentDecode (hi :: lo :: rest)
  | c :: rest => c :: percentDecode rest
  | [] => []

/-- One segment of the loop of `canonical_path`. -/
def pushSegment (stack : List (List UInt8)) (seg : List UInt8) : List (List UInt8) :=
  if seg = text ".." then stack.dropLast
  else if seg ≠ [] ∧ seg ≠ text "." then stack ++ [seg]
  else stack

/-- Collapse repeated slashes and resolve the dot segments. -/
def canonicalPath (path : List UInt8) (decode : Bool) : List UInt8 :=
  let decoded := if decode then percentDecode path else path
  let stack := (decoded.splitOn (ascii '/')).foldl pushSegment []
  ascii '/' :: List.intercalate [ascii '/'] stack

/-- `tolower` of the C locale. -/
def tolower (c : UInt8) : UInt8 := if ascii 'A' ≤ c ∧ c ≤ ascii 'Z' then c + 32 else c

/-- Without the port and trailing dots, in lower case. -/
def normalizeHost (host : List UInt8) : List UInt8 :=
  let h := host.takeWhile (· ≠ ascii ':')
  (h.rdropWhile (· = ascii '.')).map tolower

inductive KeyMode where
  | path
  | vhost
  deriving DecidableEq, Repr

structure KeyOptions where
  mode : KeyMode
  keepQuery : Bool
  stripLeadingSlash : Bool
  indexName : List UInt8

/-- The key of a request; `none` in vhost mode without a host. -/
def deriveKey (host uri : List UInt8) (opt : KeyOptions) : Option (List UInt8) :=
  let u := uri.takeWhile (· ≠ ascii '#')
  let pathPart := u.takeWhile (· ≠ ascii '?')
  let queryPart := u.dropWhile (· ≠ ascii '?')
  let key :=
    if opt.indexName ≠ [] ∧ (pathPart = [] ∨ pathPart.getLast? = some (ascii '/')) then
      canonicalPath (pathPart ++ opt.indexName) true
    else canonicalPath pathPart true
  let key := if opt.keepQuery ∧ queryPart ≠ [] then key ++ queryPart else key
  match opt.mode with
  | .vhost =>
      let h := normalizeHost host
      if h = [] then none else some (h ++ key)
  | .path => some (if opt.stripLeadingSlash then key.tail else key)

/-- The key of a file with this path below the source root. -/
def deriveKeyFromRelpath (relpath : List UInt8) (opt : KeyOptions) : List UInt8 :=
  match opt.mode with
  | .vhost =>
      let host := relpath.takeWhile (· ≠ ascii '/')
      let rest := relpath.dropWhile (· ≠ ascii '/')
      normalizeHost host ++ (if rest = [] then [ascii '/'] else canonicalPath rest false)
  | .path =>
      let key := canonicalPath (ascii '/' :: relpath) false
      if opt.stripLeadingSlash then key.tail else key

/-! ## Percent-encodings -/

/-- `Encoding r e` says that `e` is a percent-encoding of `r` with at least the percent sign, the
question mark and the number sign escaped. -/
inductive Encoding : List UInt8 → List UInt8 → Prop where
  | nil : Encoding [] []
  | plain {c : UInt8} {r e : List UInt8} : c ≠ ascii '%' → c ≠ ascii '?' → c ≠ ascii '#' →
      Encoding r e → Encoding (c :: r) (c :: e)
  | escaped {hi lo : UInt8} {h l : Nat} {r e : List UInt8} : hexval hi = some h →
      hexval lo = some l →
      Encoding r e → Encoding (UInt8.ofNat (h * 16 + l) :: r) (ascii '%' :: hi :: lo :: e)

/-- The path of a file: no segment is empty or a dot segment. -/
def IsRelPath (r : List UInt8) : Prop :=
  ∀ seg ∈ r.splitOn (ascii '/'), seg ≠ [] ∧ seg ≠ text "." ∧ seg ≠ text ".."

variable {c : UInt8}

/-- A byte that is no percent sign is left alone. -/
theorem percent_decode_cons (h : c ≠ ascii '%') (rest : List UInt8) :
    percentDecode (c :: rest) = c :: percentDecode rest := by
  match rest with
  | [] => rfl
  | [_] => rfl
  | _ :: _ :: _ => rw [percentDecode, if_neg h]

theorem percent_decode_escape {hi lo : UInt8} {h l : Nat} (hhi : hexval hi = some h)
    (hlo : hexval lo = some l) (rest : List UInt8) :
    percentDecode (ascii '%' :: hi :: lo :: rest) =
      UInt8.ofNat (h * 16 + l) :: percentDecode rest := by
  rw [percentDecode, if_pos rfl, hhi, hlo]

/-- Only digits have a value. -/
theorem ne_of_hexval {d : UInt8} {n : Nat} (h : hexval c = some n)
    (hd : hexval d = none) : c ≠ d := by
  rintro rfl
  rw [h] at hd
  cases hd

namespace Encoding

variable {r e : List UInt8}

theorem decode (h : Encoding r e) : percentDecode e = r := by
  induction h with
  | nil => rfl
  | plain hpercent _ _ _ ih => rw [percent_decode_cons hpercent, ih]
  | escaped hhi hlo _ ih => rw [percent_decode_escape hhi hlo, ih]

/-- Neither a query nor a fragment starts in an encoding. -/
theorem not_mem (h : Encoding r e) {c : UInt8} (hc : c = ascii '?' ∨ c = ascii '#') : c ∉ e := by
  have hnone : hexval c = none := by
    rcases hc with rfl | rfl <;> decide
  have hpercent : c ≠ ascii '%' := by
    rcases hc with rfl | rfl <;> decide
  induction h with
  | nil => exact List.not_mem_nil
  | plain _ hquery hfragment _ ih =>
      rw [List.mem_cons, not_or]
      refine ⟨?_, ih⟩
      rcases hc with rfl | rfl
      · exact hquery.symm
      · exact hfragment.symm
  | escaped hhi hlo _ ih =>
      simp only [List.mem_cons, not_or]
      exact ⟨hpercent, (ne_of_hexval hhi hnone).symm, (ne_of_hexval hlo hnone).symm, ih⟩

/-- An encoding ends with a slash only if the text does. -/
theorem last_slash (h : Encoding r e) (hlast : e.getLast? = some (ascii '/')) :
    r.getLast? = some (ascii '/') := by
  induction h with
  | nil => cases hlast
  | @plain c r e _ _ _ hrest ih =>
      cases hrest with
      | nil => exact hlast
      | plain _ _ _ _ => exact ih hlast
      | escaped _ _ _ => exact ih hlast
  | @escaped hi lo _ _ r e _ hlo hrest ih =>
      have hlast' : (lo :: e).getLast? = some (ascii '/') := hlast
      cases hrest with
      | nil =>
          cases hlast'
          exact absurd rfl (ne_of_hexval hlo (by decide))
      | plain _ _ _ _ => exact ih hlast'
      | escaped _ _ _ => exact ih hlast'

end Encoding

/-! ## The two keys -/

theorem take_while_ne {l : List UInt8} (h : c ∉ l) : l.takeWhile (· ≠ c) = l :=
  List.takeWhile_eq_self_iff.2 fun _ hx => decide_eq_true fun heq => h (heq ▸ hx)

/-- A path of a file does not end with a slash. -/
theorem IsRelPath.last {h p : List UInt8} (hr : IsRelPath (h ++ p)) :
    p.getLast? ≠ some (ascii '/') := by
  intro hlast
  have hsplit : h ++ p = (h ++ p.dropLast) ++ ascii '/' :: [] := by
    rw [List.append_assoc, List.dropLast_append_getLast? _ hlast]
  have hempty : [] ∈ (h ++ p).splitOn (ascii '/') := by
    rw [hsplit, List.splitOn_append_cons_self]
    exact List.mem_append_right _ (List.mem_singleton_self _)
  exact (hr [] hempty).1 rfl

/-- The path of the request is the encoded path of the file. -/
theorem derive_key_encoded {r e : List UInt8} (henc : Encoding r e)
    (hlast : r.getLast? ≠ some (ascii '/')) (hne : r ≠ []) (host : List UInt8) (opt : KeyOptions) :
    deriveKey host (ascii '/' :: e) opt =
      match opt.mode with
      | .vhost =>
          if normalizeHost host = [] then none
          else some (normalizeHost host ++ canonicalPath (ascii '/' :: r) false)
      | .path =>
          some (if opt.stripLeadingSlash then (canonicalPath (ascii '/' :: r) false).tail
            else canonicalPath (ascii '/' :: r) false) := by
  have hfragment : ascii '#' ∉ ascii '/' :: e := by
    rw [List.mem_cons, not_or]
    exact ⟨by decide, henc.not_mem (Or.inr rfl)⟩
  have hquery : ascii '?' ∉ ascii '/' :: e := by
    rw [List.mem_cons, not_or]
    exact ⟨by decide, henc.not_mem (Or.inl rfl)⟩
  have hdrop : (ascii '/' :: e).dropWhile (· ≠ ascii '?') = [] := by
    rw [List.dropWhile_eq_nil_iff]
    exact fun x hx => decide_eq_true fun heq => hquery (heq ▸ hx)
  have hdir : ¬ (opt.indexName ≠ [] ∧ (ascii '/' :: e = [] ∨
      (ascii '/' :: e).getLast? = some (ascii '/'))) := by
    rintro ⟨-, hnil | hslash⟩
    · cases hnil
    · cases henc with
      | nil => exact hne rfl
      | plain hpercent hq hf hrest =>
          exact hlast ((Encoding.plain hpercent hq hf hrest).last_slash hslash)
      | escaped hhi hlo hrest => exact hlast ((Encoding.escaped hhi hlo hrest).last_slash hslash)
  have hpath : canonicalPath (ascii '/' :: e) true = canonicalPath (ascii '/' :: r) false := by
    unfold canonicalPath
    rw [if_pos rfl, percent_decode_cons (by decide), henc.decode]
    rfl
  unfold deriveKey
  simp only [take_while_ne hfragment, take_while_ne hquery, hdrop, if_neg hdir, hpath, ne_eq,
    not_true_eq_false, and_false, if_false]

/-- For every file below the source root and every encoding of its path, the request and the
preloader derive the same key. In vhost mode the first component of the path is the host. -/
theorem preloaded_file_is_found (opt : KeyOptions) :
    (opt.mode = .path → ∀ host r e, IsRelPath r → Encoding r e →
      deriveKey host (ascii '/' :: e) opt = some (deriveKeyFromRelpath r opt)) ∧
    (opt.mode = .vhost → ∀ host h p e, ascii '/' ∉ h → p ≠ [] → IsRelPath (h ++ ascii '/' :: p) →
      Encoding p e → normalizeHost host = normalizeHost h → normalizeHost host ≠ [] →
      deriveKey host (ascii '/' :: e) opt =
        some (deriveKeyFromRelpath (h ++ ascii '/' :: p) opt)) := by
  constructor
  · intro hmode host r e hr henc
    have hne : r ≠ [] := by
      rintro rfl
      exact (hr [] (List.mem_singleton_self _)).1 rfl
    rw [derive_key_encoded henc (IsRelPath.last (h := []) hr) hne]
    unfold deriveKeyFromRelpath
    simp only [hmode]
  · intro hmode host h p e hslash hne hr henc hhost hsome
    have hlast : p.getLast? ≠ some (ascii '/') := by
      refine IsRelPath.last (h := h ++ [ascii '/']) ?_
      rw [List.append_assoc]
      exact hr
    have hplain : ∀ x ∈ h, decide (x ≠ ascii '/') = true :=
      fun x hx => decide_eq_true fun heq => hslash (heq ▸ hx)
    have htake : (h ++ ascii '/' :: p).takeWhile (· ≠ ascii '/') = h := by
      rw [List.takeWhile_append_of_pos hplain, List.takeWhile_cons_of_neg (by simp),
        List.append_nil]
    have hdrop : (h ++ ascii '/' :: p).dropWhile (· ≠ ascii '/') = ascii '/' :: p := by
      rw [List.dropWhile_append_of_pos hplain, List.dropWhile_cons_of_neg (by simp)]
    rw [derive_key_encoded henc hlast hne]
    rw [hhost] at hsome ⊢
    unfold deriveKeyFromRelpath
    simp only [hmode, htake, hdrop, if_neg hsome, reduceCtorEq, if_false]

/-- The file `a%b` of the host `x` is found, with or without virtual hosts. -/
theorem preloaded_file_is_found_escaped :
    deriveKey [] (text "/a%25b") ⟨.path, false, true, []⟩ =
        some (deriveKeyFromRelpath (text "a%b") ⟨.path, false, true, []⟩) ∧
      deriveKey (text "X:80") (text "/a%25b") ⟨.vhost, true, false, text "i"⟩ =
        some (deriveKeyFromRelpath (text "x/a%b") ⟨.vhost, true, false, text "i"⟩) := by
  have henc : Encoding (text "a%b") (text "a%25b") :=
    .plain (by decide) (by decide) (by decide)
      (@Encoding.escaped (ascii '2') (ascii '5') 2 5 _ _ (by decide) (by decide)
        (.plain (by decide) (by decide) (by decide) .nil))
  constructor
  · exact (preloaded_file_is_found _).1 rfl _ _ _ (by unfold IsRelPath; decide) henc
  · exact (preloaded_file_is_found _).2 rfl _ (text "x") _ _ (by decide) (by decide)
      (by unfold IsRelPath; decide) henc (by decide) (by decide)

end GoblinStore.Http
