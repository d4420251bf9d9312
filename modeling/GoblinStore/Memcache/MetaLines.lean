import GoblinStore.Memcache.Protocol
import Mathlib.Algebra.Group.Int.Defs
import Mathlib.Data.List.Nodup
import Mathlib.Data.List.TakeWhile

/-!
# Meta command lines

`parse_meta` takes a line apart with a cursor; `scanMeta` is this loop, and `scan_meta_eq` shows
that it parses the words of the line, as `parseMeta` does. A flag token is read on its own
(`MetaFlag.read`) and sets its own fields (`MetaFlag.set`), so that flags with different letters
commute. Rendering a command and parsing the line gives the command back, whatever the order of the
flags and the blanks between the tokens.
-/

namespace GoblinStore.Memcache

open GoblinStore.Lib

/-! ## The cursor -/

/-- `next` of `parse_meta`: the next token, and what is left of the line. -/
def next (line : List UInt8) : List UInt8 × List UInt8 :=
  let start := line.dropWhile (· = ascii ' ')
  (start.takeWhile (· ≠ ascii ' '), start.dropWhile (· ≠ ascii ' '))

/-- The loop over the flags. -/
def scanFlags : Nat → List UInt8 → MetaCommand → Option MetaCommand
  | 0, _, _ => none
  | fuel + 1, line, m =>
      match next line with
      | ([], _) => some m
      | (c :: arg, rest) => (parseMetaFlag m c arg).bind (scanFlags fuel rest)

/-- The key, the data length of an `ms`, and the flags. -/
def scanArguments (verb : MetaVerb) (line : List UInt8) : Option MetaCommand :=
  match next line with
  | ([], _) => none
  | (key, line) =>
      if verb = .ms then
        (toUint 64 (next line).1).bind fun n =>
          scanFlags ((next line).2.length + 1) (next line).2 (.start verb key n)
      else scanFlags (line.length + 1) line (.start verb key 0)

/-- `parse_meta` token by token. -/
def scanMeta (line : List UInt8) : Option MetaCommand :=
  if (next line).1 = text "mn" then some (.start .mn [] 0)
  else if (next line).1 = text "mg" then scanArguments .mg (next line).2
  else if (next line).1 = text "ms" then scanArguments .ms (next line).2
  else if (next line).1 = text "md" then scanArguments .md (next line).2
  else none

/-- The tokens that `next` delivers are the words of the line. -/
theorem words_next (line : List UInt8) :
    words line = if (next line).1 = [] then [] else (next line).1 :: words (next line).2 := by
  have hblanks : words line = words (line.dropWhile (· = ascii ' ')) := by
    induction line with
    | nil => rfl
    | cons c rest ih =>
        by_cases hc : c = ascii ' '
        · rw [hc, words_blank, List.dropWhile_cons_of_pos (by simp), ih]
        · rw [List.dropWhile_cons_of_neg (by simpa using hc)]
  have hfirst : ∀ c rest, line.dropWhile (· = ascii ' ') = c :: rest → c ≠ ascii ' ' := by
    intro c rest heq
    exact of_decide_eq_false (head_drop_while (p := fun c => decide (c = ascii ' ')) heq)
  rw [hblanks]
  unfold next
  dsimp only
  generalize line.dropWhile (· = ascii ' ') = start at hfirst
  cases start with
  | nil => rfl
  | cons c rest =>
      have hc := hfirst c rest rfl
      have hword : IsWord ((c :: rest).takeWhile (· ≠ ascii ' ')) := by
        refine ⟨by rw [List.takeWhile_cons_of_pos (by simpa using hc)]; simp, fun hmem => ?_⟩
        simpa using List.mem_takeWhile_imp hmem
      rw [if_neg hword.1]
      have hsplit := List.takeWhile_append_dropWhile (p := fun c => decide (c ≠ ascii ' '))
        (l := c :: rest)
      cases hdrop : (c :: rest).dropWhile (· ≠ ascii ' ') with
      | nil =>
          rw [hdrop, List.append_nil] at hsplit
          rw [hsplit] at hword ⊢
          exact words_single hword
      | cons blank tail =>
          have hblank : blank = ascii ' ' := by
            have hnot := List.head_dropWhile_not (fun c => decide (c ≠ ascii ' ')) (l := c :: rest)
              (by rw [hdrop]; simp)
            simp only [hdrop, List.head_cons, decide_eq_false_iff_not, not_not] at hnot
            exact hnot
          rw [hdrop, hblank] at hsplit
          rw [hblank, words_blank, ← words_cons hword, hsplit]

variable {line : List UInt8}

theorem words_of_next_nil (h : (next line).1 = []) : words line = [] := by
  rw [words_next, if_pos h]

theorem words_of_next (h : (next line).1 ≠ []) :
    words line = (next line).1 :: words (next line).2 := by
  rw [words_next, if_neg h]

/-- A token makes the rest of the line shorter. -/
theorem next_length (h : (next line).1 ≠ []) : (next line).2.length < line.length := by
  have hskip := (List.dropWhile_suffix (fun c => decide (c = ascii ' ')) (l := line)).length_le
  have hsplit := congrArg List.length
    (List.takeWhile_append_dropWhile (p := fun c => decide (c ≠ ascii ' '))
    (l := line.dropWhile (· = ascii ' ')))
  have htoken := List.length_pos_iff.2 h
  rw [List.length_append] at hsplit
  unfold next at htoken ⊢
  dsimp only at htoken ⊢
  omega

theorem scan_flags_eq {fuel : Nat} (hfuel : line.length < fuel) (m : MetaCommand) :
    scanFlags fuel line m = parseMetaFlags (words line) m := by
  induction fuel generalizing line m with
  | zero => omega
  | succ fuel ih =>
      rw [scanFlags]
      split
      · rename_i heq
        rw [words_of_next_nil (congrArg Prod.fst heq)]
        rfl
      · rename_i c arg rest heq
        have hne : (next line).1 ≠ [] := by
          rw [heq]
          exact List.cons_ne_nil c arg
        have hlt := next_length hne
        rw [words_of_next hne, heq, parseMetaFlags]
        rw [heq] at hlt
        exact congrArg _ (funext fun m => ih (by dsimp only at hlt; omega) m)

theorem scan_arguments_eq (verb : MetaVerb) (line : List UInt8) :
    scanArguments verb line =
      match words line with
      | [] => none
      | key :: rest =>
          if verb = .ms then
            match rest with
            | [] => none
            | datalen :: rest =>
                (toUint 64 datalen).bind fun n => parseMetaFlags rest (.start verb key n)
          else parseMetaFlags rest (.start verb key 0) := by
  unfold scanArguments
  split
  · rename_i heq
    rw [words_of_next_nil (congrArg Prod.fst heq)]
  · rename_i key line' hne heq
    have hkey : (next line).1 ≠ [] := by
      intro hnil
      rw [heq] at hnil
      exact hne hnil
    rw [words_of_next hkey, heq]
    dsimp only
    split
    · by_cases hdatalen : (next line').1 = []
      · rw [words_of_next_nil hdatalen, hdatalen]
        rfl
      · rw [words_of_next hdatalen]
        exact congrArg _ (funext fun n => scan_flags_eq (Nat.lt_succ_self _) _)
    · exact scan_flags_eq (Nat.lt_succ_self _) _

/-- The cursor parses the words of the line. -/
theorem scan_meta_eq (line : List UInt8) : scanMeta line = parseMeta line := by
  unfold scanMeta parseMeta
  by_cases hnil : (next line).1 = []
  · rw [words_of_next_nil hnil, hnil]
    rfl
  · rw [words_of_next hnil]
    simp only [scan_arguments_eq]
    generalize (next line).1 = v
    generalize words (next line).2 = args
    by_cases hmn : v = text "mn"
    · rw [if_pos hmn, if_pos hmn]
    rw [if_neg hmn, if_neg hmn]
    cases args with
    | nil => simp
    | cons key rest =>
        by_cases hmg : v = text "mg"
        · rw [if_pos hmg]
          simp [hmg]
        by_cases hms : v = text "ms"
        · subst hms
          rfl
        · simp only [if_neg hmg, if_neg hms]
          rfl

/-! ## Numbers -/

/-- A signed number in decimal digits. -/
def signedDecimal (n : Int) : List UInt8 :=
  if n < 0 then ascii '-' :: decimal n.natAbs else decimal n.natAbs

/-- Not an `int64_t`: after the sign nothing, not only digits, or out of range. -/
def BadInt64 (s : List UInt8) : Prop :=
  match s with
  | [] => True
  | c :: rest =>
      if c = ascii '-' then rest = [] ∨ (∃ d ∈ rest, ¬ IsDigit d) ∨ 2 ^ 63 < decimalValue rest
      else (∃ d ∈ c :: rest, ¬ IsDigit d) ∨ 2 ^ 63 ≤ decimalValue (c :: rest)

theorem to_int64_cons (c : UInt8) (rest : List UInt8) :
    toInt64 (c :: rest) =
      if c = ascii '-' then Option.map (fun n : Nat => -(n : Int))
      ((digits rest).filter (· ≤ 2 ^ 63))
      else Option.map Int.ofNat ((digits (c :: rest)).filter (· < 2 ^ 63)) := by
  rw [toInt64]
  split
  · cases (digits rest).filter (· ≤ 2 ^ 63) <;> rfl
  · cases (digits (c :: rest)).filter (· < 2 ^ 63) <;> rfl

theorem to_int64_eq_none {s : List UInt8} : toInt64 s = none ↔ BadInt64 s := by
  unfold BadInt64
  cases s with
  | nil => exact ⟨fun _ => trivial, fun _ => rfl⟩
  | cons c rest =>
      rw [to_int64_cons]
      dsimp only
      split
      · rw [Option.map_eq_none_iff]
        by_cases hdigits : digits rest = none
        · rw [hdigits, ← or_assoc, ← digits_eq_none]
          exact ⟨fun _ => Or.inl hdigits, fun _ => rfl⟩
        · have hgood := mt digits_eq_none.2 hdigits
          rw [not_or] at hgood
          rw [digits_of hgood.1 fun d hd => not_not.1 fun hnot => hgood.2 ⟨d, hd, hnot⟩]
          simp [Option.filter, hgood.1, hgood.2]
      · rw [Option.map_eq_none_iff]
        have hbad := @to_uint_eq_none (c :: rest) 63
        unfold toUint BadUint at hbad
        rw [hbad]
        exact ⟨fun h => h.resolve_left (List.cons_ne_nil c rest), Or.inr⟩

theorem to_int64_signed_decimal {n : Int} (hlow : -2 ^ 63 ≤ n) (hhigh : n < 2 ^ 63) :
    toInt64 (signedDecimal n) = some n := by
  unfold signedDecimal
  split
  · rename_i hneg
    rw [to_int64_cons, if_pos rfl, digits_decimal, Option.filter_some,
      if_pos (decide_eq_true (by omega)), Option.map_some]
    exact congrArg some (show -(n.natAbs : Int) = n by omega)
  · obtain ⟨c, rest, hcons⟩ := List.exists_cons_of_ne_nil (decimal_ne_nil n.natAbs)
    have hdigit : IsDigit c := mem_decimal (n := n.natAbs) (hcons ▸ List.mem_cons_self)
    have hminus : c ≠ ascii '-' := by
      rintro rfl
      exact absurd hdigit (by decide)
    have hdigits := digits_decimal n.natAbs
    rw [hcons] at hdigits
    rw [hcons, to_int64_cons, if_neg hminus, hdigits, Option.filter_some,
      if_pos (decide_eq_true (by omega)), Option.map_some]
    exact congrArg some (show (n.natAbs : Int) = n by omega)

/-! ## Flags -/

/-- A flag of a meta command. -/
inductive MetaFlag where
  | value
  | flags
  | size
  | ttl
  | cas
  | key
  | quiet
  | setFlags (n : Nat)
  | setTtl (n : Int)
  | compareCas (n : Nat)
  | mode (c : UInt8)
  | opaqueToken (token : List UInt8)
  deriving DecidableEq

namespace MetaFlag

def letter : MetaFlag → UInt8
  | value => ascii 'v'
  | flags => ascii 'f'
  | size => ascii 's'
  | ttl => ascii 't'
  | cas => ascii 'c'
  | key => ascii 'k'
  | quiet => ascii 'q'
  | setFlags _ => ascii 'F'
  | setTtl _ => ascii 'T'
  | compareCas _ => ascii 'C'
  | mode _ => ascii 'M'
  | opaqueToken _ => ascii 'O'

def argument : MetaFlag → List UInt8
  | setFlags n => decimal n
  | setTtl n => signedDecimal n
  | compareCas n => decimal n
  | mode c => [c]
  | opaqueToken token => token
  | _ => []

/-- The token of a flag. -/
def token (flag : MetaFlag) : List UInt8 := flag.letter :: flag.argument

/-- The argument fits the field it is for, and a token. -/
def Representable : MetaFlag → Prop
  | setFlags n => n < 2 ^ 32
  | setTtl n => -2 ^ 63 ≤ n ∧ n < 2 ^ 63
  | compareCas n => n < 2 ^ 64
  | mode c => c ≠ ascii ' '
  | opaqueToken token => ascii ' ' ∉ token
  | _ => True

/-- What a flag does to the command. -/
def set (m : MetaCommand) : MetaFlag → MetaCommand
  | value => { m with rfValue := true }
  | flags => { m with rfFlags := true }
  | size => { m with rfSize := true }
  | ttl => { m with rfTtl := true }
  | cas => { m with rfCas := true }
  | key => { m with rfKey := true }
  | quiet => { m with quiet := true }
  | setFlags n => { m with hasSetFlags := true, setFlags := n }
  | setTtl n => { m with ttl := some n }
  | compareCas n => { m with cas := some n }
  | mode c => { m with mode := c }
  | opaqueToken token => { m with opaqueToken := token }

/-- The flag that a token stands for. -/
def read (c : UInt8) (arg : List UInt8) : Option MetaFlag :=
  if c = ascii 'v' then some value
  else if c = ascii 'f' then some flags
  else if c = ascii 's' then some size
  else if c = ascii 't' then some ttl
  else if c = ascii 'c' then some cas
  else if c = ascii 'k' then some key
  else if c = ascii 'q' then some quiet
  else if c = ascii 'F' then (toUint 32 arg).map setFlags
  else if c = ascii 'T' then (toInt64 arg).map setTtl
  else if c = ascii 'C' then (toUint 64 arg).map compareCas
  else if c = ascii 'M' then arg.head?.map mode
  else if c = ascii 'O' then some (opaqueToken arg)
  else none

/-- A flag is read whatever the flags before it. -/
theorem parse_meta_flag_eq (m : MetaCommand) (c : UInt8) (arg : List UInt8) :
    parseMetaFlag m c arg = (read c arg).map (set m) := by
  unfold parseMetaFlag read
  simp only [apply_ite (Option.map (set m)), Option.map_some, Option.map_none, Option.map_map]
  rfl

variable {flag : MetaFlag}

theorem read_letter {c : UInt8} {arg : List UInt8} (h : read c arg = some flag) :
    flag.letter = c := by
  have hite : ∀ {d : UInt8} {yes no : Option MetaFlag},
      (c = d → yes = some flag → flag.letter = c) →
      (no = some flag → flag.letter = c) → (if c = d then yes else no) = some flag →
      flag.letter = c := by
    intro d yes no hyes hno h
    split at h
    · exact hyes ‹_› h
    · exact hno h
  revert h
  unfold read
  iterate 12
    refine hite (fun hc h => ?_) ?_
    · first
        | (cases h; exact hc.symm)
        | (obtain ⟨_, -, rfl⟩ := Option.map_eq_some_iff.1 h; exact hc.symm)
  exact nofun

theorem read_token (h : flag.Representable) : read flag.letter flag.argument = some flag := by
  cases flag <;>
    simp +decide only [read, letter, argument, ascii, Char.reduceToNat,
      UInt8.reduceOfNat, if_true, if_false]
  case setFlags n => rw [to_uint_decimal h, Option.map_some]
  case setTtl n => rw [to_int64_signed_decimal h.1 h.2, Option.map_some]
  case compareCas n => rw [to_uint_decimal h, Option.map_some]
  case mode c => rfl

theorem token_is_word (h : flag.Representable) : IsWord flag.token := by
  refine ⟨List.cons_ne_nil _ _, fun hmem => ?_⟩
  have hblank : ¬ IsDigit (ascii ' ') := by decide
  rcases List.mem_cons.1 hmem with hletter | harg
  · cases flag <;> simp only [letter] at hletter <;> exact absurd hletter (by decide)
  · cases flag with
    | setFlags n => exact hblank (mem_decimal harg)
    | setTtl n =>
        simp only [argument, signedDecimal] at harg
        split at harg
        · rcases List.mem_cons.1 harg with hminus | harg
          · exact absurd hminus (by decide)
          · exact hblank (mem_decimal harg)
        · exact hblank (mem_decimal harg)
    | compareCas n => exact hblank (mem_decimal harg)
    | mode c => exact h (List.mem_singleton.1 harg).symm
    | opaqueToken token => exact h harg
    | _ => cases harg

/-- Flags with different letters set different fields. -/
theorem set_comm {flag' : MetaFlag} (hne : flag.letter ≠ flag'.letter) (m : MetaCommand) :
    set (set m flag) flag' = set (set m flag') flag := by
  cases flag <;> cases flag' <;> first | rfl | exact absurd rfl hne

/-- A token that `parse_meta` does not accept: its letter is not supported, or its argument is
bad. -/
def Bad : List UInt8 → Prop
  | [] => False
  | c :: arg =>
      c ∉ text "vfstckqFTCMO" ∨ (c = ascii 'F' ∧ BadUint 32 arg) ∨ (c = ascii 'T' ∧ BadInt64 arg) ∨
        (c = ascii 'C' ∧ BadUint 64 arg) ∨ (c = ascii 'M' ∧ arg = [])

theorem read_eq_none {c : UInt8} {arg : List UInt8} : read c arg = none ↔ Bad (c :: arg) := by
  rw [Bad]
  by_cases hc : c ∈ text "vfstckqFTCMO"
  · rw [← to_uint_eq_none, ← to_uint_eq_none, ← to_int64_eq_none]
    have hletters : text "vfstckqFTCMO" = [118, 102, 115, 116, 99, 107, 113, 70, 84, 67, 77,
        79] := by decide
    rw [hletters] at hc ⊢
    simp only [List.mem_cons, List.not_mem_nil, or_false] at hc
    rcases hc with rfl | rfl | rfl | rfl | rfl | rfl | rfl | rfl | rfl | rfl | rfl | rfl <;>
      simp +decide [read, Option.map_eq_none_iff]
  · refine ⟨fun _ => Or.inl hc, fun _ => ?_⟩
    have hne : ∀ d ∈ text "vfstckqFTCMO", c ≠ d := fun d hd heq => hc (heq ▸ hd)
    unfold read
    iterate 12 rw [if_neg (hne _ (by decide))]

end MetaFlag

/-! ## Lines -/

/-- The next token, unless one has been rejected. -/
def MetaFlag.step (m : Option MetaCommand) : List UInt8 → Option MetaCommand
  | [] => m
  | c :: arg => m.bind fun m => parseMetaFlag m c arg

theorem foldl_step_none (tokens : List (List UInt8)) : tokens.foldl MetaFlag.step none = none := by
  induction tokens with
  | nil => rfl
  | cons t rest ih => cases t <;> exact ih

variable {tokens : List (List UInt8)}

theorem parse_meta_flags_eq (hne : [] ∉ tokens) (m : MetaCommand) :
    parseMetaFlags tokens m = tokens.foldl MetaFlag.step (some m) := by
  induction tokens generalizing m with
  | nil => rfl
  | cons t rest ih =>
      rw [List.mem_cons, not_or] at hne
      cases t with
      | nil => exact absurd rfl hne.1
      | cons c arg =>
          rw [parseMetaFlags, List.foldl_cons, MetaFlag.step, Option.bind_some]
          cases parseMetaFlag m c arg with
          | none => exact (foldl_step_none rest).symm
          | some m' => exact ih hne.2 m'

theorem MetaFlag.step_comm {t t' : List UInt8} (hne : t.head? ≠ t'.head?) (m : Option MetaCommand) :
    step (step m t) t' = step (step m t') t := by
  cases t with
  | nil => rfl
  | cons c arg =>
      cases t' with
      | nil => rfl
      | cons c' arg' =>
          cases m with
          | none => rfl
          | some m =>
              simp only [step, Option.bind_some, parse_meta_flag_eq]
              cases hread : read c arg with
              | none => cases read c' arg' <;> rfl
              | some flag =>
                  cases hread' : read c' arg' with
                  | none => rfl
                  | some flag' =>
                      refine congrArg some (set_comm ?_ m)
                      rw [read_letter hread, read_letter hread']
                      exact fun heq => hne (congrArg some heq)

/-- Flags with distinct letters are parsed in any order. -/
theorem parse_meta_flags_perm {tokens' : List (List UInt8)} (hne : [] ∉ tokens)
    (hperm : tokens.Perm tokens') (hletters : (tokens.map List.head?).Nodup) (m : MetaCommand) :
    parseMetaFlags tokens m = parseMetaFlags tokens' m := by
  rw [parse_meta_flags_eq hne, parse_meta_flags_eq fun hmem => hne (hperm.mem_iff.2 hmem)]
  refine hperm.foldl_eq' (fun t ht t' ht' m => ?_) (some m)
  by_cases heq : t = t'
  · rw [heq]
  · exact MetaFlag.step_comm (fun hhead => heq (List.inj_on_of_nodup_map hletters ht ht' hhead)) m

theorem parse_meta_flags_none (hne : [] ∉ tokens) (m : MetaCommand) :
    parseMetaFlags tokens m = none ↔ ∃ t ∈ tokens, MetaFlag.Bad t := by
  induction tokens generalizing m with
  | nil => simp [parseMetaFlags]
  | cons t rest ih =>
      rw [List.mem_cons, not_or] at hne
      cases t with
      | nil => exact absurd rfl hne.1
      | cons c arg =>
          simp only [parseMetaFlags, MetaFlag.parse_meta_flag_eq, List.mem_cons, exists_eq_or_imp,
            ← MetaFlag.read_eq_none]
          cases MetaFlag.read c arg with
          | none => simp
          | some flag => simpa using ih hne.2 _

/-- The first token of a meta command. -/
def MetaVerb.word : MetaVerb → List UInt8
  | .mn => text "mn"
  | .mg => text "mg"
  | .ms => text "ms"
  | .md => text "md"

/-- How many tokens precede the flags. -/
def MetaVerb.leading (verb : MetaVerb) : Nat := if verb = .ms then 3 else 2

/-- The tokens after the key and the data length. -/
def flagTokens (verb : MetaVerb) (line : List UInt8) : List (List UInt8) :=
  (words line).drop verb.leading

/-- The token after the key; empty at the end of the line. -/
def datalenToken (line : List UInt8) : List UInt8 := (words line).getD 2 []

/-- The command that the leading tokens stand for. -/
def metaStart (verb : MetaVerb) : List (List UInt8) → Option MetaCommand
  | [_, key] => if verb = .ms then none else some (.start verb key 0)
  | [_, key, datalen] => if verb = .ms then (toUint 64 datalen).map (.start verb key) else none
  | _ => none

theorem nil_notMem_words (line : List UInt8) :
    [] ∉ words line := fun h => by simpa using (List.mem_filter.1 h).2

theorem nil_notMem_flag_tokens (verb : MetaVerb) (line : List UInt8) : [] ∉ flagTokens verb line :=
  fun h => nil_notMem_words line (List.mem_of_mem_drop h)

/-- The leading tokens, and then the flags. -/
theorem parse_meta_tokens {verb : MetaVerb} (hverb : verb ≠ .mn)
    (hhead : (words line).head? = some verb.word) :
    parseMeta line = (metaStart verb ((words line).take verb.leading)).bind
      (parseMetaFlags (flagTokens verb line)) := by
  unfold parseMeta flagTokens
  cases hwords : words line with
  | nil =>
      rw [hwords] at hhead
      cases hhead
  | cons v args =>
      rw [hwords] at hhead
      cases hhead
      cases verb with
      | mn => exact absurd rfl hverb
      | mg =>
          cases args with
          | nil => rfl
          | cons key rest => rfl
      | md =>
          cases args with
          | nil => rfl
          | cons key rest => rfl
      | ms =>
          cases args with
          | nil => rfl
          | cons key rest =>
              cases rest with
              | nil => rfl
              | cons datalen rest =>
                  show (toUint 64 datalen).bind _ = ((toUint 64 datalen).map _).bind _
                  rw [Option.bind_map]
                  rfl

/-- A line is rejected exactly if it has no key, or a bad data length, or a bad flag. -/
theorem parse_meta_none {verb : MetaVerb} (hverb : verb ≠ .mn)
    (hhead : (words line).head? = some verb.word) :
    parseMeta line = none ↔ (words line).length < 2 ∨
      (verb = .ms ∧ BadUint 64 (datalenToken line)) ∨
      ∃ t ∈ flagTokens verb line, MetaFlag.Bad t := by
  have hstart : metaStart verb ((words line).take verb.leading) = none ↔
      (words line).length < 2 ∨ (verb = .ms ∧ BadUint 64 (datalenToken line)) := by
    rw [← to_uint_eq_none]
    unfold datalenToken MetaVerb.leading
    match words line with
    | [] => simp [metaStart]
    | [v] => split <;> simp [metaStart]
    | [v, key] => by_cases hms : verb = .ms <;> simp [metaStart, hms, toUint, digits]
    | v :: key :: datalen :: rest =>
        have hlength : ¬ rest.length + 1 + 1 + 1 < 2 := by omega
        by_cases hms : verb = .ms <;> simp [metaStart, hms, hlength]
  rw [parse_meta_tokens hverb hhead, ← or_assoc, ← hstart]
  cases metaStart verb ((words line).take verb.leading) with
  | none => simp
  | some m => simpa using parse_meta_flags_none (nil_notMem_flag_tokens verb line) m

/-! ## Commands -/

namespace MetaCommand

/-- The flags a command can have, each with whether it has it. A mode and a token that are as
without their flags may still have been given. -/
def candidates (m : MetaCommand) (givenMode givenToken : Bool) : List (Bool × MetaFlag) :=
  [(m.rfValue, .value), (m.rfFlags, .flags), (m.rfSize, .size), (m.rfTtl, .ttl), (m.rfCas, .cas),
    (m.rfKey, .key), (m.quiet, .quiet), (m.hasSetFlags, .setFlags m.setFlags),
    (m.ttl.isSome, .setTtl (m.ttl.getD 0)), (m.cas.isSome, .compareCas (m.cas.getD 0)),
    (givenMode || m.mode ≠ ascii 'S', .mode m.mode),
    (givenToken || m.opaqueToken ≠ [], .opaqueToken m.opaqueToken)]

/-- The flags of a command. -/
def flags (m : MetaCommand) (givenMode givenToken : Bool) : List MetaFlag :=
  ((m.candidates givenMode givenToken).filter Prod.fst).map Prod.snd

/-- The tokens before the flags. -/
def heading (m : MetaCommand) : List (List UInt8) :=
  m.verb.word :: m.key :: if m.verb = .ms then [decimal m.datalen] else []

/-- An `mg`, `ms` or `md` as `parse_meta` makes them: fields without their flag have their initial
values, and numbers fit their fields. -/
structure Renderable (m : MetaCommand) : Prop where
  verb : m.verb ≠ .mn
  key : IsWord m.key
  datalen : m.datalen < 2 ^ 64
  no_datalen : m.verb ≠ .ms → m.datalen = 0
  set_flags : m.setFlags < 2 ^ 32
  no_set_flags : m.hasSetFlags = false → m.setFlags = 0
  ttl : ∀ n, m.ttl = some n → -2 ^ 63 ≤ n ∧ n < 2 ^ 63
  cas : ∀ n, m.cas = some n → n < 2 ^ 64
  mode : m.mode ≠ ascii ' '
  token : ascii ' ' ∉ m.opaqueToken

variable {m : MetaCommand} {givenMode givenToken : Bool}

theorem flag_letters : ((m.flags givenMode givenToken).map MetaFlag.letter).Nodup := by
  have hall : ((m.candidates givenMode givenToken).map fun c => c.2.letter) =
    text "vfstckqFTCMO" := rfl
  have hsub := (List.filter_sublist (p := Prod.fst) (l := m.candidates givenMode givenToken)).map
    fun c => c.2.letter
  rw [hall] at hsub
  rw [flags, List.map_map]
  exact hsub.nodup (by decide)

/-- A choice between two commands is a choice for each field. -/
theorem ite_eq_mk {p : Prop} [Decidable p] (m m' : MetaCommand) :
    (if p then m else m') =
      ⟨if p then m.verb else m'.verb, if p then m.key else m'.key,
      if p then m.datalen else m'.datalen,
        if p then m.rfValue else m'.rfValue, if p then m.rfFlags else m'.rfFlags,
        if p then m.rfSize else m'.rfSize,
        if p then m.rfTtl else m'.rfTtl, if p then m.rfCas else m'.rfCas,
        if p then m.rfKey else m'.rfKey,
        if p then m.quiet else m'.quiet, if p then m.hasSetFlags else m'.hasSetFlags,
        if p then m.setFlags else m'.setFlags, if p then m.ttl else m'.ttl,
        if p then m.cas else m'.cas,
        if p then m.mode else m'.mode, if p then m.opaqueToken else m'.opaqueToken⟩ := by
  split <;> rfl

/-- The flags of a command set its fields. -/
theorem foldl_flags (h : m.Renderable) :
    (m.flags givenMode givenToken).foldl MetaFlag.set (.start m.verb m.key m.datalen) = m := by
  have hbool : ∀ b : Bool, (if b = true then true else false) = b := by decide
  rw [flags, List.foldl_map, List.foldl_filter, candidates]
  simp only [List.foldl_cons, List.foldl_nil, MetaFlag.set, MetaCommand.start,
    ite_eq_mk, ite_self, hbool]
  ext1
  case setFlags => exact ite_eq_left_iff.2 fun hgiven =>
    (h.no_set_flags (Bool.eq_false_iff.2 hgiven)).symm
  case ttl => cases m.ttl <;> rfl
  case cas => cases m.cas <;> rfl
  case mode =>
    refine ite_eq_left_iff.2 fun hgiven => ?_
    simp only [Bool.or_eq_true, decide_eq_true_eq, not_or, not_not] at hgiven
    exact hgiven.2.symm
  case opaqueToken =>
    refine ite_eq_left_iff.2 fun hgiven => ?_
    simp only [Bool.or_eq_true, decide_eq_true_eq, not_or, not_not] at hgiven
    exact hgiven.2.symm
  all_goals rfl

theorem flags_representable (h : m.Renderable) {flag : MetaFlag}
    (hmem : flag ∈ m.flags givenMode givenToken) :
    flag.Representable := by
  obtain ⟨c, hc, rfl⟩ := List.mem_map.1 hmem
  obtain ⟨hmem, hgiven⟩ := List.mem_filter.1 hc
  simp only [candidates, List.mem_cons, List.not_mem_nil, or_false] at hmem
  rcases hmem with rfl | rfl | rfl | rfl | rfl | rfl | rfl | rfl | rfl | rfl | rfl | rfl <;>
    try trivial
  · exact h.set_flags
  · obtain ⟨n, hn⟩ := Option.isSome_iff_exists.1 hgiven
    exact h.ttl _ (by rw [hn, Option.getD_some])
  · obtain ⟨n, hn⟩ := Option.isSome_iff_exists.1 hgiven
    exact h.cas _ (by rw [hn, Option.getD_some])
  · exact h.mode
  · exact h.token

theorem heading_start (h : m.Renderable) :
    metaStart m.verb m.heading = some (.start m.verb m.key m.datalen) := by
  unfold heading
  by_cases hms : m.verb = .ms
  · rw [if_pos hms, metaStart, if_pos hms, to_uint_decimal h.datalen, Option.map_some]
  · rw [if_neg hms, metaStart, if_neg hms, h.no_datalen hms]

theorem heading_length (m : MetaCommand) : m.heading.length = m.verb.leading := by
  unfold heading MetaVerb.leading
  split <;> rfl

theorem heading_words (h : m.Renderable) : ∀ w ∈ m.heading, IsWord w := by
  have hverb : IsWord m.verb.word := by
    cases m.verb <;> exact ⟨by decide, by decide⟩
  have hdatalen : IsWord (decimal m.datalen) :=
    ⟨decimal_ne_nil _, fun hmem => absurd (mem_decimal hmem) (by decide)⟩
  intro w hw
  unfold heading at hw
  rcases List.mem_cons.1 hw with rfl | hw
  · exact hverb
  rcases List.mem_cons.1 hw with rfl | hw
  · exact h.key
  split at hw
  · cases List.mem_singleton.1 hw
    exact hdatalen
  · cases hw

end MetaCommand

/-- Flags are set one after the other. -/
theorem parse_meta_flags_tokens {flags : List MetaFlag}
    (hflags : ∀ flag ∈ flags, flag.Representable) (m : MetaCommand) :
    parseMetaFlags (flags.map MetaFlag.token) m = some (flags.foldl MetaFlag.set m) := by
  induction flags generalizing m with
  | nil => rfl
  | cons flag rest ih =>
      rw [List.map_cons, MetaFlag.token, parseMetaFlags, MetaFlag.parse_meta_flag_eq,
        MetaFlag.read_token (hflags flag List.mem_cons_self), Option.map_some, Option.bind_some,
        ih (fun flag' h => hflags flag' (List.mem_cons_of_mem flag h)), List.foldl_cons]

/-- Rendering a command, with its flags in any order and any blanks between the tokens, and parsing
the line gives the command back; the order of flag tokens with distinct letters does not matter; and
a line is rejected exactly if it has no key, a bad data length or a bad flag. -/
theorem parse_meta_lines :
    (∀ (m : MetaCommand) (givenMode givenToken : Bool) (flags : List MetaFlag) (gap : Nat → Nat),
      m.Renderable → flags.Perm (m.flags givenMode givenToken) →
      parseMeta (spaced gap (m.heading ++ flags.map MetaFlag.token)) = some m) ∧
    (∀ (verb : MetaVerb) (line line' : List UInt8), verb ≠ .mn →
      (words line).head? = some verb.word →
      (words line').take verb.leading = (words line).take verb.leading →
      (flagTokens verb line).Perm (flagTokens verb line') →
      ((flagTokens verb line).map List.head?).Nodup →
      parseMeta line' = parseMeta line) ∧
    ∀ (verb : MetaVerb) (line : List UInt8), verb ≠ .mn → (words line).head? = some verb.word →
      (parseMeta line = none ↔
        (words line).length < 2 ∨ (verb = .ms ∧ BadUint 64 (datalenToken line)) ∨
          ∃ t ∈ flagTokens verb line, MetaFlag.Bad t) := by
  refine ⟨fun m givenMode givenToken flags gap hm hperm => ?_,
    fun verb line line' hverb hhead htake hperm hletters => ?_, fun verb line hverb hhead =>
    parse_meta_none hverb hhead⟩
  · have hflags : ∀ flag ∈ flags, flag.Representable := fun flag hmem =>
      MetaCommand.flags_representable hm (hperm.mem_iff.1 hmem)
    have hwords : words (spaced gap (m.heading ++ flags.map MetaFlag.token)) =
        m.heading ++ flags.map MetaFlag.token := by
      refine words_spaced gap fun w hw => ?_
      rcases List.mem_append.1 hw with hw | hw
      · exact MetaCommand.heading_words hm w hw
      · obtain ⟨flag, hmem, rfl⟩ := List.mem_map.1 hw
        exact MetaFlag.token_is_word (hflags flag hmem)
    have hset : flags.foldl MetaFlag.set (.start m.verb m.key m.datalen) = m := by
      rw [hperm.foldl_eq' (fun flag hmem flag' hmem' m => ?_), MetaCommand.foldl_flags hm]
      by_cases heq : flag = flag'
      · rw [heq]
      · exact MetaFlag.set_comm (fun hletter =>
          heq (List.inj_on_of_nodup_map MetaCommand.flag_letters
          (hperm.mem_iff.1 hmem) (hperm.mem_iff.1 hmem') hletter)) m
    rw [parse_meta_tokens hm.verb (by rw [hwords]; rfl), flagTokens, hwords,
      List.take_left' m.heading_length, List.drop_left' m.heading_length,
      MetaCommand.heading_start hm, Option.bind_some, parse_meta_flags_tokens hflags, hset]
  · have hhead' : (words line').head? = some verb.word := by
      have hfirst := congrArg List.head? htake
      have hpos : verb.leading ≠ 0 := by
        unfold MetaVerb.leading
        split <;> decide
      rw [List.head?_take, List.head?_take, if_neg hpos, if_neg hpos, hhead] at hfirst
      exact hfirst
    rw [parse_meta_tokens hverb hhead', parse_meta_tokens hverb hhead, htake]
    cases metaStart verb ((words line).take verb.leading) with
    | none => rfl
    | some m =>
        exact (parse_meta_flags_perm (nil_notMem_flag_tokens verb line) hperm hletters m).symm

/-- An `ms` with four flags. -/
def addFor : MetaCommand :=
  { MetaCommand.start .ms (text "k") 5 with
    quiet := true, ttl := some (-1), mode := ascii 'E', opaqueToken := text "x" }

theorem parse_meta_lines_add :
    addFor.Renderable ∧
      parseMeta (spaced (fun i => i) (addFor.heading ++ [MetaFlag.opaqueToken (text "x"),
        .mode (ascii 'E'), .quiet, .setTtl (-1)].map MetaFlag.token)) = some addFor := by
  have hrenderable : addFor.Renderable := by
    refine ⟨by decide, ⟨by decide, by decide⟩, by decide, by decide, by decide, by decide, ?_,
      ?_, by decide, by decide⟩
    · intro n hn
      cases hn
      decide
    · intro n hn
      cases hn
  exact ⟨hrenderable, parse_meta_lines.1 addFor false false _ (fun i => i) hrenderable
    (by decide +kernel)⟩

end GoblinStore.Memcache
