import GoblinStore.Memcache.MetaLines

/-!
# Classic command lines

`parse_command` collects at most seven tokens of a line with a cursor (`tokens`); these are the
first words of the line (`tokens_eq`). `Grammar` lists the commands over the words of the whole
line. The parser accepts exactly these (`parse_command_iff`), does not see how many blanks there
are, and reads back what `Command.render` writes.
-/

namespace GoblinStore.Memcache

open GoblinStore.Lib

/-! ## Tokens -/

/-- The loop of `parse_command` that fills an array of `n` tokens. -/
def tokens : Nat → List UInt8 → List (List UInt8)
  | 0, _ => []
  | n + 1, line =>
      match next line with
      | ([], _) => []
      | (token, rest) => token :: tokens n rest

/-- The tokens are the first words of the line. -/
theorem tokens_eq (n : Nat) (line : List UInt8) : tokens n line = (words line).take n := by
  induction n generalizing line with
  | zero => rfl
  | succ n ih =>
      rw [tokens]
      split
      · rename_i heq
        rw [words_of_next_nil (congrArg Prod.fst heq), List.take_nil]
      · rename_i token rest hne heq
        have htoken : (next line).1 ≠ [] := by
          rw [heq]
          exact hne
        rw [words_of_next htoken, List.take_succ_cons, heq, ih]

/-! ## The grammar -/

/-- The word of a verb. -/
def Verb.word : Verb → List UInt8
  | .get => text "get"
  | .gets => text "gets"
  | .set => text "set"
  | .add => text "add"
  | .replace => text "replace"
  | .cas => text "cas"
  | .del => text "delete"
  | .version => text "version"
  | .quit => text "quit"
  | .stats => text "stats"
  | .unknown => []

/-- The word `noreply` stands here. -/
def noreplyAt (rest : List (List UInt8)) : Bool := rest.head? = some (text "noreply")

/-- The words of a line are this command. What follows is not looked at. -/
inductive Grammar : List (List UInt8) → Command → Prop where
  | retrieval {verb : Verb} {key : List UInt8} {rest : List (List UInt8)} : verb = .get ∨
      verb = .gets →
      Grammar (verb.word :: key :: rest) ⟨verb, key, 0, 0, 0, 0, false⟩
  | delete {key : List UInt8} {rest : List (List UInt8)} :
      Grammar (Verb.del.word :: key :: rest) ⟨.del, key, 0, 0, 0, 0, noreplyAt rest⟩
  | storage {verb : Verb} {key flags exptime bytes : List UInt8} {rest : List (List UInt8)}
      {f e b : Nat} :
      verb = .set ∨ verb = .add ∨ verb = .replace →
      IsNumeral 32 flags f → IsNumeral 32 exptime e → IsNumeral 64 bytes b →
      Grammar (verb.word :: key :: flags :: exptime :: bytes :: rest)
      ⟨verb, key, f, e, b, 0, noreplyAt rest⟩
  | cas {key flags exptime bytes unique : List UInt8} {rest : List (List UInt8)} {f e b u : Nat} :
      IsNumeral 32 flags f → IsNumeral 32 exptime e → IsNumeral 64 bytes b → IsNumeral 64 unique u →
      Grammar (Verb.cas.word :: key :: flags :: exptime :: bytes :: unique :: rest)
        ⟨.cas, key, f, e, b, u, noreplyAt rest⟩
  | bare {verb : Verb} {rest : List (List UInt8)} : verb = .version ∨ verb = .quit ∨ verb = .stats →
      Grammar (verb.word :: rest) ⟨verb, [], 0, 0, 0, 0, false⟩

variable {verb : Verb}

/-- Only the word of a verb is read as it. -/
theorem eq_word_of_verb {t : List UInt8} (h : verbOf t = verb) (hknown : verb ≠ .unknown) :
    t = verb.word := by
  have hcase : ∀ {w : List UInt8} {v others : Verb}, (if t = w then v else others) = verb →
      v.word = w → t = verb.word ∨ others = verb := by
    intro w v others hif hword
    by_cases heq : t = w
    · rw [if_pos heq] at hif
      exact Or.inl (by rw [← hif, heq, hword])
    · rw [if_neg heq] at hif
      exact Or.inr hif
  iterate 10
    rcases hcase h rfl with heq | h
    · exact heq
  exact absurd h.symm hknown

/-! ## What the parser accepts -/

/-- `parse_command` after its tokens have been collected. -/
def parseTokens : List (List UInt8) → Option Command
  | [] => none
  | verb :: args =>
      match verbOf verb, args with
      | .get, key :: _ => some ⟨.get, key, 0, 0, 0, 0, false⟩
      | .gets, key :: _ => some ⟨.gets, key, 0, 0, 0, 0, false⟩
      | .del, key :: rest => some ⟨.del, key, 0, 0, 0, 0, noreplyAt rest⟩
      | .cas, key :: flags :: exptime :: bytes :: cas :: rest =>
          (toUint 64 cas).bind fun cas =>
            parseStorage .cas key flags exptime bytes cas (noreplyAt rest)
      | .set, key :: flags :: exptime :: bytes :: rest =>
          parseStorage .set key flags exptime bytes 0 (noreplyAt rest)
      | .add, key :: flags :: exptime :: bytes :: rest =>
          parseStorage .add key flags exptime bytes 0 (noreplyAt rest)
      | .replace, key :: flags :: exptime :: bytes :: rest =>
          parseStorage .replace key flags exptime bytes 0 (noreplyAt rest)
      | .version, _ => some ⟨.version, [], 0, 0, 0, 0, false⟩
      | .quit, _ => some ⟨.quit, [], 0, 0, 0, 0, false⟩
      | .stats, _ => some ⟨.stats, [], 0, 0, 0, 0, false⟩
      | _, _ => none

theorem parse_command_eq (line : List UInt8) : parseCommand line = parseTokens (tokens 7 line) := by
  rw [tokens_eq]
  unfold parseCommand parseTokens
  rfl

variable {c : Command}

theorem parse_storage_iff {key flags exptime bytes : List UInt8} {cas : Nat} {noreply : Bool} :
    parseStorage verb key flags exptime bytes cas noreply = some c ↔
      ∃ f e b, IsNumeral 32 flags f ∧ IsNumeral 32 exptime e ∧ IsNumeral 64 bytes b ∧
        c = ⟨verb, key, f, e, b, cas, noreply⟩ := by
  unfold parseStorage
  constructor
  · intro h
    split at h
    · rename_i f e b hf he hb
      cases h
      exact ⟨f, e, b, to_uint_eq_some.1 hf, to_uint_eq_some.1 he, to_uint_eq_some.1 hb, rfl⟩
    · cases h
  · rintro ⟨f, e, b, hf, he, hb, rfl⟩
    rw [to_uint_eq_some.2 hf, to_uint_eq_some.2 he, to_uint_eq_some.2 hb]

variable {toks : List (List UInt8)}

/-- The tokens that are accepted are those of the grammar. -/
theorem parse_tokens_iff : parseTokens toks = some c ↔ Grammar toks c := by
  constructor
  · intro h
    cases toks with
    | nil => cases h
    | cons t args =>
        have hword : ∀ {verb : Verb}, verbOf t = verb → verb ≠ .unknown →
            t = verb.word := eq_word_of_verb
        simp only [parseTokens] at h
        split at h
        · rename_i hverb
          cases h
          rw [hword hverb (by decide)]
          exact .retrieval (Or.inl rfl)
        · rename_i hverb
          cases h
          rw [hword hverb (by decide)]
          exact .retrieval (Or.inr rfl)
        · rename_i hverb
          cases h
          rw [hword hverb (by decide)]
          exact .delete
        · rename_i hverb
          obtain ⟨u, hu, hstorage⟩ := Option.bind_eq_some_iff.1 h
          obtain ⟨f, e, b, hf, he, hb, rfl⟩ := parse_storage_iff.1 hstorage
          rw [hword hverb (by decide)]
          exact .cas hf he hb (to_uint_eq_some.1 hu)
        · rename_i hverb
          obtain ⟨f, e, b, hf, he, hb, rfl⟩ := parse_storage_iff.1 h
          rw [hword hverb (by decide)]
          exact .storage (Or.inl rfl) hf he hb
        · rename_i hverb
          obtain ⟨f, e, b, hf, he, hb, rfl⟩ := parse_storage_iff.1 h
          rw [hword hverb (by decide)]
          exact .storage (Or.inr (Or.inl rfl)) hf he hb
        · rename_i hverb
          obtain ⟨f, e, b, hf, he, hb, rfl⟩ := parse_storage_iff.1 h
          rw [hword hverb (by decide)]
          exact .storage (Or.inr (Or.inr rfl)) hf he hb
        · rename_i hverb
          cases h
          rw [hword hverb (by decide)]
          exact .bare (Or.inl rfl)
        · rename_i hverb
          cases h
          rw [hword hverb (by decide)]
          exact .bare (Or.inr (Or.inl rfl))
        · rename_i hverb
          cases h
          rw [hword hverb (by decide)]
          exact .bare (Or.inr (Or.inr rfl))
        · cases h
  · intro h
    cases h with
    | retrieval hverb =>
        rcases hverb with rfl | rfl
        · rfl
        · rfl
    | delete => rfl
    | storage hverb hf he hb =>
        rcases hverb with rfl | rfl | rfl <;>
          exact parse_storage_iff.2 ⟨_, _, _, hf, he, hb, rfl⟩
    | cas hf he hb hu =>
        show (toUint 64 _).bind _ = _
        rw [to_uint_eq_some.2 hu]
        exact parse_storage_iff.2 ⟨_, _, _, hf, he, hb, rfl⟩
    | bare hverb =>
        rcases hverb with rfl | rfl | rfl
        · rfl
        · rfl
        · rfl

/-- No token after the seventh is looked at. -/
theorem parse_tokens_take (toks : List (List UInt8)) :
    parseTokens (toks.take 7) = parseTokens toks := by
  rcases toks with _ | ⟨t0, _ | ⟨t1, _ | ⟨t2, _ | ⟨t3, _ | ⟨t4, _ | ⟨t5, _ | ⟨t6, rest⟩⟩⟩⟩⟩⟩⟩ <;>
    try rfl
  simp only [List.take_succ_cons, List.take_zero, parseTokens]
  cases verbOf t0 <;> rfl

variable {line : List UInt8}

/-- `parse_command` accepts exactly its grammar. -/
theorem parse_command_iff : parseCommand line = some c ↔ Grammar (words line) c := by
  rw [parse_command_eq, tokens_eq, parse_tokens_take, parse_tokens_iff]

/-! ## Rendering -/

namespace Command

/-- The words of a command. -/
def words (c : Command) : List (List UInt8) :=
  let noreply := if c.noreply then [text "noreply"] else []
  let numbers := [decimal c.flags, decimal c.exptime, decimal c.bytes]
  match c.verb with
  | .get | .gets => [c.verb.word, c.key]
  | .del => [c.verb.word, c.key] ++ noreply
  | .set | .add | .replace => [c.verb.word, c.key] ++ numbers ++ noreply
  | .cas => [c.verb.word, c.key] ++ numbers ++ [decimal c.cas] ++ noreply
  | .version | .quit | .stats | .unknown => [c.verb.word]

/-- The words of a command with this many blanks between them. -/
def render (c : Command) (gap : Nat → Nat) : List UInt8 := spaced gap c.words

end Command

theorem noreply_at_words (noreply : Bool) :
    noreplyAt (if noreply then [text "noreply"] else []) = noreply := by
  cases noreply <;> decide

/-- The words of a command are that command. -/
theorem Grammar.words (h : Grammar toks c) : Grammar c.words c := by
  cases h with
  | retrieval hverb =>
      rcases hverb with rfl | rfl
      · exact .retrieval (Or.inl rfl)
      · exact .retrieval (Or.inr rfl)
  | @delete key rest =>
      have hself := @Grammar.delete key (if noreplyAt rest then [text "noreply"] else [])
      rw [noreply_at_words] at hself
      exact hself
  | @storage verb key _ _ _ rest f e b hverb hf he hb =>
      have hself := @Grammar.storage verb key _ _ _
        (if noreplyAt rest then [text "noreply"] else []) f e b hverb
        hf.decimal he.decimal hb.decimal
      rw [noreply_at_words] at hself
      rcases hverb with rfl | rfl | rfl <;> exact hself
  | @cas key _ _ _ _ rest f e b u hf he hb hu =>
      have hself := @Grammar.cas key _ _ _ _
        (if noreplyAt rest then [text "noreply"] else []) f e b u
        hf.decimal he.decimal hb.decimal hu.decimal
      rw [noreply_at_words] at hself
      exact hself
  | bare hverb =>
      rcases hverb with rfl | rfl | rfl
      · exact .bare (Or.inl rfl)
      · exact .bare (Or.inr (Or.inl rfl))
      · exact .bare (Or.inr (Or.inr rfl))

theorem Verb.word_is_word (h : verb ≠ .unknown) : IsWord verb.word := by
  revert h
  unfold IsWord
  cases verb <;> decide

/-- The words of a command that was read from a line have no blanks. -/
theorem Grammar.is_word (h : Grammar toks c) (htoks : ∀ w ∈ toks, IsWord w) :
    ∀ w ∈ c.words, IsWord w := by
  have hnoreply : ∀ noreply : Bool, ∀ w ∈ (if noreply then [text "noreply"] else []), IsWord w := by
    intro noreply
    unfold IsWord
    cases noreply <;> decide
  have hbare : ∀ verb : Verb, verb ≠ .unknown → ∀ w ∈ [verb.word], IsWord w := by
    intro verb hverb w hw
    rw [List.mem_singleton.1 hw]
    exact Verb.word_is_word hverb
  have hkeyed : ∀ (verb : Verb) (key : List UInt8), verb ≠ .unknown → key ∈ toks →
      ∀ w ∈ [verb.word, key], IsWord w := by
    intro verb key hverb hkey w hw
    rcases List.mem_cons.1 hw with rfl | hw
    · exact Verb.word_is_word hverb
    · rw [List.mem_singleton.1 hw]
      exact htoks key hkey
  have hnumbers : ∀ ns : List Nat, ∀ w ∈ ns.map decimal, IsWord w := by
    intro ns w hw
    obtain ⟨n, -, rfl⟩ := List.mem_map.1 hw
    exact decimal_is_word n
  cases h with
  | @retrieval verb key rest hverb =>
      rcases hverb with rfl | rfl
      · exact hkeyed .get key (by decide) (by simp)
      · exact hkeyed .gets key (by decide) (by simp)
  | @delete key rest =>
      exact List.forall_mem_append.2 ⟨hkeyed .del key (by decide) (by simp), hnoreply _⟩
  | @storage verb key _ _ _ rest f e b hverb =>
      have hall : verb ≠ .unknown → ∀ w ∈ [verb.word, key] ++ [decimal f, decimal e, decimal b] ++
          (if noreplyAt rest then [text "noreply"] else []), IsWord w := fun hknown =>
        List.forall_mem_append.2 ⟨List.forall_mem_append.2
          ⟨hkeyed verb key hknown (by simp), hnumbers [f, e, b]⟩,
          hnoreply _⟩
      rcases hverb with rfl | rfl | rfl
      · exact hall (by decide)
      · exact hall (by decide)
      · exact hall (by decide)
  | @cas key _ _ _ _ rest f e b u =>
      refine List.forall_mem_append.2
        ⟨List.forall_mem_append.2 ⟨List.forall_mem_append.2 ⟨?_, ?_⟩, ?_⟩, hnoreply _⟩
      · exact hkeyed .cas key (by decide) (by simp)
      · exact hnumbers [f, e, b]
      · exact hnumbers [u]
  | bare hverb =>
      rcases hverb with rfl | rfl | rfl
      · exact hbare .version (by decide)
      · exact hbare .quit (by decide)
      · exact hbare .stats (by decide)

/-- A rendered command is read back. -/
theorem parse_render (h : parseCommand line = some c) (gap : Nat → Nat) :
    parseCommand (c.render gap) = some c := by
  have hgrammar := parse_command_iff.1 h
  rw [parse_command_iff, Command.render,
    words_spaced gap (hgrammar.is_word fun w hw => is_word_of_mem hw)]
  exact hgrammar.words

/-! ## Blanks -/

theorem words_run (before rest : List UInt8) (n : Nat) :
    words (before ++ (List.replicate (n + 1) (ascii ' ') ++ rest)) =
      words before ++ words rest := by
  rw [List.replicate_succ, List.cons_append, words_append, words_blanks]

theorem parse_command_congr {line' : List UInt8} (h : words line = words line') :
    parseCommand line = parseCommand line' := by
  rw [parse_command_eq, parse_command_eq, tokens_eq, tokens_eq, h]

/-- `parse_command` accepts exactly its grammar, whatever the blanks, and reads back a rendered
command. -/
theorem parse_command_exact (line : List UInt8) :
    (∀ c, parseCommand line = some c ↔ Grammar (words line) c) ∧
      parseCommand line = parseTokens (tokens 7 line) ∧
      (∀ before rest m n, line = before ++ (List.replicate (m + 1) (ascii ' ') ++ rest) →
        parseCommand (before ++ (List.replicate (n + 1) (ascii ' ') ++ rest)) = parseCommand line) ∧
      (∀ n, parseCommand (List.replicate n (ascii ' ') ++ line) = parseCommand line ∧
        parseCommand (line ++ List.replicate n (ascii ' ')) = parseCommand line) ∧
      ∀ c gap, parseCommand line = some c → parseCommand (c.render gap) = some c := by
  refine ⟨fun c => parse_command_iff, parse_command_eq line, ?_, fun n => ⟨?_, ?_⟩,
    fun c gap h => parse_render h gap⟩
  · rintro before rest m n rfl
    exact parse_command_congr (by rw [words_run, words_run])
  · exact parse_command_congr (words_blanks n line)
  · refine parse_command_congr ?_
    cases n with
    | zero => rw [List.replicate_zero, List.append_nil]
    | succ n =>
        have hrun := words_run line [] n
        rw [List.append_nil, words_nil, List.append_nil] at hrun
        exact hrun

example :
    parseCommand (text " set  k 7 0 5 noreply ") = some ⟨.set, text "k", 7, 0, 5, 0, true⟩ := by
  decide

end GoblinStore.Memcache
