import GoblinStore.Storage.History
import GoblinStore.Storage.ScratchFiles

/-!
# Compare-and-swap

Each commit takes the next etag under the storage lock and checks the expected one against the
indexed version under the same lock. `Etags` says that indexed etags were given out and are
unique; `Spent` says that no indexed version carries an etag any more, which a commit that expected
it brings about and no later step undoes.

`touch_ttl` takes no lock: `LockStep` takes a commit apart into the check and the set, between which
it and the other steps without the lock can come. A cas whose key is not touched there is
linearizable (`cas_linearizable`), one that is touched loses the touch
(`touch_between_check_and_set`).
-/

namespace GoblinStore

open GoblinStore.Lib GoblinStore.Core Pool

/-- The number of commits in a history. -/
def commits : List Event → Nat
  | [] => 0
  | .put _ _ :: rest => commits rest + 1
  | _ :: rest => commits rest

/-- A step that commits nothing: etags are not given out, and index entries keep theirs or go. -/
structure NoCommit (σ σ' : State) : Prop where
  etagSeq : σ'.etagSeq = σ.etagSeq
  history : ∃ drops, σ'.history = drops ++ σ.history ∧ ∀ event ∈ drops, event.version = none
  index : ∀ d m', σ'.index.lookup d = some m' → ∃ m, σ.index.lookup d = some m ∧ m.etag = m'.etag

namespace NoCommit

variable {σ σ' : State}

theorem of_fading (h : Fading σ.ledger σ'.ledger) : NoCommit σ σ' where
  etagSeq := h.counters.1
  history := h.history
  index d m' hm' := by
    obtain ⟨m, hm, heq⟩ := h.entry hm'
    exact ⟨m, hm, (congrArg ObjectMeta.etag heq).symm⟩

end NoCommit

/-- The state change of a commit, before the object bound is enforced. -/
structure NewVersion (σ σ' : State) (d : Digest) (v : Version) : Prop where
  etag : v.etag = (σ.etagSeq + 1) % wrap64
  etagSeq : σ'.etagSeq = v.etag
  history : σ'.history = .put d v :: σ.history
  index : ∃ m, m.etag = v.etag ∧ σ'.index = σ.index.insert d m

section

variable {cfg : Config} {σ : State} {faults : Faults}

/-- A commit succeeds, having passed the version check, or commits nothing. -/
theorem commit_outcome (σ : State) (id flags expiry cas : Nat) (faults : Faults) :
    ((State.commit cfg σ id flags expiry cas faults).1 ≠ .ok () ∧
      NoCommit σ (State.commit cfg σ id flags expiry cas faults).2) ∨
    ∃ h v σ₁, (State.commit cfg σ id flags expiry cas faults).1 = .ok () ∧
      σ.handles.lookup id = some h ∧
      State.casMismatch (σ.index.lookup h.digest) σ.now cas = false ∧
      NewVersion σ σ₁ h.digest v ∧
      NoCommit σ₁ (State.commit cfg σ id flags expiry cas faults).2 := by
  rcases @State.commit_ledger cfg σ id flags expiry cas faults with
    ⟨hfail, heq⟩ | ⟨h, hok, hh, -, hcas, hfade⟩
  · exact Or.inl ⟨hfail, .of_fading (State.fading_of_eq heq)⟩
  · let l := σ.ledger.put h flags expiry
    let σ₁ : State := { σ with
      index := l.index, history := l.history, etagSeq := l.etagSeq, anyTtl := l.anyTtl }
    exact Or.inr ⟨h, _, σ₁, hok, hh, hcas, ⟨rfl, rfl, rfl, _, rfl, rfl⟩, .of_fading (σ := σ₁) hfade⟩

/-- The step publishes a version of the digest. -/
def Op.Publishes (cfg : Config) (σ : State) (d : Digest) : Op → Prop
  | .commit id flags expiry cas faults =>
      (State.commit cfg σ id flags expiry cas faults).1 = .ok () ∧
      ∃ h, σ.handles.lookup id = some h ∧ h.digest = d
  | _ => False

/-- A step commits nothing or one version. -/
theorem apply_commits (σ : State) (op : Op) : NoCommit σ (σ.apply cfg op) ∨
    ∃ d v σ₁, op.Publishes cfg σ d ∧ NewVersion σ σ₁ d v ∧ NoCommit σ₁ (σ.apply cfg op) := by
  rcases State.apply_ledger cfg σ op with hfade | ⟨d, m, expiry, rfl, hm, heq⟩ |
      ⟨id, flags, expiry, cas, faults, h, rfl, hok, hh, -, -⟩
  · exact Or.inl (.of_fading hfade)
  · refine Or.inl ⟨congrArg Ledger.etagSeq heq, ⟨[], congrArg Ledger.history heq, by simp⟩,
      fun e m' hm' => ?_⟩
    have hindex : (σ.apply cfg (.touchTtl d expiry)).index =
        σ.index.insert d { m with expiry := expiry } :=
      congrArg Ledger.index heq
    rw [hindex, Table.lookup_insert] at hm'
    split_ifs at hm' with he
    · cases hm'
      exact ⟨m, he ▸ hm, rfl⟩
    · exact ⟨m', hm', rfl⟩
  · rcases @commit_outcome cfg σ id flags expiry cas faults with
      ⟨hfail, -⟩ | ⟨h', v, σ₁, -, hh', -, hnew, hrest⟩
    · exact absurd hok hfail
    · exact Or.inr ⟨h'.digest, v, σ₁, ⟨hok, h', hh', rfl⟩, hnew, hrest⟩

theorem NoCommit.live {σ' : State} (h : NoCommit σ σ') (d : Digest) :
    liveVersion σ'.history d = liveVersion σ.history d ∨ liveVersion σ'.history d = none := by
  obtain ⟨drops, heq, hdrops⟩ := h.history
  rw [heq]
  clear heq
  induction drops with
  | nil => exact Or.inl rfl
  | cons event rest ih =>
      rw [List.cons_append, liveVersion]
      split_ifs
      · exact Or.inr (hdrops event List.mem_cons_self)
      · exact ih fun e he => hdrops e (List.mem_cons_of_mem _ he)

/-- A step that publishes no version of a digest keeps its version or drops it. -/
theorem apply_live {op : Op} {d : Digest} (h : ¬ op.Publishes cfg σ d) :
    liveVersion (σ.apply cfg op).history d = liveVersion σ.history d ∨
      liveVersion (σ.apply cfg op).history d = none := by
  rcases apply_commits σ op with hno | ⟨e, v, σ₁, hpub, hnew, hrest⟩
  · exact hno.live d
  · have hne : e ≠ d := by
      rintro rfl
      exact h hpub
    have hlive := hrest.live d
    rw [hnew.history, live_version_put, if_neg hne] at hlive
    exact hlive

end

/-! ## Etags over a run -/

theorem commits_drops {drops rest : List Event} (h : ∀ event ∈ drops, event.version = none) :
    commits (drops ++ rest) = commits rest := by
  induction drops with
  | nil => rfl
  | cons event more ih =>
      have hmore := ih fun e he => h e (List.mem_cons_of_mem _ he)
      have hevent := h event List.mem_cons_self
      cases event with
      | put d v => cases hevent
      | removed d => exact hmore
      | reaped d => exact hmore
      | evicted d => exact hmore

theorem NoCommit.commits_eq {σ σ' : State} (h : NoCommit σ σ') :
    commits σ'.history = commits σ.history := by
  obtain ⟨drops, heq, hdrops⟩ := h.history
  rw [heq, commits_drops hdrops]

/-- The counter is the number of commits; etags in the history and the index were given out; and no
two objects carry the same etag. -/
structure Etags (σ : State) : Prop where
  seq : σ.etagSeq = commits σ.history
  given : ∀ d v, .put d v ∈ σ.history → v.etag ≤ σ.etagSeq
  indexed : ∀ d m, σ.index.lookup d = some m → m.etag ≤ σ.etagSeq
  unique : ∀ d d' m m', σ.index.lookup d = some m → σ.index.lookup d' = some m' →
    m.etag = m'.etag → d = d'

/-- The etag was given out, and no indexed version carries it. -/
structure Spent (e : Nat) (σ : State) : Prop where
  given : e ≤ σ.etagSeq
  absent : ∀ d m, σ.index.lookup d = some m → m.etag ≠ e

section

variable {σ σ' : State} {d : Digest} {v : Version} {e : Nat}

theorem Etags.no_commit (h : Etags σ) (hn : NoCommit σ σ') : Etags σ' where
  seq := by rw [hn.etagSeq, hn.commits_eq, h.seq]
  given d v hput := by
    obtain ⟨drops, heq, hdrops⟩ := hn.history
    rw [heq, List.mem_append] at hput
    rw [hn.etagSeq]
    rcases hput with hmem | hmem
    · cases hdrops _ hmem
    · exact h.given d v hmem
  indexed d m' hm' := by
    obtain ⟨m, hm, heq⟩ := hn.index d m' hm'
    rw [hn.etagSeq, ← heq]
    exact h.indexed d m hm
  unique d d' m m' hm hm' heq := by
    obtain ⟨n, hn₁, hn₂⟩ := hn.index d m hm
    obtain ⟨n', hn₁', hn₂'⟩ := hn.index d' m' hm'
    exact h.unique d d' n n' hn₁ hn₁' (by rw [hn₂, hn₂', heq])

/-- Without wrapping, the new etag is the successor of the counter. -/
theorem Etags.new_etag (h : Etags σ) (hnew : NewVersion σ σ' d v)
    (hlt : commits σ'.history < wrap64) : v.etag = σ.etagSeq + 1 := by
  rw [hnew.history, commits, ← h.seq] at hlt
  rw [hnew.etag, Nat.mod_eq_of_lt hlt]

theorem Etags.new_version (h : Etags σ) (hnew : NewVersion σ σ' d v)
    (hlt : commits σ'.history < wrap64) : Etags σ' := by
  have hetag := h.new_etag hnew hlt
  have hseq := hnew.etagSeq
  obtain ⟨m₁, hm₁, hindex⟩ := hnew.index
  -- the etag of an entry of the new index, by digest
  have hcases : ∀ e m, σ'.index.lookup e = some m →
      e = d ∧ m.etag = σ.etagSeq + 1 ∨ e ≠ d ∧ σ.index.lookup e = some m := by
    intro e m hm
    rw [hindex, Table.lookup_insert] at hm
    split_ifs at hm with he
    · cases hm
      exact Or.inl ⟨he, hm₁.trans hetag⟩
    · exact Or.inr ⟨he, hm⟩
  refine ⟨?_, fun e w hput => ?_, fun e m hm => ?_, fun e e' m m' hm hm' heq => ?_⟩
  · rw [hseq, hetag, hnew.history, commits, h.seq]
  · rw [hnew.history, List.mem_cons] at hput
    rcases hput with heq | hmem
    · cases heq
      exact hseq.ge
    · have := h.given e w hmem
      omega
  · rcases hcases e m hm with ⟨-, heq⟩ | ⟨-, hold⟩
    · omega
    · have := h.indexed e m hold
      omega
  · rcases hcases e m hm with ⟨rfl, h1⟩ | ⟨-, hold⟩ <;>
      rcases hcases e' m' hm' with ⟨rfl, h2⟩ | ⟨-, hold'⟩
    · rfl
    · have := h.indexed e' m' hold'
      omega
    · have := h.indexed e m hold
      omega
    · exact h.unique e e' m m' hold hold' heq

theorem Spent.no_commit (h : Spent e σ) (hn : NoCommit σ σ') : Spent e σ' where
  given := hn.etagSeq ▸ h.given
  absent d m' hm' := by
    obtain ⟨m, hm, heq⟩ := hn.index d m' hm'
    exact heq ▸ h.absent d m hm

theorem Spent.new_version (h : Spent e σ) (hnew : NewVersion σ σ' d v)
    (hetag : v.etag = σ.etagSeq + 1) : Spent e σ' where
  given := by
    have := h.given
    have := hnew.etagSeq
    omega
  absent d' m' hm' := by
    obtain ⟨m₁, hm₁, hindex⟩ := hnew.index
    rw [hindex, Table.lookup_insert] at hm'
    split_ifs at hm'
    · cases hm'
      have := h.given
      omega
    · exact h.absent d' m' hm'

end

/-- No two commits have given out the same etag. -/
def PutsUnique (history : List Event) : Prop :=
  ∀ d v d' v', .put d v ∈ history → .put d' v' ∈ history → v.etag = v'.etag → d = d' ∧ v = v'

namespace PutsUnique

variable {σ σ' : State} {d : Digest} {v : Version}

theorem no_commit (h : PutsUnique σ.history) (hn : NoCommit σ σ') : PutsUnique σ'.history := by
  obtain ⟨drops, heq, hdrops⟩ := hn.history
  have hold : ∀ e w, Event.put e w ∈ σ'.history → Event.put e w ∈ σ.history := by
    intro e w hput
    rw [heq, List.mem_append] at hput
    rcases hput with hmem | hmem
    · cases hdrops _ hmem
    · exact hmem
  exact fun d v d' v' hput hput' => h d v d' v' (hold d v hput) (hold d' v' hput')

theorem new_version (h : PutsUnique σ.history) (hσ : Etags σ) (hnew : NewVersion σ σ' d v)
    (hetag : v.etag = σ.etagSeq + 1) : PutsUnique σ'.history := by
  intro e w e' w' hput hput' heq
  rw [hnew.history, List.mem_cons] at hput hput'
  rcases hput with hfirst | hold <;> rcases hput' with hfirst' | hold'
  · cases hfirst
    cases hfirst'
    exact ⟨rfl, rfl⟩
  · cases hfirst
    have := hσ.given e' w' hold'
    omega
  · cases hfirst'
    have := hσ.given e w hold
    omega
  · exact h e w e' w' hold hold' heq

end PutsUnique

section

variable {cfg : Config} {σ : State}

/-- The histories only grow. -/
theorem commits_le_apply (σ : State) (op : Op) :
    commits σ.history ≤ commits (σ.apply cfg op).history := by
  rcases @apply_commits cfg σ op with hn | ⟨d, v, σ₁, -, hnew, hrest⟩
  · exact hn.commits_eq.ge
  · rw [hrest.commits_eq, hnew.history, commits]
    exact Nat.le_succ _

theorem commits_le_run (σ : State) (ops : List Op) :
    commits σ.history ≤ commits (run (State.apply cfg) σ ops).history :=
  invariant_run (I := fun σ' => commits σ.history ≤ commits σ'.history)
    (fun σ' op _ h => h.trans (commits_le_apply σ' op)) le_rfl
    (allowed_true (State.apply cfg) σ ops)

theorem Etags.apply (hσ : Etags σ) (op : Op)
    (hlt : commits (σ.apply cfg op).history < wrap64) : Etags (σ.apply cfg op) := by
  rcases @apply_commits cfg σ op with hn | ⟨d, v, σ₁, -, hnew, hrest⟩
  · exact hσ.no_commit hn
  · exact (hσ.new_version hnew (hrest.commits_eq ▸ hlt)).no_commit hrest

theorem Spent.apply {e : Nat} (hσ : Etags σ) (h : Spent e σ) (op : Op)
    (hlt : commits (σ.apply cfg op).history < wrap64) : Spent e (σ.apply cfg op) := by
  rcases @apply_commits cfg σ op with hn | ⟨d, v, σ₁, -, hnew, hrest⟩
  · exact h.no_commit hn
  · exact (h.new_version hnew (hσ.new_etag hnew (hrest.commits_eq ▸ hlt))).no_commit hrest

/-- Fewer than 2^64 commits ago every etag was given out once. -/
theorem reachable_etags (cfg : Config) (ops : List Op)
    (hlt : commits (State.after cfg ops).history < wrap64) : Etags (State.after cfg ops) := by
  have hinit : Etags (State.init cfg) :=
    ⟨rfl, by simp [State.init], by simp [State.init], by simp [State.init]⟩
  exact invariant_run (I := fun σ => commits σ.history < wrap64 → Etags σ)
    (fun σ op _ ih hlt => (ih (Nat.lt_of_le_of_lt (commits_le_apply σ op) hlt)).apply op hlt)
    (fun _ => hinit)
    (allowed_true (State.apply cfg) (State.init cfg) ops) hlt

/-- A spent etag stays spent. -/
theorem Spent.run {e : Nat} (hσ : Etags σ) (h : Spent e σ) (ops : List Op)
    (hlt : commits (run (State.apply cfg) σ ops).history < wrap64) :
    Spent e (run (State.apply cfg) σ ops) := by
  have hinv := invariant_run (I := fun σ => commits σ.history < wrap64 → Etags σ ∧ Spent e σ)
    (fun σ op _ ih hlt => by
      have hboth := ih (Nat.lt_of_le_of_lt (commits_le_apply σ op) hlt)
      exact ⟨hboth.1.apply op hlt, hboth.2.apply hboth.1 op hlt⟩)
    (fun _ => ⟨hσ, h⟩) (allowed_true (State.apply cfg) σ ops)
  exact (hinv hlt).2

/-- The history only grows. -/
theorem history_suffix_apply (σ : State) (op : Op) : σ.history <:+ (σ.apply cfg op).history := by
  rcases @apply_commits cfg σ op with hn | ⟨d, v, σ₁, -, hnew, hrest⟩
  · obtain ⟨drops, heq, -⟩ := hn.history
    exact ⟨drops, heq.symm⟩
  · obtain ⟨drops, heq, -⟩ := hrest.history
    rw [hnew.history] at heq
    exact (List.suffix_cons _ _).trans ⟨drops, heq.symm⟩

theorem history_suffix_run (σ : State) (ops : List Op) :
    σ.history <:+ (run (State.apply cfg) σ ops).history :=
  invariant_run (I := fun σ' => σ.history <:+ σ'.history)
    (fun σ' op _ h => h.trans (history_suffix_apply σ' op))
    (List.suffix_refl _) (allowed_true (State.apply cfg) σ ops)

/-- With fewer than 2^64 commits, an etag identifies a version. -/
theorem reachable_puts_unique (cfg : Config) (ops : List Op)
    (hlt : commits (State.after cfg ops).history < wrap64) :
    PutsUnique (State.after cfg ops).history := by
  have hinit : Etags (State.init cfg) ∧ PutsUnique (State.init cfg).history :=
    ⟨⟨rfl, by simp [State.init], by simp [State.init], by simp [State.init]⟩, by simp [PutsUnique,
      State.init]⟩
  have hinv := invariant_run (I := fun σ => commits σ.history < wrap64 → Etags σ ∧
    PutsUnique σ.history)
    (fun σ op _ ih hlt => by
      obtain ⟨hσ, hputs⟩ := ih (Nat.lt_of_le_of_lt (commits_le_apply σ op) hlt)
      refine ⟨hσ.apply op hlt, ?_⟩
      rcases @apply_commits cfg σ op with hn | ⟨d, v, σ₁, -, hnew, hrest⟩
      · exact hputs.no_commit hn
      · exact (hputs.new_version hσ hnew
          (hσ.new_etag hnew (hrest.commits_eq ▸ hlt))).no_commit hrest)
    (fun _ => hinit) (allowed_true (State.apply cfg) (State.init cfg) ops)
  exact (hinv hlt).2

/-- What the version check establishes. -/
theorem cas_match {old : Option ObjectMeta} {now cas : Nat} (hcas : cas ≠ 0)
    (h : State.casMismatch old now cas = false) :
    ∃ m, old = some m ∧ m.isExpired now = false ∧ m.etag = cas := by
  cases old with
  | none => simp [State.casMismatch, hcas] at h
  | some m => simpa [State.casMismatch, hcas] using h

/-- A commit that expected an etag leaves it spent. -/
theorem spent_of_commit {σ₁ σ' : State} {d : Digest} {v : Version} {m : ObjectMeta}
    (hσ : Etags σ) (hm : σ.index.lookup d = some m) (hnew : NewVersion σ σ₁ d v)
    (hrest : NoCommit σ₁ σ') (hetag : v.etag = σ.etagSeq + 1) : Spent m.etag σ' := by
  have hle := hσ.indexed d m hm
  have hseq := hnew.etagSeq
  refine Spent.no_commit ⟨by omega, fun e n hn heq => ?_⟩ hrest
  obtain ⟨m₁, hm₁, hindex⟩ := hnew.index
  rw [hindex, Table.lookup_insert] at hn
  split_ifs at hn with he
  · cases hn
    omega
  · exact he (hσ.unique e d n m hn hm heq)

/-- A commit that fails the version check leaves the index and the live files alone. -/
theorem cas_mismatch_unchanged (hinv : ScratchInv σ) {id flags expiry cas : Nat} {faults : Faults}
    (h : (State.commit cfg σ id flags expiry cas faults).1 = .error .casMismatch) :
    (State.commit cfg σ id flags expiry cas faults).2.index = σ.index ∧
      ∀ d tier drive, (State.commit cfg σ id flags expiry cas faults).2.fs.dir
      (livePath tier d drive) =
          σ.fs.dir (livePath tier d drive) ∧
        ∀ ino, σ.fs.dir (livePath tier d drive) = some ino →
          (State.commit cfg σ id flags expiry cas faults).2.fs.file ino = σ.fs.file ino := by
  have hkeeps := (@Kept.apply cfg σ hinv.scratch hinv.fresh
    (.commit id flags expiry cas faults)).keeps
  have hbody : ∀ d tier drive ino, σ.fs.dir (livePath tier d drive) = some ino →
      (State.commit cfg σ id flags expiry cas faults).2.fs.file ino = σ.fs.file ino :=
    fun d tier drive ino hino => hkeeps.body_eq ino (FileSystem.sealed_of_live hino)
  rcases State.commit_cases cfg σ id flags expiry cas faults with
    ⟨e, heq, hne, -⟩ | ⟨h₀, ok, w, hh, -, hflush, hends⟩
  · rw [heq] at h
    exact absurd (Except.error.inj h) hne
  have hdir := (@State.flush_tail_confined cfg faults id ⟨h₀, σ.stageBytes h₀.stage, σ.fs⟩
    (hinv.scratch.named id h₀ hh)).2
  rw [hflush] at hdir
  rcases hends with ⟨-, heq⟩ | ⟨-, ⟨-, heq⟩ | ⟨-, published, fs, -, ⟨-, heq⟩ | ⟨-, heq⟩⟩⟩ <;>
    rw [heq] at h hbody ⊢
  · cases h
  · exact ⟨rfl, fun d tier drive => ⟨congrFun hdir _, hbody d tier drive⟩⟩
  · cases h
  · cases h

end

/-! ## A commit in two steps

`commit` looks at the indexed version and sets the new one under one lock, which `touch_ttl` does
not take. What lies between (the renames, the old head) `touch_ttl` neither reads nor writes, so
that it can be part of the second step. -/

/-- A commit that holds the lock: its version check has passed. -/
structure Publication where
  id : Nat
  digest : Digest
  flags : Nat
  expiry : Nat
  cas : Nat
  faults : Faults
  /-- the time of the check -/
  checkedAt : Nat
  /-- ghost: `touch_ttl` has changed the indexed version since -/
  touched : Bool

/-- The store and the commit that holds its lock. -/
structure Locked where
  store : State
  holder : Option Publication

/-- A step: an operation other than a commit, or one of the two steps of a commit. -/
inductive LockStep where
  | op (op : Op)
  | check (id flags expiry cas : Nat) (faults : Faults)
  | set

/-- Writes, `touch_ttl`, the scan of `reap_expired` and the clock do not wait for the lock. -/
def Op.runs (held : Bool) : Op → Bool
  | .commit _ _ _ _ _ => false
  | .write _ _ _ | .touchTtl _ _ | .reapScan | .clock _ => true
  | _ => !held

/-- A commit notes a `touch_ttl` of its key. -/
def Publication.sees (p : Publication) : Op → Publication
  | .touchTtl d _ => { p with touched := p.touched || decide (d = p.digest) }
  | _ => p

namespace Locked

/-- The version check fails, or there is no such handle. -/
def mismatch (s : Locked) (id cas : Nat) : Bool :=
  match s.store.handles.lookup id with
  | none => true
  | some h => State.casMismatch (s.store.index.lookup h.digest) s.store.now cas

/-- The operations of the store that a step comes to. A commit that fails the check is answered at
once; one that has passed it does not look again. -/
def ops (s : Locked) : LockStep → List Op
  | .op op => if op.runs s.holder.isSome then [op] else []
  | .check id flags expiry cas faults =>
      if s.holder.isNone && s.mismatch id cas then [.commit id flags expiry cas faults] else []
  | .set => (s.holder.map fun p => .commit p.id p.flags p.expiry 0 p.faults).toList

/-- Who holds the lock then. -/
def next (s : Locked) : LockStep → Option Publication
  | .op op => s.holder.map (·.sees op)
  | .check id flags expiry cas faults =>
      if s.holder.isSome then s.holder
      else if s.mismatch id cas then none
      else (s.store.handles.lookup id).map fun h =>
        ⟨id, h.digest, flags, expiry, cas, faults, s.store.now, false⟩
  | .set => none

def step (cfg : Config) (s : Locked) (x : LockStep) : Locked :=
  ⟨run (State.apply cfg) s.store (s.ops x), s.next x⟩

def after (cfg : Config) (steps : List LockStep) : Locked :=
  run (step cfg) ⟨State.init cfg, none⟩ steps

variable {cfg : Config} {s : Locked}

/-- The two steps in a row are a commit. -/
theorem check_set {id cas : Nat} (flags expiry : Nat) (faults : Faults)
    (h : s.mismatch id cas = false) :
    s.store.commit cfg id flags expiry 0 faults =
      s.store.commit cfg id flags expiry cas faults := by
  unfold mismatch at h
  unfold State.commit
  cases hh : s.store.handles.lookup id with
  | none => rfl
  | some h₀ =>
      rw [hh] at h
      dsimp only at h ⊢
      split_ifs
      · rfl
      have hzero : ∀ old now, State.casMismatch old now 0 = false := fun _ _ => rfl
      have hsame := State.flush_tail_same cfg faults ⟨h₀, s.store.stageBytes h₀.stage, s.store.fs⟩
      split
      · rfl
      · rename_i w hflush
        rw [hflush] at hsame
        have hdigest : w.handle.digest = h₀.digest := hsame.digest
        simp only [State.publishVersion, State.putStaging, hdigest, h, hzero]

/-- A run of the two-step machine is a run of the store. -/
theorem run_store (cfg : Config) (s : Locked) (steps : List LockStep) :
    ∃ ops, (run (step cfg) s steps).store = run (State.apply cfg) s.store ops := by
  induction steps generalizing s with
  | nil => exact ⟨[], rfl⟩
  | cons x rest ih =>
      obtain ⟨ops, hops⟩ := ih (s.step cfg x)
      exact ⟨s.ops x ++ ops, hops.trans (run_append ..).symm⟩

/-- The version that the check has found is indexed while the commit holds the lock, with its expiry
if `touch_ttl` has not changed it. -/
def Found (s : Locked) : Prop :=
  ∀ p ∈ s.holder, (∃ h, s.store.handles.lookup p.id = some h ∧ h.digest = p.digest) ∧
    (p.cas ≠ 0 → ∃ m, s.store.index.lookup p.digest = some m ∧ m.etag = p.cas ∧
      (p.touched = false → m.isExpired p.checkedAt = false))

/-- `touch_ttl` keeps the etag of every version, and the expiry of every version but the one it
touches. -/
theorem touch_ttl_lookup {σ : State} (d : Digest) (expiry : Nat) {e : Digest} {m : ObjectMeta}
    (hm : σ.index.lookup e = some m) :
    ∃ m', (σ.touchTtl d expiry).2.index.lookup e = some m' ∧ m'.etag = m.etag ∧
      (d ≠ e → m' = m) := by
  unfold State.touchTtl Index.updateExpiry
  cases hd : σ.index.lookup d with
  | none => exact ⟨m, hm, rfl, fun _ => rfl⟩
  | some m₀ =>
      by_cases he : e = d
      · subst he
        cases hm.symm.trans hd
        exact ⟨_, Table.lookup_insert_self .., rfl, fun hne => absurd rfl hne⟩
      · exact ⟨m, (Table.lookup_insert ..).trans ((if_neg he).trans hm), rfl, fun _ => rfl⟩

/-- A write keeps the index, and every open store with its digest. -/
theorem write_keeps (σ : State) (id : Nat) (chunk : ByteView) (faults : Faults) :
    (σ.write cfg id chunk faults).2.index = σ.index ∧
      ∀ i h, σ.handles.lookup i = some h → ∃ h',
        (σ.write cfg id chunk faults).2.handles.lookup i = some h' ∧ h'.digest = h.digest := by
  rcases @State.write_put cfg σ id chunk faults with heq | ⟨h₀, hh, hput⟩
  · rw [heq]
    exact ⟨rfl, fun _ h hh => ⟨h, hh, rfl⟩⟩
  · obtain ⟨w, hkept, -, -, heq⟩ := hput.same
    rw [heq]
    refine ⟨rfl, fun i h hi => ?_⟩
    by_cases he : i = id
    · subst he
      cases hh.symm.trans hi
      exact ⟨_, Table.lookup_insert_self .., hkept.digest⟩
    · exact ⟨h, (Table.lookup_insert ..).trans ((if_neg he).trans hi), rfl⟩

/-- What does not wait for the lock keeps what the check has found. -/
theorem Found.op (h : s.Found) (op : Op) : (s.step cfg (.op op)).Found := by
  intro p hp
  obtain ⟨p', hp', rfl⟩ := Option.mem_map.1 hp
  obtain ⟨hhandle, hfound⟩ := h p' hp'
  have hops : (s.step cfg (.op op)).store =
      run (State.apply cfg) s.store (if op.runs true then [op] else []) := by
    show run _ _ (if op.runs s.holder.isSome then [op] else []) = _
    rw [Option.isSome_of_mem hp']
  rw [hops]
  cases op with
  | touchTtl d expiry =>
      refine ⟨?_, fun hcas => ?_⟩
      · show ∃ h, (s.store.touchTtl d expiry).2.handles.lookup p'.id = some h ∧ h.digest = p'.digest
        unfold State.touchTtl
        split <;> exact hhandle
      · obtain ⟨m, hm, hetag, hlive⟩ := hfound hcas
        obtain ⟨m', hm', hetag', hsame⟩ := touch_ttl_lookup d expiry hm
        refine ⟨m', hm', hetag'.trans hetag, fun htouched => ?_⟩
        obtain ⟨hbefore, hne⟩ := Bool.or_eq_false_iff.1 htouched
        rw [hsame (of_decide_eq_false hne)]
        exact hlive hbefore
  | write id chunk faults =>
      obtain ⟨hindex, hkept⟩ := @write_keeps cfg s.store id chunk faults
      obtain ⟨h₀, hh, hdigest⟩ := hhandle
      obtain ⟨h', hh', heq⟩ := hkept _ _ hh
      refine ⟨⟨h', hh', heq.trans hdigest⟩, ?_⟩
      show p'.cas ≠ 0 → ∃ m, (s.store.write cfg id chunk faults).2.index.lookup _ = some m ∧ _
      rw [hindex]
      exact hfound
  | reapScan =>
      show (∃ h, s.store.reapScan.handles.lookup p'.id = some h ∧ _) ∧
        (_ → ∃ m, s.store.reapScan.index.lookup _ = some m ∧ _)
      unfold State.reapScan
      split_ifs <;> exact ⟨hhandle, hfound⟩
  | _ => exact ⟨hhandle, hfound⟩

/-- A check that passes has found the version that it asks for. -/
theorem Found.check (h : s.Found) (id flags expiry cas : Nat) (faults : Faults) :
    (s.step cfg (.check id flags expiry cas faults)).Found := by
  intro p hp
  have hnext : p ∈ s.next (.check id flags expiry cas faults) := hp
  cases hheld : s.holder with
  | some p' =>
      have hops : (s.step cfg (.check id flags expiry cas faults)).store = s.store := by
        simp only [Locked.step, ops, hheld, Option.isNone_some, Bool.false_and, Bool.false_eq_true,
          if_false, run_nil]
      -- the check waits for the lock
      simp only [next, hheld, Option.isSome_some, if_true] at hnext
      rw [hops]
      exact h p (hheld ▸ hnext)
  | none =>
      cases hmis : s.mismatch id cas with
      | true => simp [next, hheld, hmis] at hnext
      | false =>
          have hops : (s.step cfg (.check id flags expiry cas faults)).store = s.store := by
            simp only [Locked.step, ops, hmis, Bool.and_false, Bool.false_eq_true, if_false,
              run_nil]
          simp only [next, hheld, hmis, Option.isSome_none, Bool.false_eq_true, if_false] at hnext
          obtain ⟨h₀, hh, rfl⟩ := Option.mem_map.1 hnext
          rw [hops]
          refine ⟨⟨h₀, hh, rfl⟩, fun hcas => ?_⟩
          unfold mismatch at hmis
          rw [hh] at hmis
          obtain ⟨m, hm, hlive, hetag⟩ := cas_match hcas hmis
          exact ⟨m, hm, hetag, fun _ => hlive⟩

theorem Found.step (h : s.Found) (x : LockStep) : (s.step cfg x).Found := by
  cases x with
  | op op => exact h.op op
  | check id flags expiry cas faults => exact h.check id flags expiry cas faults
  | set =>
      intro p hp
      cases hp

end Locked

/-- In every interleaving and with fewer than 2^64 commits: a commit that succeeds is given an etag
above all earlier ones; if it expected an etag, the indexed version of the digest carries it when
the new one is set, and was unexpired when it was checked if `touch_ttl` has not changed it since,
and no later commit with the same expectation passes the check; and a commit answered with a version
mismatch changes neither the index nor the live files. -/
theorem cas_linearizable (cfg : Config) (before : List LockStep) :
    (∀ p ∈ (Locked.after cfg before).holder,
      ((Locked.after cfg before).store.commit cfg p.id p.flags p.expiry 0 p.faults).1 = .ok () →
      commits (Locked.after cfg (before ++ [.set])).store.history < wrap64 →
      ∃ v drops, (Locked.after cfg (before ++ [.set])).store.history =
          drops ++ .put p.digest v :: (Locked.after cfg before).store.history ∧
        (∀ event ∈ drops, event.version = none) ∧
        (Locked.after cfg (before ++ [.set])).store.etagSeq = v.etag ∧
        (∀ d' v', .put d' v' ∈ (Locked.after cfg before).store.history → v'.etag < v.etag) ∧
        (p.cas ≠ 0 →
          (∃ m, (Locked.after cfg before).store.index.lookup p.digest = some m ∧ m.etag = p.cas ∧
            (p.touched = false → m.isExpired p.checkedAt = false)) ∧
          ∀ later, commits (Locked.after cfg (before ++ .set :: later)).store.history < wrap64 →
            ∀ p' ∈ (Locked.after cfg (before ++ .set :: later)).holder, p'.cas ≠ p.cas)) ∧
    ∀ id flags expiry cas faults,
      ((Locked.after cfg before).store.commit cfg id flags expiry cas faults).1 =
        .error .casMismatch →
      ((Locked.after cfg before).store.commit cfg id flags expiry cas faults).2.index =
        (Locked.after cfg before).store.index ∧
      ∀ d tier drive,
        ((Locked.after cfg before).store.commit cfg id flags expiry cas faults).2.fs.dir
            (livePath tier d drive) =
          (Locked.after cfg before).store.fs.dir (livePath tier d drive) ∧
        ∀ ino, (Locked.after cfg before).store.fs.dir (livePath tier d drive) = some ino →
          ((Locked.after cfg before).store.commit cfg id flags expiry cas faults).2.fs.file ino =
            (Locked.after cfg before).store.fs.file ino := by
  have hfound : ∀ steps, (Locked.after cfg steps).Found := fun steps =>
    invariant_run (I := Locked.Found) (fun s x _ hs => hs.step x) nofun
      (allowed_true (Locked.step cfg) _ steps)
  obtain ⟨ops, hops⟩ := Locked.run_store cfg ⟨State.init cfg, none⟩ before
  have hstore : (Locked.after cfg before).store = State.after cfg ops := hops
  refine ⟨fun p hp hok hlt => ?_, fun id flags expiry cas faults =>
    cas_mismatch_unchanged (hstore ▸ reachable_scratch_inv cfg ops)⟩
  obtain ⟨⟨h, hh, hdigest⟩, hmatch⟩ := hfound before p hp
  -- the set is a commit without a check
  have hafter : Locked.after cfg (before ++ [.set]) =
      ⟨((Locked.after cfg before).store.commit cfg p.id p.flags p.expiry 0 p.faults).2, none⟩ := by
    rw [Locked.after, run_append]
    show Locked.step cfg (Locked.after cfg before) .set = _
    unfold Locked.step Locked.ops
    rw [Option.mem_def.1 hp]
    rfl
  have hlater : ∀ later, Locked.after cfg (before ++ .set :: later) =
      run (Locked.step cfg) (Locked.after cfg (before ++ [.set])) later := fun later => by
    rw [Locked.after, Locked.after, ← run_append, List.append_assoc]
    rfl
  rw [hafter] at hlt hlater ⊢
  have hle : commits (Locked.after cfg before).store.history ≤ _ :=
    @commits_le_apply cfg _ (.commit p.id p.flags p.expiry 0 p.faults)
  have hσ : Etags (Locked.after cfg before).store := by
    rw [hstore] at hle ⊢
    exact reachable_etags cfg ops (Nat.lt_of_le_of_lt hle (hstore ▸ hlt))
  rcases @commit_outcome cfg (Locked.after cfg before).store p.id p.flags p.expiry 0 p.faults with
    ⟨hfail, -⟩ | ⟨h', v, σ₁, -, hh', -, hnew, hrest⟩
  · exact absurd hok hfail
  cases hh.symm.trans hh'
  rw [hdigest] at hnew
  have hetag := hσ.new_etag hnew (hrest.commits_eq ▸ hlt)
  obtain ⟨drops, hhistory, hdrops⟩ := hrest.history
  refine ⟨v, drops, by rw [hhistory, hnew.history], hdrops, hrest.etagSeq.trans hnew.etagSeq,
    fun d' v' hput => ?_, fun hcas => ⟨hmatch hcas, fun later hlt' p' hp' heq => ?_⟩⟩
  · have := hσ.given d' v' hput
    omega
  -- the expected etag is spent from now on, so a second commit cannot find it
  obtain ⟨m, hm, hmcas, -⟩ := hmatch hcas
  have hspent := spent_of_commit hσ hm hnew hrest hetag
  have hσ' := hσ.apply (.commit p.id p.flags p.expiry 0 p.faults) hlt
  obtain ⟨m', hm', heq', -⟩ := (hfound (before ++ .set :: later) p' hp').2 (heq ▸ hcas)
  rw [hlater] at hlt' hm'
  obtain ⟨ops', hops'⟩ := Locked.run_store cfg
    ⟨((Locked.after cfg before).store.commit cfg p.id p.flags p.expiry 0 p.faults).2, none⟩ later
  rw [hops'] at hlt' hm'
  exact (hspent.run hσ' ops' hlt').absent p'.digest m' hm' (heq'.trans (heq.trans hmcas.symm))

/-- Store an object, and write a second version of it. -/
def storeTwice : List Op :=
  [.beginStore (Digest.replicate 1) 100 Faults.never, .write 0 ⟨100, fun _ => 7⟩ Faults.never,
    .commit 0 0 0 0 Faults.never, .beginStore (Digest.replicate 1) 50 Faults.never,
    .write 1 ⟨50, fun _ => 8⟩ Faults.never]

/-- An object is stored, and a commit of a second version passes its check. -/
def checkSecond : List LockStep :=
  [.op (.beginStore (Digest.replicate 1) 100 Faults.never),
    .op (.write 0 ⟨100, fun _ => 7⟩ Faults.never), .check 0 0 0 0 Faults.never, .set,
    .op (.beginStore (Digest.replicate 1) 50 Faults.never),
    .op (.write 1 ⟨50, fun _ => 8⟩ Faults.never), .check 1 0 0 1 Faults.never]

/-- That commit. -/
def secondCommit : Publication := ⟨1, Digest.replicate 1, 0, 0, 1, Faults.never, 0, false⟩

/-- Time passes and another key is touched; the second version is set, and a third cannot pass the
same check. -/
theorem cas_linearizable_overwrite :
    (Locked.after oneDriveConfig (checkSecond ++
        [.op (.clock 9), .op (.touchTtl (Digest.replicate 2) 5)])).holder = some secondCommit ∧
      ∀ p' ∈ (Locked.after oneDriveConfig (checkSecond ++
        [.op (.clock 9), .op (.touchTtl (Digest.replicate 2) 5)] ++
        .set :: [.op (.beginStore (Digest.replicate 1) 50 Faults.never),
          .op (.write 2 ⟨50, fun _ => 9⟩ Faults.never), .check 2 0 0 1 Faults.never])).holder,
        p'.cas ≠ 1 := by
  obtain ⟨hcommit, -⟩ := cas_linearizable oneDriveConfig
    (checkSecond ++ [.op (.clock 9), .op (.touchTtl (Digest.replicate 2) 5)])
  obtain ⟨v, drops, -, -, -, -, honce⟩ :=
    hcommit secondCommit rfl (by decide +kernel) (by decide +kernel)
  exact ⟨rfl, (honce (by decide)).2 _ (by decide +kernel)⟩

/-- The version that has passed the check is touched so that it is expired. The commit succeeds all
the same, where its check would now fail, and nothing is left of the touch. -/
theorem touch_between_check_and_set :
    (Locked.after oneDriveConfig (checkSecond ++
        [.op (.clock 100), .op (.touchTtl (Digest.replicate 1) 50)])).holder =
          some { secondCommit with touched := true } ∧
      ((Locked.after oneDriveConfig (checkSecond ++
        [.op (.clock 100), .op (.touchTtl (Digest.replicate 1) 50)])).store.commit
          oneDriveConfig 1 0 0 1 Faults.never).1 = .error .casMismatch ∧
      ((Locked.after oneDriveConfig (checkSecond ++
        [.op (.clock 100), .op (.touchTtl (Digest.replicate 1) 50), .set])).store.index.lookup
          (Digest.replicate 1)).map (fun m => (m.etag, m.expiry)) = some (2, 0) :=
  ⟨rfl, by decide +kernel, by decide +kernel⟩

end GoblinStore
