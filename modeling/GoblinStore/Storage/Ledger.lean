import GoblinStore.Storage.Changes

/-!
# What a step does to the index and the history

`liveVersion` replays the recorded events: the version of a digest is that of its last commit,
unless it was removed, reaped or evicted since. `Recorded` says that the index holds exactly
the live versions.

A step forgets entries and takes heads away (`Fade`); a commit indexes one new version before, and
`touch_ttl` overwrites one expiry. `State.apply_ledger` says so once, for every step.
-/

namespace GoblinStore

open GoblinStore.Lib GoblinStore.Core

/-- The version of a digest after the recorded events, latest first. -/
def liveVersion : List Event → Digest → Option Version
  | [], _ => none
  | event :: rest, d => if event.digest = d then event.version else liveVersion rest d

theorem live_version_put (d : Digest) (v : Version) (rest : List Event) (e : Digest) :
    liveVersion (.put d v :: rest) e = if d = e then some v else liveVersion rest e := rfl

theorem put_of_live {history : List Event} {d : Digest} {v : Version}
    (h : liveVersion history d = some v) :
    .put d v ∈ history := by
  induction history with
  | nil => cases h
  | cons event rest ih =>
      rw [liveVersion] at h
      split_ifs at h with hd
      · cases event with
        | put e w =>
            cases h
            rw [← hd]
            exact List.mem_cons_self
        | removed | reaped | evicted => cases h
      · exact List.mem_cons_of_mem _ (ih h)

/-- The metadata a commit determines. -/
def Version.stamp (v : Version) : Nat × Nat × Nat := (v.size, v.flags, v.etag)

/-- The metadata a commit determined. -/
def ObjectMeta.stamp (m : ObjectMeta) : Nat × Nat × Nat := (m.size, m.flags, m.etag)

/-- The index holds the live versions and nothing else. -/
def Recorded (index : Index) (history : List Event) : Prop :=
  ∀ d, (index.lookup d).map ObjectMeta.stamp = (liveVersion history d).map Version.stamp

namespace Recorded

variable {index : Index} {history : List Event} {d : Digest}

variable {m : ObjectMeta}

theorem live (h : Recorded index history) (hm : index.lookup d = some m) :
    ∃ v, liveVersion history d = some v ∧ v.stamp = m.stamp := by
  have hd := h d
  rw [hm, Option.map_some] at hd
  obtain ⟨v, hv, hstamp⟩ := Option.map_eq_some_iff.1 hd.symm
  exact ⟨v, hv, hstamp⟩

theorem absent (h : Recorded index history) (hd : index.lookup d = none) :
    liveVersion history d = none := by
  have := h d
  rw [hd, Option.map_none] at this
  exact Option.map_eq_none_iff.1 this.symm

/-- Rewriting an entry without touching what the commit determined. -/
theorem restamp (h : Recorded index history) {m' : ObjectMeta} (hm : index.lookup d = some m)
    (hstamp : m'.stamp = m.stamp) : Recorded (index.insert d m') history := by
  intro e
  rw [← h e, Table.lookup_insert]
  split_ifs with he
  · rw [he, hm, Option.map_some, Option.map_some, hstamp]
  · rfl

theorem drop (h : Recorded index history) {event : Event} (hd : event.digest = d)
    (hv : event.version = none) : Recorded (index.erase d) (event :: history) := by
  intro e
  rw [Table.lookup_erase, liveVersion, hd]
  split_ifs with he he' he'
  · rw [hv]
    rfl
  · exact absurd he.symm he'
  · exact absurd he'.symm he
  · exact h e

theorem put (h : Recorded index history) {v : Version}
    (hstamp : m.stamp = v.stamp) : Recorded (index.insert d m) (.put d v :: history) := by
  intro e
  rw [Table.lookup_insert, live_version_put]
  split_ifs with he he' he'
  · rw [Option.map_some, Option.map_some, hstamp]
  · exact absurd he.symm he'
  · exact absurd he'.symm he
  · exact h e

end Recorded

/-! ## The ledger -/

/-- The index, its history, and what a commit changes besides. -/
structure Ledger where
  index : Index
  history : List Event
  etagSeq : Nat
  anyTtl : Bool

def State.ledger (σ : State) : Ledger := ⟨σ.index, σ.history, σ.etagSeq, σ.anyTtl⟩

/-- An entry is forgotten, or its head is taken away. -/
inductive Fade (l : Ledger) : Ledger → Prop where
  | drop (d : Digest) (m : ObjectMeta) (event : Event) (hm : l.index.lookup d = some m)
      (hd : event.digest = d)
      (hv : event.version = none) : Fade l { l with
        index := l.index.erase d, history := event :: l.history }
  | unhead (d : Digest) (m : ObjectMeta) (hm : l.index.lookup d = some m) :
      Fade l { l with index := l.index.insert d { m with head := none } }

/-- Any number of entries fade. -/
def Fading : Ledger → Ledger → Prop := Relation.ReflTransGen Fade

variable {l l' : Ledger}

theorem Fading.entry (h : Fading l l') {d : Digest} {m' : ObjectMeta}
    (hm' : l'.index.lookup d = some m') :
    ∃ m, l.index.lookup d = some m ∧ m' = { m with head := m'.head } := by
  induction h generalizing m' with
  | refl => exact ⟨m', hm', rfl⟩
  | tail _ hlast ih =>
      cases hlast with
      | drop e n event hn hd hv =>
          exact ih (Table.lookup_erase_some hm').2
      | unhead e n hn =>
          rcases Table.lookup_insert_some hm' with ⟨rfl, rfl⟩ | ⟨-, hold⟩
          · obtain ⟨m, hm, heq⟩ := ih hn
            refine ⟨m, hm, ?_⟩
            rw [heq]
          · exact ih hold

theorem Fading.counters (h : Fading l l') : l'.etagSeq = l.etagSeq ∧ l'.anyTtl = l.anyTtl := by
  induction h with
  | refl => exact ⟨rfl, rfl⟩
  | tail _ hlast ih =>
      cases hlast with
      | drop e n event hn hd hv => exact ih
      | unhead e n hn => exact ih

theorem Fading.history (h : Fading l l') :
    ∃ drops, l'.history = drops ++ l.history ∧ ∀ event ∈ drops, event.version = none := by
  induction h with
  | refl => exact ⟨[], rfl, by simp⟩
  | tail _ hlast ih =>
      obtain ⟨drops, heq, hdrops⟩ := ih
      cases hlast with
      | drop e n event hn hd hv =>
          refine ⟨event :: drops, congrArg (event :: ·) heq, fun other hother => ?_⟩
          rcases List.mem_cons.1 hother with rfl | hmem
          · exact hv
          · exact hdrops other hmem
      | unhead e n hn => exact ⟨drops, heq, hdrops⟩

/-- The version of a handle is indexed. -/
def Ledger.put (l : Ledger) (h : StoreHandle) (flags expiry : Nat) : Ledger where
  index := l.index.insert h.digest ⟨h.layout.size, flags, expiry, (l.etagSeq + 1) % wrap64, h.head⟩
  history := .put h.digest
    ⟨h.layout.size, flags, (l.etagSeq + 1) % wrap64, h.body.data⟩ :: l.history
  etagSeq := (l.etagSeq + 1) % wrap64
  anyTtl := l.anyTtl || decide (expiry ≠ 0)

/-- The expiry of an entry is overwritten. -/
def Ledger.touchTtl (l : Ledger) (d : Digest) (m : ObjectMeta) (expiry : Nat) : Ledger :=
  { l with
    index := l.index.insert d { m with expiry := expiry },
    anyTtl := l.anyTtl || decide (expiry ≠ 0) }

/-- Every step but a commit and `touch_ttl`. -/
def Op.Forgets : Op → Prop
  | .commit .. | .touchTtl .. => False
  | _ => True

namespace State

variable {cfg : Config} {σ σ' : State} {op : Op} {faults : Faults}

theorem fading_of_eq (h : σ'.ledger = σ.ledger) : Fading σ.ledger σ'.ledger := by
  rw [h]
  exact .refl

theorem quiet_ledger (cfg : Config) (σ : State) (hop : op.Quiet) :
    (σ.apply cfg op).ledger = σ.ledger := by
  have hsame := quiet_same cfg σ hop
  unfold ledger
  rw [hsame.index, hsame.history, hsame.etagSeq, hsame.anyTtl]

theorem changes_fading (h : Changes cfg op σ σ') (hop : op.Forgets) :
    Fading σ.ledger σ'.ledger := by
  induction h with
  | refl => exact .refl
  | tail _ hlast ih =>
      refine ih.trans ?_
      cases hlast with
      | quiet hquiet => exact fading_of_eq (quiet_ledger cfg _ hquiet)
      | settle => exact .refl
      | @unhead _ victim _ _ _ m _ _ hm =>
          rw [free_head_region_eq]
          exact .single (.unhead victim m hm)
      | @forget _ d m event _ _ hm hd hv =>
          rw [free_head_eq]
          exact .single (.drop d m event hm hd hv)
      | retime => cases hop
      | opened => exact .refl
      | refused => exact .refl
      | started => exact .refl
      | put _ hput =>
          obtain ⟨w, -, -, -, heq⟩ := hput.same
          rw [heq]
          exact .refl
      | unpublished => cases hop
      | installed => cases hop
      | closed =>
          rw [give_back_eq]
          exact .refl

theorem drop_object_fading (σ : State) (d : Digest) {event : Event} (hd : event.digest = d)
    (hv : event.version = none) : Fading σ.ledger (dropObject cfg σ d faults event).ledger :=
  @changes_fading cfg _ _ (.remove d faults) (.single (drop_object_change hd hv (Or.inl rfl)))
    trivial

theorem enforce_object_bound_fading (σ : State) :
    Fading σ.ledger (enforceObjectBound cfg σ faults).ledger :=
  @changes_fading cfg _ _ (.abort 0 faults) (enforce_object_bound_changes σ) trivial

theorem begin_store_fading (σ : State) (d : Digest) (size : Nat) :
    Fading σ.ledger (beginStore cfg σ d size faults).2.ledger :=
  changes_fading (begin_store_changes σ d size faults) trivial

/-- A commit that fails changes no entry; one that succeeds has passed the version check, indexes
its version and may evict. -/
theorem commit_ledger (σ : State) (id flags expiry cas : Nat) (faults : Faults) :
    ((commit cfg σ id flags expiry cas faults).1 ≠ .ok () ∧
      (commit cfg σ id flags expiry cas faults).2.ledger = σ.ledger) ∨
    ∃ h, (commit cfg σ id flags expiry cas faults).1 = .ok () ∧ σ.handles.lookup id = some h ∧
      h.off = h.layout.size ∧ casMismatch (σ.index.lookup h.digest) σ.now cas = false ∧
      Fading (σ.ledger.put h flags expiry) (commit cfg σ id flags expiry cas faults).2.ledger := by
  rcases commit_cases cfg σ id flags expiry cas faults with
    ⟨e, heq, -⟩ | ⟨h₀, ok, w, hh, hoff, hflush, hends⟩
  · rw [heq]
    exact Or.inl ⟨by simp, rfl⟩
  have hsame := flush_tail_same cfg faults ⟨h₀, σ.stageBytes h₀.stage, σ.fs⟩
  rw [hflush] at hsame
  rcases hends with ⟨-, heq⟩ | ⟨-, ⟨-, heq⟩ | ⟨hcas, published, fs, -, ⟨-, heq⟩ | ⟨-, heq⟩⟩⟩ <;>
    rw [heq]
  · exact Or.inl ⟨by simp, rfl⟩
  · exact Or.inl ⟨by simp, rfl⟩
  · exact Or.inl ⟨by simp, rfl⟩
  · refine Or.inr ⟨h₀, rfl, hh, hoff, hcas, ?_⟩
    have hput : (install (retireHead { σ.putStaging id w with fs := fs } h₀.digest
        (σ.index.lookup h₀.digest)) id
        w.handle flags expiry (σ.index.lookup h₀.digest).isNone).ledger =
          σ.ledger.put h₀ flags expiry := by
      rw [retire_head_eq]
      show (σ.ledger.put w.handle flags expiry) = _
      unfold Ledger.put
      rw [hsame.digest, hsame.layout, hsame.head, hsame.body]
    rw [← hput]
    exact enforce_object_bound_fading _

/-- The effect of any step on the index and the history. -/
theorem apply_ledger (cfg : Config) (σ : State) (op : Op) :
    Fading σ.ledger (σ.apply cfg op).ledger ∨
    (∃ d m expiry, op = .touchTtl d expiry ∧ σ.index.lookup d = some m ∧
      (σ.apply cfg op).ledger = σ.ledger.touchTtl d m expiry) ∨
    ∃ id flags expiry cas faults h, op = .commit id flags expiry cas faults ∧
      (σ.commit cfg id flags expiry cas faults).1 = .ok () ∧ σ.handles.lookup id = some h ∧
      casMismatch (σ.index.lookup h.digest) σ.now cas = false ∧
      Fading (σ.ledger.put h flags expiry) (σ.apply cfg op).ledger := by
  cases op with
  | commit id flags expiry cas faults =>
      rcases @commit_ledger cfg σ id flags expiry cas faults with
        ⟨-, heq⟩ | ⟨h, hok, hh, -, hcas, hrest⟩
      · exact Or.inl (fading_of_eq heq)
      · exact Or.inr (Or.inr ⟨id, flags, expiry, cas, faults, h, rfl, hok, hh, hcas, hrest⟩)
  | touchTtl d expiry =>
      simp only [apply, touchTtl]
      split
      · exact Or.inl .refl
      · rename_i m hm
        refine Or.inr (Or.inl ⟨d, m, expiry, rfl, hm, ?_⟩)
        simp only [Index.updateExpiry, hm]
        rfl
  | _ => exact Or.inl (changes_fading (apply_changes cfg σ _) trivial)

end State

/-! ## The record -/

namespace Recorded

variable {cfg : Config} {σ : State} {l l' : Ledger}

theorem fading (h : Recorded l.index l.history) (hfade : Fading l l') :
    Recorded l'.index l'.history := by
  induction hfade with
  | refl => exact h
  | tail _ hlast ih =>
      cases hlast with
      | drop d m event hm hd hv => exact ih.drop hd hv
      | unhead d m hm => exact ih.restamp hm rfl

theorem apply (h : Recorded σ.index σ.history) (op : Op) :
    Recorded (σ.apply cfg op).index (σ.apply cfg op).history := by
  rcases State.apply_ledger cfg σ op with hfade | ⟨d, m, expiry, -, hm, heq⟩ |
      ⟨id, flags, expiry, cas, faults, h₀, -, -, -, -, hfade⟩
  · exact fading (l := σ.ledger) h hfade
  · have hindex := congrArg Ledger.index heq
    have hhistory := congrArg Ledger.history heq
    show Recorded (σ.apply cfg op).ledger.index (σ.apply cfg op).ledger.history
    rw [hindex, hhistory]
    exact h.restamp hm rfl
  · have hput : Recorded (σ.ledger.put h₀ flags expiry).index
        (σ.ledger.put h₀ flags expiry).history := h.put rfl
    exact hput.fading hfade

end Recorded

/-- In every reachable state the index is the replay of the history. -/
theorem reachable_recorded (cfg : Config) (ops : List Op) :
    Recorded (State.after cfg ops).index (State.after cfg ops).history :=
  invariant_run (I := fun σ => Recorded σ.index σ.history) (fun _ op _ h => h.apply op)
    (fun d => by simp [State.init, liveVersion])
    (allowed_true (State.apply cfg) (State.init cfg) ops)

end GoblinStore
