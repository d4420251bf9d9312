import GoblinStore.Storage.Ledger

/-!
# What a step does to the index entries

Most steps only forget entries or take their heads away (`Fades`). The exceptions are a commit,
which indexes one new version first, and `touch_ttl`, which overwrites one expiry
(`State.apply_entries`).
-/

namespace GoblinStore

open GoblinStore.Lib GoblinStore.Core

/-- Every entry was there before, perhaps with another head. -/
structure Fades (σ σ' : State) : Prop where
  entry : ∀ d m', σ'.index.lookup d = some m' →
    ∃ m, σ.index.lookup d = some m ∧ m' = { m with head := m'.head }
  anyTtl : σ'.anyTtl = σ.anyTtl

namespace Fades

variable {cfg : Config} {σ σ' : State} {faults : Faults}

theorem of_fading (h : Fading σ.ledger σ'.ledger) : Fades σ σ' where
  entry _ _ hm' := h.entry hm'
  anyTtl := h.counters.2

theorem drop_object (σ : State) (d : Digest) {event : Event} (hd : event.digest = d)
    (hv : event.version = none) :
    Fades σ (State.dropObject cfg σ d faults event) :=
  of_fading (State.drop_object_fading σ d hd hv)

end Fades

/-- The version that a commit of handle `h` indexes. -/
structure Indexes (σ σ₁ : State) (h : StoreHandle) (flags expiry : Nat) : Prop where
  index : ∃ m, σ₁.index = σ.index.insert h.digest m ∧ m.size = h.layout.size ∧ m.flags = flags ∧
    m.expiry = expiry ∧ m.etag = (σ.etagSeq + 1) % wrap64
  anyTtl : σ₁.anyTtl = (σ.anyTtl || decide (expiry ≠ 0))

namespace State

variable {cfg : Config} {σ : State} {faults : Faults}

/-- Only the clock's own step moves the clock. -/
theorem apply_now (cfg : Config) (σ : State) (op : Op) (hop : ∀ now, op ≠ .clock now) :
    (σ.apply cfg op).now = σ.now := by
  refine Change.invariant (P := fun σ' => σ'.now = σ.now) (fun σ₁ σ₂ hnow hc => ?_) rfl
  rcases hc.plain with ⟨hquiet, rfl⟩ | ⟨-, -, hsame, -⟩
  · exact ((quiet_readers cfg σ₁ hquiet).now hop).trans hnow
  · exact hsame.trans hnow

/-- The effect of any step on the entries. -/
theorem apply_entries (cfg : Config) (σ : State) (op : Op) :
    Fades σ (σ.apply cfg op) ∨
    (∃ d m expiry, op = .touchTtl d expiry ∧ σ.index.lookup d = some m ∧
      (σ.apply cfg op).index = σ.index.insert d { m with expiry := expiry } ∧
      (σ.apply cfg op).anyTtl = (σ.anyTtl || decide (expiry ≠ 0))) ∨
    ∃ id flags expiry cas faults h σ₁, op = .commit id flags expiry cas faults ∧
      (σ.commit cfg id flags expiry cas faults).1 = .ok () ∧ σ.handles.lookup id = some h ∧
      Indexes σ σ₁ h flags expiry ∧ Fades σ₁ (σ.apply cfg op) := by
  rcases apply_ledger cfg σ op with hfade | ⟨d, m, expiry, hop, hm, heq⟩ |
      ⟨id, flags, expiry, cas, faults, h, hop, hok, hh, -, hfade⟩
  · exact Or.inl (.of_fading hfade)
  · exact Or.inr (Or.inl ⟨d, m, expiry, hop, hm, congrArg Ledger.index heq,
      congrArg Ledger.anyTtl heq⟩)
  · let l := σ.ledger.put h flags expiry
    let σ₁ : State := { σ with
      index := l.index, history := l.history, etagSeq := l.etagSeq, anyTtl := l.anyTtl }
    refine Or.inr (Or.inr ⟨id, flags, expiry, cas, faults, h, σ₁, hop, hok, hh,
      ⟨⟨_, rfl, rfl, rfl, rfl, rfl⟩, rfl⟩, ?_⟩)
    exact .of_fading (σ := σ₁) hfade

end State

end GoblinStore
