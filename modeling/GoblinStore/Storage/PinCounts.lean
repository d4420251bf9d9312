import GoblinStore.Storage.HeadCache

/-!
# Counting pins

The entry of a region in `pins_` counts the pins on it that have not been given back. Regions are
told apart by their key in the table only, so that nothing is assumed about the pool.
-/

namespace GoblinStore

open GoblinStore.Lib GoblinStore.Core HeadView

/-- The reference count of a region in the pin table. -/
def refcount (pins : Table Nat RegionPin) (k : Nat) : Nat :=
  ((pins.lookup k).map (·.refcount)).getD 0

theorem refcount_insert (pins : Table Nat RegionPin) (k k' : Nat) (p : RegionPin) :
    refcount (pins.insert k p) k' = if k' = k then p.refcount else refcount pins k' := by
  unfold refcount
  rw [Table.lookup_insert]
  split_ifs <;> rfl

theorem refcount_erase (pins : Table Nat RegionPin) (k k' : Nat) :
    refcount (pins.erase k) k' = if k' = k then 0 else refcount pins k' := by
  unfold refcount
  rw [Table.lookup_erase]
  split_ifs <;> rfl

/-- The pin table counts the pins that are held, and has no entry without one. -/
structure PinCounts (pins : Table Nat RegionPin) (held : Table Nat Region) : Prop where
  counted : ∀ k, refcount pins k = held.values.countP fun r => r.id = k
  positive : ∀ k p, pins.lookup k = some p → 0 < p.refcount

namespace PinCounts

variable {cfg : Config} {σ : State} {v v' : HeadView} {pins : Table Nat RegionPin}
  {held : Table Nat Region}

theorem init (cfg : Config) : PinCounts (State.init cfg).pins (State.init cfg).held :=
  ⟨fun _ => rfl, nofun⟩

/-- A move of the head cache leaves the counts alone. -/
theorem move (h : PinCounts v.pins v.held) (hmove : Move v v') :
    v'.held = v.held ∧ PinCounts v'.pins v'.held := by
  cases hmove with
  | @orphan d r p _ hp hpos =>
      refine ⟨rfl, fun k => ?_, fun k q hq => ?_⟩
      · rw [refcount_insert]
        split_ifs with hk
        · rw [← h.counted k, hk, refcount, hp]
          rfl
        · exact h.counted k
      · change (v.pins.insert r.id { p with orphaned := true }).lookup k = some q at hq
        rw [Table.lookup_insert] at hq
        split_ifs at hq
        · cases hq
          exact hpos
        · exact h.positive k q hq
  | _ => exact ⟨rfl, h⟩

theorem moves (h : PinCounts v.pins v.held) (hmoves : Moves v v') :
    v'.held = v.held ∧ PinCounts v'.pins v'.held := by
  induction hmoves with
  | refl => exact ⟨rfl, h⟩
  | tail _ hmove ih =>
      obtain ⟨hheld, hcounts⟩ := ih.2.move hmove
      exact ⟨hheld.trans ih.1, hcounts⟩

/-- A step that has nothing to do with pins. -/
theorem apply (h : PinCounts σ.pins σ.held) (hfresh : Fresh σ) {op : Op} (hop : op.pins = false) :
    (σ.apply cfg op).held = σ.held ∧ PinCounts (σ.apply cfg op).pins (σ.apply cfg op).held :=
  moves (v := σ.headView) h (State.apply_moves hfresh hop)

theorem pin_region (h : PinCounts σ.pins σ.held) (hfresh : Fresh σ) (r : Region) :
    (σ.pinRegion r).held.pairs = (σ.pinSeq, r) :: σ.held.pairs ∧
      PinCounts (σ.pinRegion r).pins (σ.pinRegion r).held := by
  have hnew : σ.pinSeq ∉ σ.held := fun hmem => by
    obtain ⟨q, hq⟩ := Table.mem_iff_lookup.1 hmem
    exact Nat.lt_irrefl _ (hfresh.pin_lt _ _ hq)
  have hpairs : (σ.held.insert σ.pinSeq r).pairs = (σ.pinSeq, r) :: σ.held.pairs := by
    rw [Table.pairs_insert, Table.erase_of_not_mem hnew]
  refine ⟨hpairs, fun k => ?_, fun k p hp => ?_⟩
  · have hvalues : (σ.held.insert σ.pinSeq r).values = r :: σ.held.values := by
      rw [Table.values_insert, Table.erase_of_not_mem hnew]
    show refcount (σ.pins.insert r.id _) k = (σ.held.insert σ.pinSeq r).values.countP _
    rw [hvalues, refcount_insert, List.countP_cons, ← h.counted k]
    split_ifs with hk hid hid
    · have hold : refcount σ.pins r.id = ((σ.pins.lookup r.id).getD ⟨0, 0, false⟩).refcount := by
        unfold refcount
        cases σ.pins.lookup r.id <;> rfl
      rw [hk, hold]
      rfl
    · exact absurd hk.symm (by simpa using hid)
    · exact absurd (of_decide_eq_true hid).symm hk
    · rfl
  · change (σ.pins.insert r.id _).lookup k = some p at hp
    rw [Table.lookup_insert] at hp
    split_ifs at hp
    · cases hp
      exact Nat.succ_pos _
    · exact h.positive k p hp

/-- A pin is given back. -/
theorem unpin_head (h : PinCounts σ.pins σ.held) {pin : Nat} {r : Region}
    (hheld : σ.held.lookup pin = some r) :
    (σ.unpinHead pin).held = σ.held.erase pin ∧
      PinCounts (σ.unpinHead pin).pins (σ.unpinHead pin).held := by
  have hcount : ∀ k, refcount σ.pins k =
      (σ.held.erase pin).values.countP (fun q => q.id = k) + if k = r.id then 1 else 0 := by
    intro k
    rw [h.counted k, (Table.values_perm hheld).countP_eq, List.countP_cons]
    simp only [decide_eq_true_eq, @eq_comm _ r.id k]
  cases hp : σ.pins.lookup r.id with
  | none =>
      have hself := hcount r.id
      rw [refcount, hp, if_pos rfl] at hself
      exact absurd hself (Nat.succ_ne_zero _).symm
  | some p =>
      have hself := hcount r.id
      rw [refcount, hp, if_pos rfl] at hself
      have hcases : (p.refcount - 1 = 0 ∧ (σ.unpinHead pin).pins = σ.pins.erase r.id ∨
          p.refcount - 1 ≠ 0 ∧
            (σ.unpinHead pin).pins = σ.pins.insert r.id { p with refcount := p.refcount - 1 }) ∧
          (σ.unpinHead pin).held = σ.held.erase pin := by
        unfold State.unpinHead
        rw [hheld]
        dsimp only
        rw [show σ.pins.lookup (regionId r.block r.offset) = some p from hp]
        dsimp only
        split_ifs with hlast horphan
        · exact ⟨Or.inl ⟨hlast, rfl⟩, rfl⟩
        · exact ⟨Or.inl ⟨hlast, rfl⟩, rfl⟩
        · exact ⟨Or.inr ⟨hlast, rfl⟩, rfl⟩
      obtain ⟨hpins, hheld'⟩ := hcases
      refine ⟨hheld', ?_⟩
      rw [hheld']
      rcases hpins with ⟨hlast, heq⟩ | ⟨hmore, heq⟩ <;> rw [heq]
      · refine ⟨fun k => ?_, fun k q hq => ?_⟩
        · have hk := hcount k
          rw [refcount_erase]
          split_ifs at hk ⊢ with hid
          · subst hid
            change p.refcount = _ at hself
            omega
          · exact hk
        · rw [Table.lookup_erase] at hq
          split_ifs at hq
          exact h.positive k q hq
      · refine ⟨fun k => ?_, fun k q hq => ?_⟩
        · have hk := hcount k
          rw [refcount_insert]
          split_ifs at hk ⊢ with hid
          · subst hid
            change p.refcount = _ at hself
            show p.refcount - 1 = _
            omega
          · exact hk
        · rw [Table.lookup_insert] at hq
          split_ifs at hq
          · cases hq
            exact Nat.pos_of_ne_zero hmore
          · exact h.positive k q hq

/-- Without a pin that is held the table is empty. -/
theorem none_held (h : PinCounts pins held) (hheld : held.values = []) (k : Nat) :
    pins.lookup k = none := by
  have hcount := h.counted k
  rw [hheld, List.countP_nil] at hcount
  cases hp : pins.lookup k with
  | none => rfl
  | some p =>
      have hpos := h.positive k p hp
      rw [refcount, hp] at hcount
      change p.refcount = 0 at hcount
      omega

end PinCounts

end GoblinStore
