import GoblinStore.Storage.Changes
import GoblinStore.Storage.HeadOwnership

/-!
# The operations act on the head cache by moves

Each operation of the tier manager is a sequence of `Move`s of its head view, a `Pin` or an
`Unpin` (`apply_heads`). Together with the preservation lemmas of the moves this gives the
ownership invariant of every reachable state (`reachable_owned`).
-/

namespace GoblinStore

open GoblinStore.Lib GoblinStore.Core HeadView

/-- A sequence of moves. -/
abbrev Moves : HeadView → HeadView → Prop := Relation.ReflTransGen Move

/-- Numbers of handles and pins that are not yet given out are unused. -/
structure Fresh (σ : State) : Prop where
  handle_lt : ∀ id h, σ.handles.lookup id = some h → id < σ.storeSeq
  pin_lt : ∀ pin r, σ.held.lookup pin = some r → pin < σ.pinSeq

/-- The number that a new store takes has no head reserved. -/
theorem Fresh.unused {σ : State} (h : Fresh σ) : reservedOf σ.handles σ.storeSeq = none := by
  by_contra hne
  obtain ⟨r, hr⟩ := Option.ne_none_iff_exists'.1 hne
  obtain ⟨h', hh', -⟩ := Option.bind_eq_some_iff.1 hr
  exact absurd (h.handle_lt _ _ hh') (Nat.lt_irrefl _)

/-- Unused numbers stay unused. -/
theorem Fresh.change {cfg : Config} {σ σ' : State} {op : Op} (h : Fresh σ)
    (hc : Change cfg σ op σ') :
    Fresh σ' := by
  refine ⟨fun i h' hh' => ?_, fun pin r hr => ?_⟩
  · have hle := hc.store_seq_le
    rcases hc.handle_old hh' with ⟨h₀, hh₀, -⟩ | ⟨rfl, hnext, -⟩
    · exact (h.handle_lt i h₀ hh₀).trans_le hle
    · omega
  · rcases hc.plain with ⟨hop, rfl⟩ | ⟨hheld, hseq, -⟩
    rcases (State.quiet_readers cfg σ hop).held with ⟨hheld, hseq⟩ | ⟨q, hheld, hseq⟩ |
      ⟨other, hheld, hseq⟩
    all_goals
      rw [hheld] at hr
      rw [hseq]
    · exact h.pin_lt pin r hr
    · rcases Table.lookup_insert_some hr with ⟨rfl, -⟩ | ⟨-, hold⟩
      · exact Nat.lt_succ_self _
      · exact (h.pin_lt pin r hold).trans (Nat.lt_succ_self _)
    · exact h.pin_lt pin r (Table.lookup_erase_some hr).2
    · exact h.pin_lt pin r hr

/-- The step takes a pin or gives one back. -/
def Op.pins : Op → Bool
  | .pinHead _ | .unpinHead _ | .openSnapshot _ _ => true
  | _ => false

namespace State

variable {cfg : Config} {σ : State} {d : Digest} {r : Region} {faults : Faults}

/-- Freeing the head of an object that loses it is one move. -/
theorem free_head_move {index : Index} (hd : headsOf σ.index d = some r)
    (hindex : headsOf index = Function.update (headsOf σ.index) d none) :
    Move σ.headView { σ.freeHeadRegion r with index := index }.headView := by
  have hd' : σ.headView.heads d = some r := hd
  have hzero : (∀ p, σ.pins.lookup (regionId r.block r.offset) = some p → p.refcount = 0) →
      Move σ.headView { σ.deallocate r with index := index }.headView := by
    intro hp
    have hmove := Move.free hd' hp
    rw [show σ.headView.heads = headsOf σ.index from rfl, ← hindex] at hmove
    exact hmove
  unfold freeHeadRegion
  cases hp : σ.pins.lookup (regionId r.block r.offset) with
  | none => exact hzero (by simp [hp])
  | some p =>
      dsimp only
      split_ifs with hpos
      · have hmove := Move.orphan hd' hp hpos
        rw [show σ.headView.heads = headsOf σ.index from rfl, ← hindex] at hmove
        exact hmove
      · refine hzero fun p' hp' => ?_
        rw [hp, Option.some.injEq] at hp'
        subst hp'
        omega

variable {id : Nat} {h : StoreHandle}

/-- Rewriting a handle without changing its head leaves the reserved heads alone. -/
theorem reserved_of_insert_same {h' : StoreHandle}
    (hh : σ.handles.lookup id = some h) (hhead : h'.head = h.head) :
    reservedOf (σ.handles.insert id h') = reservedOf σ.handles := by
  rw [reserved_of_insert, Function.update_eq_self_iff]
  simp [reservedOf, hh, hhead]

theorem head_view_of_handles {handles : Table Nat StoreHandle}
    (h : reservedOf handles = reservedOf σ.handles) :
    { σ with handles := handles }.headView = σ.headView := by
  simp only [headView, h]

/-- Copying a chunk into the reserved head is at most one move. -/
theorem fill_head_moves (hh : σ.handles.lookup id = some h)
    (chunk : ByteView) : Moves σ.headView (σ.fillHead h chunk).headView := by
  unfold fillHead
  split
  · exact .refl
  · rename_i r hr
    dsimp only
    split_ifs with hlt
    · have hres : σ.headView.reserved id = some r := by simp [headView, reservedOf, hh, hr]
      exact .single (Move.fill h.off _ chunk.data hres (by omega))
    · exact .refl

variable {op : Op}

/-- A handle that is put back keeps its head; a write may have filled some of it. -/
theorem put_moves {σ' : State} (hh : σ.handles.lookup id = some h)
    (hput : Put cfg σ id h op σ') : Moves σ.headView σ'.headView := by
  have hfill : ∀ chunk, (σ.fillHead h chunk).handles.lookup id = some h := fun chunk => by
    rw [fill_head_eq]
    exact hh
  cases hput with
  | @wrote chunk faults w _ hw =>
      have hhead : (advance w.handle chunk).head = h.head := hw.keeps.same.head
      exact head_view_of_handles
        (reserved_of_insert_same (hfill chunk) hhead) ▸ fill_head_moves hh chunk
  | @unwritten chunk faults w _ hw =>
      have hhead : w.spoil.handle.head = h.head := hw.keeps.same.head
      exact head_view_of_handles
        (reserved_of_insert_same (hfill chunk) hhead) ▸ fill_head_moves hh chunk
  | flushed _ hflush =>
      exact head_view_of_handles (reserved_of_insert_same hh (flush_tail_keeps hflush).same.head) ▸
        .refl
  | @unflushed _ _ _ _ w _ hflush =>
      have hhead : w.spoil.handle.head = h.head := (flush_tail_keeps hflush).same.head
      exact head_view_of_handles (reserved_of_insert_same hh hhead) ▸ .refl

/-- Retiring the old head and installing the new version. -/
theorem install_moves (hh : σ.handles.lookup id = some h) (flags expiry : Nat) (isNew : Bool) :
    Moves σ.headView
      (install (retireHead σ h.digest (σ.index.lookup h.digest))
      id h flags expiry isNew).headView := by
  -- the handle's head, if any, becomes the head of an object without one
  have hpublish : ∀ v : HeadView, v.reserved = reservedOf σ.handles → v.heads h.digest = none →
      Moves v { v with
        heads := Function.update v.heads h.digest h.head
        reserved := reservedOf (σ.handles.erase id) } := by
    intro v hres hnone
    rw [reserved_of_erase, ← hres]
    cases hr : h.head with
    | none =>
        have h1 : Function.update v.heads h.digest none = v.heads :=
          Function.update_eq_self_iff.2 hnone.symm
        have h2 : Function.update v.reserved id none = v.reserved := by
          rw [Function.update_eq_self_iff, hres]
          simp [reservedOf, hh, hr]
        rw [h1, h2]
    | some r =>
        have hid : v.reserved id = some r := by simp [hres, reservedOf, hh, hr]
        exact .single (Move.publish hid hnone)
  cases hold : headsOf σ.index h.digest with
  | none =>
      have hretire : retireHead σ h.digest (σ.index.lookup h.digest) = σ := by
        unfold retireHead
        rw [show (σ.index.lookup h.digest).bind (·.head) = none from hold]
      rw [hretire]
      have hmoves := hpublish σ.headView rfl hold
      rw [show σ.headView.heads = headsOf σ.index from rfl] at hmoves
      simp only [install, headView] at hmoves ⊢
      rw [heads_of_insert]
      exact hmoves
  | some r =>
      have hretire : retireHead σ h.digest (σ.index.lookup h.digest) =
          { σ.freeHeadRegion r with policy := σ.policy.remove h.digest } := by
        unfold retireHead
        rw [show (σ.index.lookup h.digest).bind (·.head) = some r from hold]
        dsimp only
        rw [free_head_region_eq]
      rw [hretire]
      have hfree := free_head_move hold (heads_of_erase σ.index h.digest)
      have hmoves := hpublish { σ.freeHeadRegion r with index := σ.index.erase h.digest }.headView
        (by rw [free_head_region_eq]; rfl) (by simp [headView, heads_of_erase])
      refine (Relation.ReflTransGen.single hfree).trans ?_
      rw [free_head_region_eq] at hmoves ⊢
      simp only [install, headView, heads_of_erase, Function.update_idem] at hmoves ⊢
      rw [heads_of_insert]
      exact hmoves

/-- A change that neither takes nor gives back a pin. -/
theorem change_moves {σ' : State} (hfresh : Fresh σ) (hop : op.pins = false)
    (hc : Change cfg σ op σ') : Moves σ.headView σ'.headView := by
  cases hc with
  | quiet hquiet =>
      cases op with
      | reapScan =>
          simp only [apply, reapScan]
          split_ifs <;> exact .refl
      | touch d => exact .refl
      | clock now => exact .refl
      | pinHead d => cases hop
      | unpinHead pin => cases hop
      | openSnapshot d faults => cases hop
      | _ => exact absurd hquiet id
  | settle => exact .refl
  | @unhead _ victim _ _ _ m r _ hm hr =>
      have hd : headsOf σ.index victim = some r := by simp [headsOf, hm, hr]
      exact .single (free_head_move hd (heads_of_insert _ _ _))
  | @forget _ d m _ _ _ hm =>
      cases hr : m.head with
      | none =>
          -- an object without a head: no head changes
          have hsame : headsOf (σ.index.erase d) = headsOf σ.index := by
            rw [heads_of_erase, Function.update_eq_self_iff]
            simp [headsOf, hm, hr]
          have hview : { σ.headView with heads := headsOf (σ.index.erase d) } = σ.headView := by
            rw [hsame]
            rfl
          exact hview ▸ .refl
      | some r =>
          have hd : headsOf σ.index d = some r := by simp [headsOf, hm, hr]
          exact .single (free_head_move hd (heads_of_erase _ _))
  | @retime d m expiry hm =>
      have hsame : headsOf (σ.index.insert d { m with expiry := expiry }) = headsOf σ.index := by
        rw [heads_of_insert, Function.update_eq_self_iff]
        simp [headsOf, hm]
      simp only [headView, hsame]
      exact .refl
  | opened => exact .refl
  | refused => exact .refl
  | @started d size _ ssd hdd _ stage _ _ _ _ _ _ hhead =>
      rcases hhead with ⟨rfl, rfl, rfl, -⟩ | ⟨r, rfl, halloc, rfl⟩
      · have hsame : reservedOf (σ.handles.insert σ.storeSeq
            ⟨d, cfg.layout size, ssd, hdd, none, stage, 0, 0, 0, ByteView.empty, false⟩) =
            reservedOf σ.handles := by
          rw [reserved_of_insert, Function.update_eq_self_iff, hfresh.unused]
        exact (head_view_of_handles hsame).symm ▸ .refl
      · have hmove := Move.reserve (v := σ.headView) hfresh.unused halloc
        simp only [headView] at hmove ⊢
        rw [reserved_of_insert]
        exact .single hmove
  | put hh hput => exact put_moves hh hput
  | @unpublished id _ _ _ _ h _ hh =>
      have hsame : reservedOf (σ.handles.insert id { h with failed := true }) =
          reservedOf σ.handles := reserved_of_insert_same hh rfl
      exact head_view_of_handles hsame ▸ .refl
  | @installed id flags expiry _ _ h fs hh =>
      exact @install_moves { σ with fs := fs } id h hh flags expiry (σ.index.lookup h.digest).isNone
  | @closed id _ h hh =>
      cases hr : h.head with
      | none =>
          have hsame : reservedOf (σ.handles.erase id) = reservedOf σ.handles := by
            rw [reserved_of_erase, Function.update_eq_self_iff]
            simp [reservedOf, hh, hr]
          exact (head_view_of_handles hsame).symm ▸ .refl
      | some r =>
          have hmove := Move.abandon (v := σ.headView) (show reservedOf σ.handles id = some r by
            simp [reservedOf, hh, hr])
          rw [show σ.headView.reserved = reservedOf σ.handles from rfl,
            ← reserved_of_erase] at hmove
          exact .single hmove

/-! ## Pins -/

/-- Pinning the resident head of an object counts a reader. -/
theorem pin_region_pin {m : ObjectMeta} (hfresh : Fresh σ) (hm : σ.index.lookup d = some m)
    (hr : m.head = some r) :
    Pin σ.headView (pinRegion { σ with
      objectPolicy := σ.objectPolicy.touch d, policy := σ.policy.touch d } r).headView := by
  have hpin : σ.pinSeq ∉ σ.headView.held := by
    intro hmem
    obtain ⟨q, hq⟩ := Table.mem_iff_lookup.1 hmem
    exact absurd (hfresh.pin_lt _ _ hq) (Nat.lt_irrefl _)
  exact Pin.mk (v := σ.headView) (Option.bind_eq_some_iff.2 ⟨m, hm, hr⟩) hpin

theorem pin_head_step (hfresh : Fresh σ) (d : Digest) :
    (pinHead σ d).2.headView = σ.headView ∨ Pin σ.headView (pinHead σ d).2.headView := by
  unfold pinHead
  cases hm : σ.index.lookup d with
  | none => exact Or.inl rfl
  | some m =>
      cases hr : m.head with
      | none => simp only [hr]; exact Or.inl rfl
      | some r =>
          simp only [hr]
          exact Or.inr (pin_region_pin hfresh hm hr)

theorem open_snapshot_step (hfresh : Fresh σ) (d : Digest) (faults : Faults) :
    (openSnapshot cfg σ d faults).2.headView = σ.headView ∨
      Pin σ.headView (openSnapshot cfg σ d faults).2.headView := by
  unfold openSnapshot
  cases hm : σ.index.lookup d with
  | none => exact Or.inl rfl
  | some m =>
      dsimp only
      split_ifs
      · exact Or.inl rfl
      · split
        · exact Or.inl rfl
        · cases hr : m.head with
          | none => exact Or.inl rfl
          | some r => exact Or.inr (pin_region_pin hfresh hm hr)

theorem unpin_head_step {own : Region → Option Owner} (how : Owned σ.headView own) (pin : Nat) :
    σ.unpinHead pin = σ ∨ Unpin pin σ.headView (σ.unpinHead pin).headView := by
  unfold unpinHead
  cases hheld : σ.held.lookup pin with
  | none => exact Or.inl rfl
  | some r =>
      obtain ⟨-, p, hp⟩ := how.held_pinned pin r hheld
      have hp' : σ.pins.lookup (regionId r.block r.offset) = some p := hp
      refine Or.inr ?_
      simp only [hp']
      split_ifs with hlast horphan
      · exact Unpin.lastOrphan hheld hp hlast horphan
      · exact Unpin.last hheld hp hlast (by simpa using horphan)
      · exact Unpin.keep hheld hp hlast

/-- A step that neither takes nor gives back a pin. -/
theorem apply_moves (hfresh : Fresh σ) (hop : op.pins = false) :
    Moves σ.headView (σ.apply cfg op).headView := by
  refine (Change.invariant (P := fun σ' => Fresh σ' ∧ Moves σ.headView σ'.headView) ?_
    ⟨hfresh, .refl⟩).2
  rintro σ₁ σ₂ ⟨hfresh₁, hmoves⟩ hc
  exact ⟨hfresh₁.change hc, hmoves.trans (change_moves hfresh₁ hop hc)⟩

/-- One step of the tier manager, seen from the head cache. -/
theorem apply_heads {own : Region → Option Owner} (hfresh : Fresh σ)
    (how : Owned σ.headView own) (op : Op) :
    Moves σ.headView (σ.apply cfg op).headView ∨ Pin σ.headView (σ.apply cfg op).headView ∨
      ∃ pin, op = .unpinHead pin ∧ Unpin pin σ.headView (σ.apply cfg op).headView := by
  cases op with
  | pinHead d =>
      rcases pin_head_step hfresh d with heq | hpin
      · exact Or.inl (heq ▸ .refl)
      · exact Or.inr (Or.inl hpin)
  | unpinHead pin =>
      rcases unpin_head_step how pin with heq | hunpin
      · refine Or.inl ?_
        rw [apply, heq]
      · exact Or.inr (Or.inr ⟨pin, rfl, hunpin⟩)
  | openSnapshot d faults =>
      rcases @open_snapshot_step cfg σ hfresh d faults with heq | hpin
      · exact Or.inl (heq ▸ .refl)
      · exact Or.inr (Or.inl hpin)
  | _ => exact Or.inl (apply_moves hfresh rfl)

end State

end GoblinStore
