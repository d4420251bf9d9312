import Mathlib.Data.Finset.Card
import Mathlib.Logic.Function.Basic
import GoblinStore.Storage.HeadCache
import GoblinStore.Storage.StageBuffers

/-!
# The variables that hold store handles

`StoreHandle` is a move-only class: callers keep its objects in variables, move them from one
variable to another and destroy them. `HandleScope` is a tier manager together with these variables.
An uncommitted handle in a variable stands for an entry of the tier manager's handle table; its
staging buffer goes where the variable's object goes, and back to the pool with the commit that
succeeds or with the destructor of an uncommitted object.
-/

namespace GoblinStore

open GoblinStore.Lib GoblinStore.Core

/-- The object in a variable of type `StoreHandle`. -/
inductive HandleVar where
  /-- `tm_` is set and `committed_` is not: store number `id` is open -/
  | uncommitted (id : Nat)
  /-- `committed_` is set -/
  | committed
  /-- `tm_` is null -/
  | movedFrom

/-- The number of the store that is open in a variable. -/
def HandleVar.open? : HandleVar → Option Nat
  | .uncommitted id => some id
  | _ => none

/-- A tier manager and the `StoreHandle` variables of its callers. -/
structure HandleScope where
  store : State
  vars : Table Nat HandleVar

/-- What callers do with handles. `call` is any other operation of the tier manager. A moved-from
object, and one whose commit has succeeded, is only moved, assigned to or destroyed: no caller
writes to it or commits it again, and such a `write` or `commit` is an action without effect. -/
inductive HandleOp where
  | beginStore (x : Nat) (d : Digest) (size : Nat) (faults : Faults)
  | write (x : Nat) (chunk : ByteView) (faults : Faults)
  | commit (x flags expiry casExpected : Nat) (faults : Faults)
  | destroy (x : Nat) (faults : Faults)
  | moveConstruct (x y : Nat)
  | moveAssign (x y : Nat) (faults : Faults)
  | call (op : Op) (quiet : op.NoStore)

namespace HandleScope

variable (cfg : Config) (s : HandleScope)

/-- No handle has been made. -/
def init : HandleScope := ⟨State.init cfg, ∅⟩

/-- The number of the store that is open in variable `x`. -/
def open? (x : Nat) : Option Nat := (s.vars.lookup x).bind HandleVar.open?

/-- The fields of the uncommitted handle in variable `x`. -/
def handle? (x : Nat) : Option StoreHandle :=
  (s.open? x).bind s.store.handles.lookup

/-- The variables with a live uncommitted handle. -/
def uncommitted : Finset Nat := s.vars.keySet.filter fun x => (s.open? x).isSome

/-- `abort_uncommitted` on the object in variable `x`. -/
def abortUncommitted (x : Nat) (faults : Faults) : State :=
  match s.open? x with
  | some id => s.store.abort cfg id faults
  | none => s.store

/-- `commit` on the object in variable `x`. -/
def commit (x flags expiry casExpected : Nat) (faults : Faults) :
    HandleScope :=
  match s.open? x with
  | some id =>
      match s.store.commit cfg id flags expiry casExpected faults with
      | (.ok (), σ) => ⟨σ, s.vars.insert x .committed⟩
      | (.error _, σ) => { s with store := σ }
  | none => s

/-- The scope after one action. -/
def apply : HandleOp → HandleScope
  | .beginStore x d size faults =>
      match s.vars.lookup x, s.store.beginStore cfg d size faults with
      | some _, _ => s
      | none, (.ok id, σ) => ⟨σ, s.vars.insert x (.uncommitted id)⟩
      | none, (.error _, σ) => { s with store := σ }
  | .write x chunk faults =>
      match s.open? x with
      | some id => { s with store := (s.store.write cfg id chunk faults).2 }
      | none => s
  | .commit x flags expiry casExpected faults => commit cfg s x flags expiry casExpected faults
  | .destroy x faults => ⟨s.abortUncommitted cfg x faults, s.vars.erase x⟩
  | .moveConstruct x y =>
      match s.vars.lookup x, s.vars.lookup y with
      | none, some v => { s with vars := (s.vars.insert x v).insert y .movedFrom }
      | _, _ => s
  | .moveAssign x y faults =>
      match s.vars.lookup x, s.vars.lookup y with
      | some _, some v =>
          if x = y then s
          else ⟨s.abortUncommitted cfg x faults, (s.vars.insert x v).insert y .movedFrom⟩
      | _, _ => s
  | .call op _ => { s with store := s.store.apply cfg op }

/-- The scope after a run of actions. -/
def after (ops : List HandleOp) : HandleScope := run (apply cfg) (init cfg) ops

end HandleScope

/-! ## Which variable owns which store -/

/-- Every open store is in one variable, and every open variable has its store. -/
structure OpenIn (opened : Nat → Option Nat) (handles : Table Nat StoreHandle) : Prop where
  live : ∀ x id, opened x = some id → id ∈ handles
  one : ∀ x y id, opened x = some id → opened y = some id → x = y
  held : ∀ id, id ∈ handles → ∃ x, opened x = some id

namespace OpenIn

variable {opened : Nat → Option Nat} {handles : Table Nat StoreHandle} {x y id : Nat}

theorem keys (h : OpenIn opened handles) {handles' : Table Nat StoreHandle}
    (hkeys : ∀ id, id ∈ handles' ↔ id ∈ handles) : OpenIn opened handles' where
  live x id hx := (hkeys id).2 (h.live x id hx)
  one := h.one
  held id hid := h.held id ((hkeys id).1 hid)

/-- A new store comes into a variable. -/
theorem take (h : OpenIn opened handles) (hx : opened x = none) (hid : id ∉ handles)
    (h₀ : StoreHandle) : OpenIn (Function.update opened x (some id)) (handles.insert id h₀) where
  live z i hz := by
    rw [Function.update_apply] at hz
    split_ifs at hz
    · exact Table.mem_insert.2 (Or.inl (Option.some.inj hz).symm)
    · exact Table.mem_insert.2 (Or.inr (h.live z i hz))
  one z w i hz hw := by
    rw [Function.update_apply] at hz hw
    split_ifs at hz hw with hzx hwx hwx
    · rw [hzx, hwx]
    · cases hz
      exact absurd (h.live w id hw) hid
    · cases hw
      exact absurd (h.live z id hz) hid
    · exact h.one z w i hz hw
  held i hi := by
    rcases Table.mem_insert.1 hi with rfl | hi
    · exact ⟨x, Function.update_self ..⟩
    · obtain ⟨z, hz⟩ := h.held i hi
      have hne : z ≠ x := by
        rintro rfl
        cases hx.symm.trans hz
      exact ⟨z, (Function.update_of_ne hne ..).trans hz⟩

/-- The store of a variable is closed. -/
theorem give (h : OpenIn opened handles) (hx : opened x = some id) :
    OpenIn (Function.update opened x none) (handles.erase id) where
  live z i hz := by
    rw [Function.update_apply] at hz
    split_ifs at hz with hzx
    refine Table.mem_erase.2 ⟨?_, h.live z i hz⟩
    rintro rfl
    exact hzx (h.one z x i hz hx)
  one z w i hz hw := by
    rw [Function.update_apply] at hz hw
    split_ifs at hz hw
    exact h.one z w i hz hw
  held i hi := by
    obtain ⟨hne, hi⟩ := Table.mem_erase.1 hi
    obtain ⟨z, hz⟩ := h.held i hi
    have hzx : z ≠ x := by
      rintro rfl
      exact hne (Option.some.inj (hz.symm.trans hx))
    exact ⟨z, (Function.update_of_ne hzx ..).trans hz⟩

/-- The store of `y` goes to `x`. -/
theorem pass (h : OpenIn opened handles) (hx : opened x = none) (hxy : x ≠ y) :
    OpenIn (Function.update (Function.update opened x (opened y)) y none) handles where
  live z i hz := by
    rw [Function.update_apply, Function.update_apply] at hz
    split_ifs at hz
    · exact h.live y i hz
    · exact h.live z i hz
  one z w i hz hw := by
    rw [Function.update_apply, Function.update_apply] at hz hw
    split_ifs at hz hw with hzy hzx hwy hwx hwy hwx
    · rw [hzx, hwx]
    · exact absurd (h.one w y i hw hz) hwy
    · exact absurd (h.one z y i hz hw) hzy
    · exact h.one z w i hz hw
  held i hi := by
    obtain ⟨z, hz⟩ := h.held i hi
    by_cases hzy : z = y
    · refine ⟨x, ?_⟩
      rw [Function.update_of_ne hxy, Function.update_self, ← hzy, hz]
    · have hzx : z ≠ x := by
        rintro rfl
        cases hx.symm.trans hz
      exact ⟨z, by rw [Function.update_of_ne hzy, Function.update_of_ne hzx, hz]⟩

end OpenIn

/-! ## Conservation -/

/-- The staging buffers are conserved: each is free or with one uncommitted handle. A buffer
released twice would be free twice, or free and held. -/
structure StagesConserved (cfg : Config) (s : HandleScope) : Prop where
  count : s.store.writePool.free.length + s.uncommitted.card = cfg.writeBuffers
  held : ∀ x ∈ s.uncommitted, ∃ h, s.handle? x = some h
  unshared : ∀ x y h h', s.handle? x = some h → s.handle? y = some h' → h.stage = h'.stage → x = y
  once : s.store.writePool.free.Nodup ∧ ∀ x h, s.handle? x = some h →
    h.stage ∉ s.store.writePool.free

/-- Free buffers and open stores together are as many as the pool has buffers. -/
def StageTally (n : Nat) (σ : State) : Prop := σ.writePool.free.length + σ.handles.keySet.card = n

namespace StageTally

variable {n : Nat} {σ σ' : State} {id : Nat} {h₀ : StoreHandle}

theorem take (h : StageTally n σ) (hid : id ∉ σ.handles)
    (hacq : σ.writePool.acquire = some (h₀.stage, σ'.writePool))
    (hhandles : σ'.handles = σ.handles.insert id h₀) : StageTally n σ' := by
  have hfree : σ'.writePool.free.length + 1 = σ.writePool.free.length := by
    rw [← release_acquire hacq, BlockPool.release, List.length_append, List.length_singleton]
  have hcard : σ'.handles.keySet.card = σ.handles.keySet.card + 1 := by
    rw [hhandles, Table.key_set_insert]
    exact Finset.card_insert_of_notMem (mt Table.mem_key_set.1 hid)
  unfold StageTally at h ⊢
  omega

theorem give (h : StageTally n σ) (hh : σ.handles.lookup id = some h₀)
    (hpool : σ'.writePool = σ.writePool.release h₀.stage)
    (hhandles : σ'.handles = σ.handles.erase id) : StageTally n σ' := by
  have hmem : id ∈ σ.handles.keySet := Table.mem_key_set_iff_lookup.2 ⟨h₀, hh⟩
  have hfree : σ'.writePool.free.length = σ.writePool.free.length + 1 := by
    rw [hpool, BlockPool.release, List.length_append, List.length_singleton]
  have hcard : σ'.handles.keySet.card + 1 = σ.handles.keySet.card := by
    rw [hhandles, Table.key_set_erase]
    exact Finset.card_erase_add_one hmem
  unfold StageTally at h ⊢
  omega

theorem keys (h : StageTally n σ) (hpool : σ'.writePool = σ.writePool)
    (hkeys : ∀ id, id ∈ σ'.handles ↔ id ∈ σ.handles) : StageTally n σ' := by
  have hset : σ'.handles.keySet = σ.handles.keySet := by
    ext id
    rw [Table.mem_key_set, Table.mem_key_set, hkeys]
  rw [StageTally, hpool, hset]
  exact h

end StageTally

/-- A handle that is rewritten stays open. -/
theorem put_keys {handles handles' : Table Nat StoreHandle} {id : Nat}
    (h : handles' = handles ∨ ∃ h₀ h₁ : StoreHandle, handles.lookup id = some h₀ ∧
      h₁.stage = h₀.stage ∧ handles' = handles.insert id h₁) (i : Nat) :
    i ∈ handles' ↔ i ∈ handles := by
  obtain rfl | ⟨h₀, h₁, hh, -, rfl⟩ := h
  · rfl
  · rw [Table.mem_insert]
    refine ⟨?_, Or.inr⟩
    rintro (rfl | hi)
    · exact Table.mem_iff_lookup.2 ⟨h₀, hh⟩
    · exact hi

/-- What every run keeps: store numbers are fresh, buffers are apart and counted, and every open
store is in one variable. -/
structure ScopeInv (cfg : Config) (s : HandleScope) : Prop where
  fresh : Fresh s.store
  stage : StageInv s.store
  tally : StageTally cfg.writeBuffers s.store
  opened : OpenIn s.open? s.store.handles

namespace ScopeInv

variable {cfg : Config} {s : HandleScope} {faults : Faults} {x y : Nat}

theorem open_insert (s : HandleScope) (σ : State) (x : Nat) (v : HandleVar) :
    HandleScope.open? ⟨σ, s.vars.insert x v⟩ = Function.update s.open? x v.open? := by
  funext z
  rw [Function.update_apply, HandleScope.open?, Table.lookup_insert]
  split_ifs <;> rfl

theorem open_erase (s : HandleScope) (σ : State) (x : Nat) :
    HandleScope.open? ⟨σ, s.vars.erase x⟩ = Function.update s.open? x none := by
  funext z
  rw [Function.update_apply, HandleScope.open?, Table.lookup_erase]
  split_ifs <;> rfl

theorem open_move {v : HandleVar} {σ : State} (hy : s.vars.lookup y = some v) :
    HandleScope.open? ⟨σ, (s.vars.insert x v).insert y .movedFrom⟩ =
      Function.update (Function.update s.open? x (s.open? y)) y none := by
  have hopen : s.open? y = v.open? := by rw [HandleScope.open?, hy]; rfl
  rw [open_insert ⟨σ, s.vars.insert x v⟩ σ y .movedFrom, open_insert, hopen]
  rfl

theorem init (cfg : Config) : ScopeInv cfg (HandleScope.init cfg) where
  fresh := ⟨by rintro id h ⟨⟩, by rintro pin r ⟨⟩⟩
  stage := StageInv.init cfg
  tally := by
    show (List.range cfg.writeBuffers).reverse.length + 0 = cfg.writeBuffers
    rw [List.length_reverse, List.length_range, Nat.add_zero]
  opened := ⟨by rintro z i ⟨⟩, by rintro z w i ⟨⟩, by rintro i ⟨⟩⟩

/-- An operation that opens and closes no store. -/
theorem keep (h : ScopeInv cfg s) {σ : State} (hfresh : Fresh σ) (hstage : StageInv σ)
    (hpool : σ.writePool = s.store.writePool)
    (hkeys : ∀ id, id ∈ σ.handles ↔ id ∈ s.store.handles) :
    ScopeInv cfg { s with store := σ } where
  fresh := hfresh
  stage := hstage
  tally := h.tally.keys hpool hkeys
  opened := h.opened.keys hkeys

/-- The object of `x` aborts; whatever the variable holds next is no open store. -/
theorem abort_uncommitted (h : ScopeInv cfg s) (x : Nat) (faults : Faults) :
    Fresh (s.abortUncommitted cfg x faults) ∧ StageInv (s.abortUncommitted cfg x faults) ∧
    StageTally cfg.writeBuffers (s.abortUncommitted cfg x faults) ∧
    OpenIn (Function.update s.open? x none) (s.abortUncommitted cfg x faults).handles := by
  unfold HandleScope.abortUncommitted
  cases hx : s.open? x with
  | none =>
      refine ⟨h.fresh, h.stage, h.tally, ?_⟩
      have hsame : Function.update s.open? x none = s.open? := by rw [← hx, Function.update_eq_self]
      rw [hsame]
      exact h.opened
  | some id =>
      refine ⟨Fresh.apply h.fresh (.abort id faults), h.stage.apply (.abort id faults), ?_⟩
      rcases State.abort_stages cfg s.store id faults with ⟨hnone, -⟩ | ⟨h₀, hh, hpool, hhandles⟩
      · exact absurd (h.opened.live x id hx) (Table.lookup_eq_none.1 hnone)
      · refine ⟨h.tally.give hh hpool hhandles, ?_⟩
        dsimp only
        rw [hhandles]
        exact h.opened.give hx

theorem commit (h : ScopeInv cfg s) (x flags expiry cas : Nat) (faults : Faults) :
    ScopeInv cfg (s.commit cfg x flags expiry cas faults) := by
  unfold HandleScope.commit
  cases hopen : s.open? x with
  | none => exact h
  | some id =>
      have hfresh : Fresh (s.store.commit cfg id flags expiry cas faults).2 :=
        Fresh.apply h.fresh (.commit id flags expiry cas faults)
      have hstage : StageInv (s.store.commit cfg id flags expiry cas faults).2 :=
        h.stage.apply (.commit id flags expiry cas faults)
      have hstages := State.commit_stages cfg s.store id flags expiry cas faults
      dsimp only
      cases hc : s.store.commit cfg id flags expiry cas faults with
      | mk reply σ =>
          rw [hc] at hfresh hstage hstages
          rcases hstages with ⟨e, rfl, hpool, hput⟩ | ⟨h₀, rfl, hh, hpool, hhandles⟩
          · exact h.keep hfresh hstage hpool (put_keys hput)
          · refine ⟨hfresh, hstage, h.tally.give hh hpool hhandles, ?_⟩
            rw [open_insert]
            dsimp only at hhandles ⊢
            rw [hhandles]
            exact h.opened.give hopen

theorem begin_store (h : ScopeInv cfg s) (x : Nat) (d : Digest) (size : Nat) (faults : Faults) :
    ScopeInv cfg (s.apply cfg (.beginStore x d size faults)) := by
  simp only [HandleScope.apply]
  cases hx : s.vars.lookup x with
  | some v => exact h
  | none =>
      have hfresh : Fresh (s.store.beginStore cfg d size faults).2 :=
        Fresh.apply h.fresh (.beginStore d size faults)
      have hstage : StageInv (s.store.beginStore cfg d size faults).2 :=
        h.stage.apply (.beginStore d size faults)
      have hnew : s.store.storeSeq ∉ s.store.handles := by
        intro hmem
        obtain ⟨h₀, hh⟩ := Table.mem_iff_lookup.1 hmem
        exact absurd (h.fresh.handle_lt _ h₀ hh) (lt_irrefl _)
      have hstages := State.begin_store_stages cfg s.store d size faults
      cases hc : s.store.beginStore cfg d size faults with
      | mk reply σ =>
          rw [hc] at hfresh hstage hstages
          rcases hstages with ⟨e, rfl, hpool, hhandles⟩ | ⟨h₀, rfl, hacq, hhandles, -⟩
          · exact h.keep hfresh hstage hpool fun i => by rw [hhandles]
          · refine ⟨hfresh, hstage, h.tally.take hnew hacq hhandles, ?_⟩
            have hopen : s.open? x = none := by rw [HandleScope.open?, hx]; rfl
            rw [open_insert]
            dsimp only at hhandles ⊢
            rw [hhandles]
            exact h.opened.take hopen hnew h₀

/-- Every action keeps the invariant. -/
theorem apply (h : ScopeInv cfg s) (op : HandleOp) : ScopeInv cfg (s.apply cfg op) := by
  cases op with
  | beginStore x d size faults => exact h.begin_store x d size faults
  | commit x flags expiry cas faults => exact h.commit x flags expiry cas faults
  | write x chunk faults =>
      simp only [HandleScope.apply]
      cases s.open? x with
      | none => exact h
      | some id =>
          obtain ⟨hpool, hput⟩ := State.write_stages cfg s.store id chunk faults
          exact h.keep (Fresh.apply h.fresh (.write id chunk faults))
            (h.stage.apply (.write id chunk faults))
            hpool (put_keys hput)
  | destroy x faults =>
      obtain ⟨hfresh, hstage, htally, hopened⟩ := h.abort_uncommitted x faults
      refine ⟨hfresh, hstage, htally, ?_⟩
      simp only [HandleScope.apply]
      rw [open_erase]
      exact hopened
  | moveConstruct x y =>
      simp only [HandleScope.apply]
      cases hx : s.vars.lookup x with
      | some v => exact h
      | none =>
          cases hy : s.vars.lookup y with
          | none => exact h
          | some v =>
              have hxy : x ≠ y := by
                rintro rfl
                cases hx.symm.trans hy
              have hopen : s.open? x = none := by rw [HandleScope.open?, hx]; rfl
              refine { h with opened := ?_ }
              rw [open_move hy]
              exact h.opened.pass hopen hxy
  | moveAssign x y faults =>
      simp only [HandleScope.apply]
      cases hx : s.vars.lookup x with
      | none => exact h
      | some w =>
          cases hy : s.vars.lookup y with
          | none => exact h
          | some v =>
              dsimp only
              split_ifs with hxy
              · exact h
              · -- the store that the target had open is rolled back first
                obtain ⟨hfresh, hstage, htally, hopened⟩ := h.abort_uncommitted x faults
                refine ⟨hfresh, hstage, htally, ?_⟩
                have hpass := hopened.pass (Function.update_self ..) hxy
                rw [Function.update_idem, Function.update_of_ne (Ne.symm hxy)] at hpass
                rw [open_move hy]
                exact hpass
  | call op hquiet =>
      obtain ⟨hpool, hhandles⟩ := State.no_store_stages cfg s.store hquiet
      exact h.keep (Fresh.apply h.fresh op) (h.stage.apply op) hpool fun i => by rw [hhandles]

/-- The uncommitted handles are as many as the open stores. -/
theorem card_uncommitted (h : ScopeInv cfg s) :
    s.uncommitted.card = s.store.handles.keySet.card := by
  have hopen : ∀ z, z ∈ s.uncommitted ↔ ∃ id, s.open? z = some id := by
    intro z
    rw [HandleScope.uncommitted, Finset.mem_filter, Option.isSome_iff_exists]
    refine ⟨fun hz => hz.2, fun ⟨id, hz⟩ => ⟨?_, id, hz⟩⟩
    obtain ⟨v, hv, -⟩ := Option.bind_eq_some_iff.1 hz
    exact Table.mem_key_set_iff_lookup.2 ⟨v, hv⟩
  refine Finset.card_bij (fun z hz => ((hopen z).1 hz).choose) ?_ ?_ ?_
  · intro z hz
    exact Table.mem_key_set.2 (h.opened.live z _ ((hopen z).1 hz).choose_spec)
  · intro z hz w hw hsame
    refine h.opened.one z w _ ((hopen z).1 hz).choose_spec ?_
    rw [hsame]
    exact ((hopen w).1 hw).choose_spec
  · intro id hid
    obtain ⟨z, hz⟩ := h.opened.held id (Table.mem_key_set.1 hid)
    refine ⟨z, (hopen z).2 ⟨id, hz⟩, ?_⟩
    exact Option.some.inj (((hopen z).1 ((hopen z).2 ⟨id, hz⟩)).choose_spec.symm.trans hz)

theorem conserved (h : ScopeInv cfg s) : StagesConserved cfg s where
  count := by
    rw [h.card_uncommitted]
    exact h.tally
  held z hz := by
    obtain ⟨id, hid⟩ := Option.isSome_iff_exists.1 (Finset.mem_filter.1 hz).2
    obtain ⟨h₀, hh⟩ := Table.mem_iff_lookup.1 (h.opened.live z id hid)
    exact ⟨h₀, by rw [HandleScope.handle?, hid]; exact hh⟩
  unshared z w h₁ h₂ hz hw hsame := by
    obtain ⟨i, hi, hi'⟩ := Option.bind_eq_some_iff.1 hz
    obtain ⟨j, hj, hj'⟩ := Option.bind_eq_some_iff.1 hw
    obtain rfl := h.stage.distinct i j h₁ h₂ hi' hj' hsame
    exact h.opened.one z w i hi hj
  once := by
    refine ⟨h.stage.nodup, fun z h₀ hz => ?_⟩
    obtain ⟨i, -, hi'⟩ := Option.bind_eq_some_iff.1 hz
    exact h.stage.used i h₀ hi'

end ScopeInv

/-- In every run the staging buffers are conserved. -/
theorem staging_buffers_conserved (cfg : Config) (ops : List HandleOp) :
    StagesConserved cfg (HandleScope.after cfg ops) :=
  ScopeInv.conserved (invariant_run (I := ScopeInv cfg) (fun _ op _ h => h.apply op)
    (ScopeInv.init cfg) (allowed_true _ _ ops))

end GoblinStore
