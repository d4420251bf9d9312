import GoblinStore.Storage.TierManager
import Mathlib.Logic.Relation

/-!
# Who owns which region of the head pool

`HeadView` is the part of the state that the head cache lives in: the head of each indexed object,
the head reserved by each open handle, the pool, the pins and the bytes. Every operation of the
tier manager acts on it by a few moves: reserve, fill, abandon, publish, free or orphan (`Move`),
pin (`Pin`) and unpin (`Unpin`). `Owned` says that every allocated region has exactly one owner
and that the pin table counts the readers; each move keeps it.
-/

namespace GoblinStore

open GoblinStore.Lib GoblinStore.Core

/-- The regions that are allocated after a list of allocator calls, latest first. -/
def allocated : List RamEvent → Finset Region
  | [] => ∅
  | .alloc r :: log => insert r (allocated log)
  | .free r :: log => (allocated log).erase r

/-- No region was handed out while allocated, and none was freed while not allocated. -/
def LogOk : List RamEvent → Prop
  | [] => True
  | .alloc r :: log => r ∉ allocated log ∧ LogOk log
  | .free r :: log => r ∈ allocated log ∧ LogOk log

/-- The key of a region in the pin table. -/
def Core.Region.id (r : Region) : Nat := regionId r.block r.offset

/-- Regions with 32-bit offsets have the same key only at the same place. -/
theorem region_id_injective {r q : Region} (hr : r.offset < wrap32) (hq : q.offset < wrap32)
    (h : r.id = q.id) : r.block = q.block ∧ r.offset = q.offset := by
  simp only [Region.id, regionId] at h
  rw [← Nat.shiftLeft_add_eq_or_of_lt hr, ← Nat.shiftLeft_add_eq_or_of_lt hq] at h
  simp only [Nat.shiftLeft_eq, wrap32] at *
  omega

/-- The state of the head cache. -/
structure HeadView where
  heads : Digest → Option Region
  reserved : Nat → Option Region
  ram : BufferPool
  bytes : Nat → Nat → UInt8
  pins : Table Nat RegionPin
  held : Table Nat Region
  log : List RamEvent

/-- The resident heads of an index. -/
def headsOf (index : Index) (d : Digest) : Option Region := (index.lookup d).bind (·.head)

/-- The heads that open handles have reserved. -/
def reservedOf (handles : Table Nat StoreHandle) (id : Nat) : Option Region :=
  (handles.lookup id).bind (·.head)

theorem heads_of_insert (index : Index) (d : Digest) (m : ObjectMeta) :
    headsOf (index.insert d m) = Function.update (headsOf index) d m.head := by
  funext e
  rw [headsOf, Table.lookup_insert, Function.update_apply]
  split_ifs <;> rfl

theorem heads_of_erase (index : Index) (d : Digest) :
    headsOf (index.erase d) = Function.update (headsOf index) d none := by
  funext e
  rw [headsOf, Table.lookup_erase, Function.update_apply]
  split_ifs <;> rfl

theorem reserved_of_insert (handles : Table Nat StoreHandle) (id : Nat) (h : StoreHandle) :
    reservedOf (handles.insert id h) = Function.update (reservedOf handles) id h.head := by
  funext i
  rw [reservedOf, Table.lookup_insert, Function.update_apply]
  split_ifs <;> rfl

theorem reserved_of_erase (handles : Table Nat StoreHandle) (id : Nat) :
    reservedOf (handles.erase id) = Function.update (reservedOf handles) id none := by
  funext i
  rw [reservedOf, Table.lookup_erase, Function.update_apply]
  split_ifs <;> rfl

/-- The head cache of a tier manager. -/
def State.headView (σ : State) : HeadView where
  heads := headsOf σ.index
  reserved := reservedOf σ.handles
  ram := σ.ram
  bytes := σ.ramBytes
  pins := σ.pins
  held := σ.held
  log := σ.ramLog

namespace HeadView

/-- Give a region back to the pool. -/
def deallocate (v : HeadView) (r : Region) : HeadView :=
  { v with ram := v.ram.deallocate r.block r.offset r.len, log := .free r :: v.log }

/-- The moves that leave the readers' pins alone. -/
inductive Move : HeadView → HeadView → Prop
  | reserve {v : HeadView} {id n : Nat} {r : Region} {ram : BufferPool} :
      v.reserved id = none → v.ram.allocate n = some (r, ram) →
      Move v { v with
        ram := ram, log := .alloc r :: v.log
        reserved := Function.update v.reserved id (some r) }
  | fill {v : HeadView} {id : Nat} {r : Region} (pos n : Nat) (src : Nat → UInt8) :
      v.reserved id = some r → pos + n ≤ r.len →
      Move v { v with
        bytes := Function.update v.bytes r.block
          (blit (v.bytes r.block) (r.offset + pos) n src) }
  | abandon {v : HeadView} {id : Nat} {r : Region} :
      v.reserved id = some r →
      Move v { v.deallocate r with reserved := Function.update v.reserved id none }
  | publish {v : HeadView} {id : Nat} {d : Digest} {r : Region} :
      v.reserved id = some r → v.heads d = none →
      Move v { v with
        heads := Function.update v.heads d (some r)
        reserved := Function.update v.reserved id none }
  | free {v : HeadView} {d : Digest} {r : Region} :
      v.heads d = some r → (∀ p, v.pins.lookup r.id = some p → p.refcount = 0) →
      Move v { v.deallocate r with heads := Function.update v.heads d none }
  | orphan {v : HeadView} {d : Digest} {r : Region} {p : RegionPin} :
      v.heads d = some r → v.pins.lookup r.id = some p → 0 < p.refcount →
      Move v { v with
        pins := v.pins.insert r.id { p with orphaned := true }
        heads := Function.update v.heads d none }

/-- A reader pins the resident head of an object. -/
inductive Pin : HeadView → HeadView → Prop
  | mk {v : HeadView} {d : Digest} {r : Region} {pin : Nat} :
      v.heads d = some r → pin ∉ v.held →
      Pin v { v with
        pins := v.pins.insert r.id
          { (v.pins.lookup r.id).getD ⟨0, 0, false⟩ with
            len := r.len
            refcount := ((v.pins.lookup r.id).getD ⟨0, 0, false⟩).refcount + 1 }
        held := v.held.insert pin r }

/-- The holder of a pin gives it back. -/
inductive Unpin (pin : Nat) : HeadView → HeadView → Prop
  | keep {v : HeadView} {r : Region} {p : RegionPin} :
      v.held.lookup pin = some r → v.pins.lookup r.id = some p → p.refcount - 1 ≠ 0 →
      Unpin pin v { v with
        pins := v.pins.insert r.id { p with refcount := p.refcount - 1 }
        held := v.held.erase pin }
  | last {v : HeadView} {r : Region} {p : RegionPin} :
      v.held.lookup pin = some r → v.pins.lookup r.id = some p → p.refcount - 1 = 0 →
      p.orphaned = false →
      Unpin pin v { v with pins := v.pins.erase r.id, held := v.held.erase pin }
  | lastOrphan {v : HeadView} {r : Region} {p : RegionPin} :
      v.held.lookup pin = some r → v.pins.lookup r.id = some p → p.refcount - 1 = 0 →
      p.orphaned = true →
      Unpin pin v { v.deallocate r with pins := v.pins.erase r.id, held := v.held.erase pin }

end HeadView

/-- The owner of an allocated region. -/
inductive Owner where
  | object (d : Digest)
  | handle (id : Nat)
  | orphan
  deriving DecidableEq

/-- Every allocated region has the owner that `own` names, and the pins count its readers. -/
structure Owned (v : HeadView) (own : Region → Option Owner) : Prop where
  pool : v.ram.Inv (allocated v.log)
  log_ok : LogOk v.log
  live_iff : ∀ r, r ∈ allocated v.log ↔ own r ≠ none
  object_iff : ∀ r d, own r = some (.object d) ↔ v.heads d = some r
  handle_iff : ∀ r id, own r = some (.handle id) ↔ v.reserved id = some r
  orphan_pinned : ∀ r, own r = some .orphan → ∃ p, v.pins.lookup r.id = some p
  pin_spec : ∀ key p, v.pins.lookup key = some p → ∃ r, r.id = key ∧ p.len = r.len ∧
    p.refcount = Table.valueCount v.held r ∧ 0 < p.refcount ∧
    (p.orphaned = true ∧ own r = some .orphan ∨ p.orphaned = false ∧ ∃ d, own r = some (.object d))
  held_pinned : ∀ pin r, v.held.lookup pin = some r → own r ≠ none ∧
    ∃ p, v.pins.lookup r.id = some p

namespace Owned

variable {v v' : HeadView} {own : Region → Option Owner} {r q : Region} {d : Digest} {id pin : Nat}

theorem live (h : Owned v own) (hr : own r ≠ none) : r ∈ allocated v.log := (h.live_iff r).2 hr

/-- Owned regions with one key are one region. -/
theorem eq_of_id_eq (h : Owned v own) (hr : own r ≠ none) (hq : own q ≠ none)
    (hid : r.id = q.id) : r = q := by
  obtain ⟨hblock, hoff⟩ := region_id_injective (h.pool.offset_lt (h.live hr))
    (h.pool.offset_lt (h.live hq)) hid
  exact h.pool.eq_of_place_eq (h.live hr) (h.live hq) hblock hoff

variable {p : RegionPin}

/-- The pin entry at the key of an owned region is about that region. -/
theorem pin_of_owned (h : Owned v own) (hr : own r ≠ none) (hp : v.pins.lookup r.id = some p) :
    p.len = r.len ∧ p.refcount = Table.valueCount v.held r ∧ 0 < p.refcount ∧
      (p.orphaned = true ∧ own r = some .orphan ∨
        p.orphaned = false ∧ ∃ d, own r = some (.object d)) := by
  obtain ⟨q, hid, hlen, hcount, hpos, hkind⟩ := h.pin_spec _ _ hp
  have hq : own q ≠ none := by
    rcases hkind with ⟨-, hk⟩ | ⟨-, d, hk⟩ <;> simp [hk]
  obtain rfl := h.eq_of_id_eq hq hr hid
  exact ⟨hlen, hcount, hpos, hkind⟩

/-- A head reserved by a handle is not pinned. -/
theorem reserved_not_pinned (h : Owned v own) (hr : v.reserved id = some r) :
    v.pins.lookup r.id = none := by
  have hown := (h.handle_iff r id).2 hr
  by_contra hpin
  obtain ⟨p, hp⟩ := Option.ne_none_iff_exists'.1 hpin
  obtain ⟨-, -, -, hkind⟩ := h.pin_of_owned (by simp [hown]) hp
  rw [hown] at hkind
  rcases hkind with ⟨-, hk⟩ | ⟨-, d, hk⟩ <;> cases hk

/-- Without readers there is no pin entry. -/
theorem not_pinned_of_refcount (h : Owned v own) (hr : own r ≠ none)
    (hzero : ∀ p, v.pins.lookup r.id = some p → p.refcount = 0) : v.pins.lookup r.id = none := by
  by_contra hpin
  obtain ⟨p, hp⟩ := Option.ne_none_iff_exists'.1 hpin
  obtain ⟨-, -, hpos, -⟩ := h.pin_of_owned hr hp
  have := hzero p hp
  omega

/-- An unpinned region may be given back to the pool. -/
theorem deallocate (h : Owned v own) (hr : own r ≠ none) (hpin : v.pins.lookup r.id = none)
    {heads : Digest → Option Region} {reserved : Nat → Option Region}
    (hheads : ∀ q d, q ≠ r → (v.heads d = some q ↔ heads d = some q))
    (hhead : ∀ d, heads d ≠ some r) (hreserved : ∀ q id, q ≠ r →
      (v.reserved id = some q ↔ reserved id = some q))
    (hhandle : ∀ id, reserved id ≠ some r) :
    Owned { v.deallocate r with heads := heads, reserved := reserved }
      (Function.update own r none) := by
  have hlive := h.live hr
  constructor
  · exact BufferPool.deallocate_spec h.pool hlive
  · exact ⟨hlive, h.log_ok⟩
  · intro q
    simp only [HeadView.deallocate, allocated, Finset.mem_erase, h.live_iff]
    by_cases hq : q = r
    · simp [hq]
    · simp [hq]
  · intro q d
    by_cases hq : q = r
    · simp [hq, hhead]
    · rw [Function.update_of_ne hq, h.object_iff]
      exact hheads q d hq
  · intro q id
    by_cases hq : q = r
    · simp [hq, hhandle]
    · rw [Function.update_of_ne hq, h.handle_iff]
      exact hreserved q id hq
  · intro q hq
    have hqr : q ≠ r := by
      rintro rfl
      simp at hq
    rw [Function.update_of_ne hqr] at hq
    exact h.orphan_pinned q hq
  · intro key p hp
    obtain ⟨q, hid, hlen, hcount, hpos, hkind⟩ := h.pin_spec key p hp
    have hqr : q ≠ r := by
      rintro rfl
      have hp' : v.pins.lookup key = some p := hp
      rw [← hid, hpin] at hp'
      cases hp'
    exact ⟨q, hid, hlen, hcount, hpos, by rwa [Function.update_of_ne hqr]⟩
  · intro pin q hq
    obtain ⟨hown, p, hp⟩ := h.held_pinned pin q hq
    have hqr : q ≠ r := by
      rintro rfl
      rw [hpin] at hp
      cases hp
    exact ⟨by rwa [Function.update_of_ne hqr], p, hp⟩

/-- A region handed out by the pool goes to the handle that asked for it. -/
theorem reserve (h : Owned v own) {n : Nat} {ram : BufferPool} (hid : v.reserved id = none)
    (halloc : v.ram.allocate n = some (r, ram)) :
    Owned { v with
      ram := ram, log := .alloc r :: v.log
      reserved := Function.update v.reserved id (some r) }
      (Function.update own r (some (.handle id))) := by
  obtain ⟨-, hnew, hinv⟩ := BufferPool.allocate_spec h.pool halloc
  have hown : own r = none := by
    by_contra hne
    exact hnew (h.live hne)
  have hother : ∀ q, own q ≠ none → q ≠ r := by
    rintro q hq rfl
    exact hq hown
  constructor
  · exact hinv
  · exact ⟨hnew, h.log_ok⟩
  · intro q
    simp only [allocated, Finset.mem_insert, h.live_iff]
    by_cases hq : q = r
    · simp [hq]
    · simp [hq]
  · intro q d
    by_cases hq : q = r
    · subst hq
      have := h.object_iff q d
      simp_all
    · rw [Function.update_of_ne hq]
      exact h.object_iff q d
  · intro q i
    by_cases hq : q = r
    · subst hq
      by_cases hi : i = id
      · simp [hi]
      · have := h.handle_iff q i
        simp_all [Ne.symm hi]
    · rw [Function.update_of_ne hq, h.handle_iff]
      by_cases hi : i = id
      · simp [hi, hid, Ne.symm hq]
      · simp [hi]
  · intro q hq
    by_cases hqr : q = r
    · simp [hqr] at hq
    · rw [Function.update_of_ne hqr] at hq
      exact h.orphan_pinned q hq
  · intro key p hp
    obtain ⟨q, hkey, hlen, hcount, hpos, hkind⟩ := h.pin_spec key p hp
    have hqr : q ≠ r := hother q (by rcases hkind with ⟨-, hk⟩ | ⟨-, d, hk⟩ <;> simp [hk])
    exact ⟨q, hkey, hlen, hcount, hpos, by rwa [Function.update_of_ne hqr]⟩
  · intro pin q hq
    obtain ⟨hne, hp⟩ := h.held_pinned pin q hq
    exact ⟨by rwa [Function.update_of_ne (hother q hne)], hp⟩

/-- Publishing hands the reserved region of a handle to an object without a head. -/
theorem publish (h : Owned v own) (hid : v.reserved id = some r) (hd : v.heads d = none) :
    Owned { v with
      heads := Function.update v.heads d (some r)
      reserved := Function.update v.reserved id none }
      (Function.update own r (some (.object d))) := by
  have hown := (h.handle_iff r id).2 hid
  have hne : own r ≠ none := by simp [hown]
  have hpin := h.reserved_not_pinned hid
  constructor
  · exact h.pool
  · exact h.log_ok
  · intro q
    rw [h.live_iff]
    by_cases hq : q = r
    · simp [hq, hown]
    · simp [hq]
  · intro q e
    by_cases hq : q = r
    · subst hq
      by_cases he : e = d
      · simp [he]
      · have := h.object_iff q e
        simp_all [Ne.symm he]
    · rw [Function.update_of_ne hq, h.object_iff]
      by_cases he : e = d
      · simp [he, hd, Ne.symm hq]
      · simp [he]
  · intro q i
    by_cases hq : q = r
    · subst hq
      by_cases hi : i = id
      · simp [hi]
      · have := h.handle_iff q i
        rw [hown] at this
        simp_all [Ne.symm hi]
    · rw [Function.update_of_ne hq, h.handle_iff]
      by_cases hi : i = id
      · simp [hi, hid, Ne.symm hq]
      · simp [hi]
  · intro q hq
    by_cases hqr : q = r
    · simp [hqr] at hq
    · rw [Function.update_of_ne hqr] at hq
      exact h.orphan_pinned q hq
  · intro key p hp
    obtain ⟨q, hkey, hlen, hcount, hpos, hkind⟩ := h.pin_spec key p hp
    have hqr : q ≠ r := by
      rintro rfl
      have hp' : v.pins.lookup key = some p := hp
      rw [← hkey, hpin] at hp'
      cases hp'
    exact ⟨q, hkey, hlen, hcount, hpos, by rwa [Function.update_of_ne hqr]⟩
  · intro pin q hq
    obtain ⟨hne', hp⟩ := h.held_pinned pin q hq
    refine ⟨?_, hp⟩
    by_cases hqr : q = r
    · simp [hqr]
    · rwa [Function.update_of_ne hqr]

/-- A pinned head that its object loses is orphaned. -/
theorem orphan (h : Owned v own) (hd : v.heads d = some r) (hp : v.pins.lookup r.id = some p) :
    Owned { v with
      pins := v.pins.insert r.id { p with orphaned := true }
      heads := Function.update v.heads d none }
      (Function.update own r (some .orphan)) := by
  have hown := (h.object_iff r d).2 hd
  have hne : own r ≠ none := by simp [hown]
  obtain ⟨hlen, hcount, hpos, -⟩ := h.pin_of_owned hne hp
  -- only `r` changes its owner; region ids are injective on owned regions
  constructor
  · exact h.pool
  · exact h.log_ok
  · intro q
    rw [h.live_iff]
    by_cases hq : q = r
    · simp [hq, hown]
    · simp [hq]
  · intro q e
    by_cases hq : q = r
    · subst hq
      by_cases he : e = d
      · simp [he]
      · have := h.object_iff q e
        rw [hown] at this
        simp_all [Ne.symm he]
    · rw [Function.update_of_ne hq, h.object_iff]
      by_cases he : e = d
      · simp [he, hd, Ne.symm hq]
      · simp [he]
  · intro q i
    by_cases hq : q = r
    · subst hq
      have := h.handle_iff q i
      rw [hown] at this
      simp_all
    · rw [Function.update_of_ne hq]
      exact h.handle_iff q i
  · intro q hq
    rw [Table.lookup_insert]
    split_ifs with hid
    · exact ⟨_, rfl⟩
    · have hqr : q ≠ r := fun heq => hid (by rw [heq])
      rw [Function.update_of_ne hqr] at hq
      exact h.orphan_pinned q hq
  · intro key p' hp'
    rw [Table.lookup_insert] at hp'
    split_ifs at hp' with hkey
    · cases hp'
      exact ⟨r, hkey.symm, hlen, hcount, hpos, Or.inl ⟨rfl, by simp⟩⟩
    · obtain ⟨q, hid, hrest⟩ := h.pin_spec key p' hp'
      have hqr : q ≠ r := fun heq => hkey (by rw [← hid, heq])
      exact ⟨q, hid, by rwa [Function.update_of_ne hqr]⟩
  · intro pin q hq
    obtain ⟨hne', p', hp'⟩ := h.held_pinned pin q hq
    constructor
    · by_cases hqr : q = r
      · simp [hqr]
      · rwa [Function.update_of_ne hqr]
    · rw [Table.lookup_insert]
      split_ifs
      · exact ⟨_, rfl⟩
      · exact ⟨p', hp'⟩

/-- A pin table and a set of held pins that still count the readers of every region. -/
theorem repin (h : Owned v own) {pins : Table Nat RegionPin} {held : Table Nat Region}
    (horphan : ∀ q, own q = some .orphan → ∃ p, pins.lookup q.id = some p)
    (hspec : ∀ key p, pins.lookup key = some p → ∃ q, q.id = key ∧ p.len = q.len ∧
      p.refcount = Table.valueCount held q ∧ 0 < p.refcount ∧
      (p.orphaned = true ∧ own q = some .orphan ∨
        p.orphaned = false ∧ ∃ d, own q = some (.object d)))
    (hheld : ∀ pin q, held.lookup pin = some q → own q ≠ none ∧ ∃ p, pins.lookup q.id = some p) :
    Owned { v with pins := pins, held := held } own where
  __ := h
  orphan_pinned := horphan
  pin_spec := hspec
  held_pinned := hheld

/-- A new reader of a resident head is counted. -/
theorem add_pin (h : Owned v own) (hd : v.heads d = some r) (hpin : pin ∉ v.held) :
    Owned { v with
      pins := v.pins.insert r.id
        { (v.pins.lookup r.id).getD ⟨0, 0, false⟩ with
          len := r.len
          refcount := ((v.pins.lookup r.id).getD ⟨0, 0, false⟩).refcount + 1 }
      held := v.held.insert pin r } own := by
  have hown := (h.object_iff r d).2 hd
  have hne : own r ≠ none := by simp [hown]
  -- the old count and orphan flag, whether or not there is an entry
  have hold : ((v.pins.lookup r.id).getD ⟨0, 0, false⟩).refcount = Table.valueCount v.held r ∧
      ((v.pins.lookup r.id).getD ⟨0, 0, false⟩).orphaned = false := by
    cases hp : v.pins.lookup r.id with
    | some p =>
        obtain ⟨-, hcount, -, hkind⟩ := h.pin_of_owned hne hp
        rw [hown] at hkind
        rcases hkind with ⟨-, hk⟩ | ⟨hk, -⟩
        · cases hk
        · exact ⟨hcount, hk⟩
    | none =>
        refine ⟨?_, rfl⟩
        by_contra hpos
        obtain ⟨k, hk⟩ := Table.exists_of_value_count_pos v.held (v := r)
          (Nat.pos_of_ne_zero (Ne.symm hpos))
        obtain ⟨-, p, hp'⟩ := h.held_pinned k r hk
        rw [hp] at hp'
        cases hp'
  apply h.repin
  · intro q hq
    rw [Table.lookup_insert]
    split_ifs
    · exact ⟨_, rfl⟩
    · exact h.orphan_pinned q hq
  · intro key p hp
    rw [Table.lookup_insert] at hp
    split_ifs at hp with hkey
    · cases hp
      refine ⟨r, hkey.symm, rfl, ?_, Nat.succ_pos _, Or.inr ⟨hold.2, d, hown⟩⟩
      rw [Table.value_count_insert _ hpin, if_pos rfl, hold.1]
    · obtain ⟨q, hid, hlen, hcount, hrest⟩ := h.pin_spec key p hp
      have hqr : r ≠ q := fun heq => hkey (by rw [← hid, heq])
      refine ⟨q, hid, hlen, ?_, hrest⟩
      rw [Table.value_count_insert _ hpin, if_neg hqr, hcount, Nat.add_zero]
  · intro k q hq
    rw [Table.lookup_insert] at hq ⊢
    split_ifs at hq with hk
    · cases hq
      exact ⟨hne, by simp⟩
    · obtain ⟨hne', p, hp⟩ := h.held_pinned k q hq
      refine ⟨hne', ?_⟩
      split_ifs
      · exact ⟨_, rfl⟩
      · exact ⟨p, hp⟩

/-- A reader among several leaves. -/
theorem unpin (h : Owned v own) (hheld : v.held.lookup pin = some r)
    (hp : v.pins.lookup r.id = some p) (hmore : p.refcount - 1 ≠ 0) :
    Owned { v with
      pins := v.pins.insert r.id { p with refcount := p.refcount - 1 }
      held := v.held.erase pin } own := by
  obtain ⟨hne, -⟩ := h.held_pinned pin r hheld
  obtain ⟨hlen, hcount, hpos, hkind⟩ := h.pin_of_owned hne hp
  apply h.repin
  · intro q hq
    rw [Table.lookup_insert]
    split_ifs
    · exact ⟨_, rfl⟩
    · exact h.orphan_pinned q hq
  · intro key p' hp'
    rw [Table.lookup_insert] at hp'
    split_ifs at hp' with hkey
    · cases hp'
      refine ⟨r, hkey.symm, hlen, ?_, Nat.pos_of_ne_zero hmore, hkind⟩
      have := Table.value_count_erase v.held hheld r
      rw [if_pos rfl] at this
      simp only
      omega
    · obtain ⟨q, hid, hlen', hcount', hrest⟩ := h.pin_spec key p' hp'
      have hqr : r ≠ q := fun heq => hkey (by rw [← hid, heq])
      refine ⟨q, hid, hlen', ?_, hrest⟩
      have := Table.value_count_erase v.held hheld q
      rw [if_neg hqr, Nat.add_zero] at this
      rw [this, hcount']
  · intro k q hq
    rw [Table.lookup_erase] at hq
    split_ifs at hq
    obtain ⟨hne', p', hp'⟩ := h.held_pinned k q hq
    refine ⟨hne', ?_⟩
    rw [Table.lookup_insert]
    split_ifs
    · exact ⟨_, rfl⟩
    · exact ⟨p', hp'⟩

/-- When the last reader leaves, no other pin of the region is held. -/
theorem last_reader (h : Owned v own) (hheld : v.held.lookup pin = some r)
    (hp : v.pins.lookup r.id = some p) (hlast : p.refcount - 1 = 0) {k : Nat}
    (hk : (v.held.erase pin).lookup k = some q) : own q ≠ none ∧ q.id ≠ r.id ∧
      ∃ p', v.pins.lookup q.id = some p' := by
  obtain ⟨hne, -⟩ := h.held_pinned pin r hheld
  obtain ⟨-, hcount, hpos, -⟩ := h.pin_of_owned hne hp
  have hk' := hk
  rw [Table.lookup_erase] at hk'
  split_ifs at hk'
  obtain ⟨hne', hp'⟩ := h.held_pinned k q hk'
  refine ⟨hne', fun hid => ?_, hp'⟩
  obtain rfl := h.eq_of_id_eq hne' hne hid
  have herase := Table.value_count_erase v.held hheld q
  rw [if_pos rfl] at herase
  have := Table.value_count_pos _ hk
  omega

/-- The last reader of a region that is not orphaned leaves. -/
theorem unpin_last (h : Owned v own) (hheld : v.held.lookup pin = some r)
    (hp : v.pins.lookup r.id = some p) (hlast : p.refcount - 1 = 0) (horphan : p.orphaned = false) :
    Owned { v with pins := v.pins.erase r.id, held := v.held.erase pin } own := by
  obtain ⟨hne, -⟩ := h.held_pinned pin r hheld
  obtain ⟨-, -, -, hkind⟩ := h.pin_of_owned hne hp
  rw [horphan] at hkind
  apply h.repin
  · intro q hq
    rw [Table.lookup_erase, if_neg]
    · exact h.orphan_pinned q hq
    · intro hid
      obtain rfl := h.eq_of_id_eq (by simp [hq]) hne hid
      rw [hq] at hkind
      rcases hkind with ⟨hk, -⟩ | ⟨-, d, hk⟩ <;> cases hk
  · intro key p' hp'
    rw [Table.lookup_erase] at hp'
    split_ifs at hp' with hkey
    obtain ⟨q, hid, hlen', hcount', hrest⟩ := h.pin_spec key p' hp'
    have hqr : r ≠ q := fun heq => hkey (by rw [← hid, heq])
    refine ⟨q, hid, hlen', ?_, hrest⟩
    have := Table.value_count_erase v.held hheld q
    rw [if_neg hqr, Nat.add_zero] at this
    rw [this, hcount']
  · intro k q hq
    obtain ⟨hne', hid, hp'⟩ := h.last_reader hheld hp hlast hq
    refine ⟨hne', ?_⟩
    rwa [Table.lookup_erase, if_neg hid]

/-- The last reader of an orphaned region leaves, and the region is freed. -/
theorem unpin_last_orphan (h : Owned v own) (hheld : v.held.lookup pin = some r)
    (hp : v.pins.lookup r.id = some p) (hlast : p.refcount - 1 = 0) (horphan : p.orphaned = true) :
    Owned { v.deallocate r with pins := v.pins.erase r.id, held := v.held.erase pin }
      (Function.update own r none) := by
  obtain ⟨hne, -⟩ := h.held_pinned pin r hheld
  obtain ⟨-, -, -, hkind⟩ := h.pin_of_owned hne hp
  have hown : own r = some .orphan := by
    rcases hkind with ⟨-, hk⟩ | ⟨hk, -⟩
    · exact hk
    · rw [horphan] at hk
      cases hk
  constructor
  · exact BufferPool.deallocate_spec h.pool (h.live hne)
  · exact ⟨h.live hne, h.log_ok⟩
  · intro q
    simp only [HeadView.deallocate, allocated, Finset.mem_erase, h.live_iff]
    by_cases hq : q = r
    · simp [hq]
    · simp [hq]
  · intro q d
    by_cases hq : q = r
    · have := h.object_iff r d
      rw [hown] at this
      simp_all [HeadView.deallocate]
    · rw [Function.update_of_ne hq]
      exact h.object_iff q d
  · intro q id
    by_cases hq : q = r
    · have := h.handle_iff r id
      rw [hown] at this
      simp_all [HeadView.deallocate]
    · rw [Function.update_of_ne hq]
      exact h.handle_iff q id
  · intro q hq
    have hqr : q ≠ r := by
      rintro rfl
      simp at hq
    rw [Function.update_of_ne hqr] at hq
    rw [Table.lookup_erase, if_neg]
    · exact h.orphan_pinned q hq
    · exact fun hid => hqr (h.eq_of_id_eq (by simp [hq]) hne hid)
  · intro key p' hp'
    rw [Table.lookup_erase] at hp'
    split_ifs at hp' with hkey
    obtain ⟨q, hid, hlen', hcount', hpos', hrest⟩ := h.pin_spec key p' hp'
    have hqr : q ≠ r := fun heq => hkey (by rw [← hid, heq])
    refine ⟨q, hid, hlen', ?_, hpos', by rwa [Function.update_of_ne hqr]⟩
    have := Table.value_count_erase v.held hheld q
    rw [if_neg (Ne.symm hqr), Nat.add_zero] at this
    rw [this, hcount']
  · -- the reader was the last one, so the pins that are left are of other regions
    intro k q hq
    obtain ⟨hne', hid, hp'⟩ := h.last_reader hheld hp hlast hq
    have hqr : q ≠ r := fun heq => hid (by rw [heq])
    refine ⟨by rwa [Function.update_of_ne hqr], ?_⟩
    rwa [Table.lookup_erase, if_neg hid]

/-- Filling a head changes no owner. -/
theorem fill (h : Owned v own) (bytes : Nat → Nat → UInt8) :
  Owned { v with bytes := bytes } own := { h with }

end Owned

/-! ## Every move keeps the ownership invariant -/

namespace HeadView

variable {v v' : HeadView} {own : Region → Option Owner} {r : Region} {pin : Nat}

theorem Move.owned (hm : Move v v') (h : Owned v own) : ∃ own', Owned v' own' := by
  cases hm with
  | reserve hid halloc => exact ⟨_, h.reserve hid halloc⟩
  | fill pos n src hid hend => exact ⟨_, h.fill _⟩
  | publish hid hd => exact ⟨_, h.publish hid hd⟩
  | orphan hd hp hpos => exact ⟨_, h.orphan hd hp⟩
  | @abandon id r hid =>
      have hown := (h.handle_iff r id).2 hid
      have hhead : ∀ d, v.heads d ≠ some r := fun d hd => by
        have := (h.object_iff r d).2 hd
        rw [hown] at this
        cases this
      refine ⟨_, h.deallocate (by simp [hown]) (h.reserved_not_pinned hid)
        (fun q d _ => Iff.rfl) hhead (fun q i hq => ?_) fun i hi => ?_⟩
      · by_cases hii : i = id
        · simp [hii, hid, Ne.symm hq]
        · simp [hii]
      · by_cases hii : i = id
        · simp [hii] at hi
        · rw [Function.update_of_ne hii] at hi
          have := (h.handle_iff r i).2 hi
          rw [hown] at this
          cases this
          exact hii rfl
  | @free d r hd hzero =>
      have hown := (h.object_iff r d).2 hd
      have hne : own r ≠ none := by simp [hown]
      have hhandle : ∀ i, v.reserved i ≠ some r := fun i hi => by
        have := (h.handle_iff r i).2 hi
        rw [hown] at this
        cases this
      refine ⟨_, h.deallocate hne (h.not_pinned_of_refcount hne hzero)
        (fun q e hq => ?_) (fun e he => ?_) (fun q i _ => Iff.rfl) hhandle⟩
      · by_cases hee : e = d
        · simp [hee, hd, Ne.symm hq]
        · simp [hee]
      · by_cases hee : e = d
        · simp [hee] at he
        · rw [Function.update_of_ne hee] at he
          have := (h.object_iff r e).2 he
          rw [hown] at this
          cases this
          exact hee rfl

theorem Pin.owned (hp : Pin v v') (h : Owned v own) : Owned v' own := by
  cases hp with
  | mk hd hpin => exact h.add_pin hd hpin

theorem Unpin.owned (hu : Unpin pin v v') (h : Owned v own) : ∃ own', Owned v' own' := by
  cases hu with
  | keep hheld hp hmore => exact ⟨_, h.unpin hheld hp hmore⟩
  | last hheld hp hlast horphan => exact ⟨_, h.unpin_last hheld hp hlast horphan⟩
  | lastOrphan hheld hp hlast horphan => exact ⟨_, h.unpin_last_orphan hheld hp hlast horphan⟩

/-! ## A held region stays as it is -/

/-- The bytes of a region are the same in two views. -/
def SameBytes (r : Region) (v v' : HeadView) : Prop :=
  ∀ i < r.len, v'.bytes r.block (r.offset + i) = v.bytes r.block (r.offset + i)

/-- The allocator calls since an earlier view handed out no part of the region. -/
def NotHandedOut (r : Region) (v v' : HeadView) : Prop :=
  ∃ calls, v'.log = calls ++ v.log ∧ ∀ q, RamEvent.alloc q ∈ calls → q.Apart r

/-- A move neither writes to a region without a handle nor hands out a part of a live region. -/
theorem Move.steady (hm : Move v v') (h : Owned v own) (hr : own r ≠ none)
    (hhandle : ∀ id, own r ≠ some (.handle id)) : SameBytes r v v' ∧ NotHandedOut r v v' := by
  have hrefl : SameBytes r v v := fun _ _ => rfl
  cases hm with
  | @reserve id n q ram hid halloc =>
      obtain ⟨-, hnew, hinv⟩ := BufferPool.allocate_spec h.pool halloc
      have hlive := h.live hr
      refine ⟨hrefl, [.alloc q], rfl, fun q' hq' => ?_⟩
      simp only [List.mem_singleton, RamEvent.alloc.injEq] at hq'
      subst hq'
      refine hinv.apart (Finset.mem_insert_self _ _) (Finset.mem_insert_of_mem hlive) ?_
      rintro rfl
      exact hnew hlive
  | @fill id q pos n src hid hend =>
      have hq := (h.handle_iff q id).2 hid
      have hqne : own q ≠ none := by simp [hq]
      have hapart := h.pool.apart (h.live hr) (h.live hqne)
        (fun heq => hhandle id (by rw [heq, hq]))
      refine ⟨fun i hi => ?_, [], rfl, by simp⟩
      simp only [Function.update_apply]
      split_ifs with hblock
      · rw [← hblock]
        refine blit_outside ?_
        rcases hapart with hne | hbefore | hafter
        · exact absurd hblock hne
        · omega
        · omega
      · rfl
  | abandon hid => exact ⟨hrefl, [.free _], rfl, by simp⟩
  | publish hid hd => exact ⟨hrefl, [], rfl, by simp⟩
  | free hd hzero => exact ⟨hrefl, [.free _], rfl, by simp⟩
  | orphan hd hp hpos => exact ⟨hrefl, [], rfl, by simp⟩

theorem Move.held_eq (hm : Move v v') : v'.held = v.held := by
  cases hm <;> rfl

end HeadView

end GoblinStore
