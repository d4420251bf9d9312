import Mathlib.Data.List.AList
import Mathlib.Data.Finset.Card

/-!
# Finite maps

A `Table K V` is an association list without duplicate keys. The two lookup equations below
hold for every queried key, so a proof about an updated table is one case split.
-/

namespace GoblinStore.Lib

/-- A finite map from `K` to `V`. -/
abbrev Table (K V : Type*) := AList fun _ : K => V

namespace Table

variable {K V : Type*} [DecidableEq K]

/-- The value at a key. -/
def lookup (t : Table K V) (k : K) : Option V := AList.lookup k t

/-- The table with the value at a key replaced. -/
def insert (t : Table K V) (k : K) (v : V) : Table K V := AList.insert k v t

/-- The table without a key. -/
def erase (t : Table K V) (k : K) : Table K V := AList.erase k t

theorem insert_insert (t : Table K V) (k : K) (v v' : V) :
    (t.insert k v).insert k v' = t.insert k v' := AList.insert_insert t

theorem erase_insert (t : Table K V) (k : K) (v : V) : (t.insert k v).erase k = t.erase k :=
  AList.ext (by
    show (List.kinsert k v t.entries).kerase k = t.entries.kerase k
    simp)

@[simp] theorem lookup_empty (k : K) : Table.lookup (∅ : Table K V) k = none := rfl

theorem lookup_insert (t : Table K V) (k k' : K) (v : V) :
    (t.insert k v).lookup k' = if k' = k then some v else t.lookup k' := by
  split_ifs with h
  · subst h
    exact AList.lookup_insert t
  · exact AList.lookup_insert_ne h

theorem lookup_erase (t : Table K V) (k k' : K) :
    (t.erase k).lookup k' = if k' = k then none else t.lookup k' := by
  split_ifs with h
  · subst h
    exact AList.lookup_erase k' t
  · exact AList.lookup_erase_ne h

variable {t : Table K V} {k k' : K} {v : V}

/-- An entry of an updated table is the new one or an old one at another key. -/
theorem lookup_insert_some {w : V} (h : (t.insert k v).lookup k' = some w) :
    k' = k ∧ w = v ∨ k' ≠ k ∧ t.lookup k' = some w := by
  rw [lookup_insert] at h
  split_ifs at h with hk
  · exact Or.inl ⟨hk, (Option.some.inj h).symm⟩
  · exact Or.inr ⟨hk, h⟩

theorem lookup_erase_some {w : V} (h : (t.erase k).lookup k' = some w) :
    k' ≠ k ∧ t.lookup k' = some w := by
  rw [lookup_erase] at h
  split_ifs at h with hk
  exact ⟨hk, h⟩

@[simp] theorem lookup_insert_self (t : Table K V) (k : K) (v : V) :
    (t.insert k v).lookup k = some v := AList.lookup_insert t

/-- A key is in the table when its lookup succeeds. -/
theorem mem_iff_lookup : k ∈ t ↔ ∃ v, t.lookup k = some v := by
  rw [← AList.lookup_isSome, Option.isSome_iff_exists]
  rfl

theorem lookup_eq_none : t.lookup k = none ↔ k ∉ t := AList.lookup_eq_none

/-- The keys of a table. -/
def keySet (t : Table K V) : Finset K := t.keys.toFinset

@[simp] theorem mem_key_set : k ∈ keySet t ↔ k ∈ t := by
  simp [keySet, AList.mem_keys]

theorem mem_key_set_iff_lookup : k ∈ keySet t ↔ ∃ v, t.lookup k = some v := by
  rw [mem_key_set, mem_iff_lookup]

theorem mem_insert : k' ∈ t.insert k v ↔ k' = k ∨ k' ∈ t :=
  AList.mem_insert t

theorem mem_erase : k' ∈ t.erase k ↔ k' ≠ k ∧ k' ∈ t := AList.mem_erase

theorem key_set_insert (t : Table K V) (k : K) (v : V) :
    keySet (t.insert k v) = Insert.insert k (keySet t) := by
  ext k'
  simp [mem_insert]

theorem key_set_erase (t : Table K V) (k : K) : keySet (t.erase k) = (keySet t).erase k := by
  ext k'
  simp [mem_erase]

theorem card_key_set (t : Table K V) : (keySet t).card = t.keys.length :=
  List.toFinset_card_of_nodup t.keys_nodup

/-- The entries of a table. -/
def pairs (t : Table K V) : List (K × V) := t.entries.map fun e => (e.1, e.2)

theorem mem_pairs : (k, v) ∈ t.pairs ↔ t.lookup k = some v := by
  have hlookup : t.lookup k = some v ↔ Sigma.mk k v ∈ t.entries := List.mem_dlookup_iff t.nodupKeys
  rw [hlookup, pairs, List.mem_map]
  constructor
  · rintro ⟨e, he, heq⟩
    cases heq
    exact he
  · exact fun he => ⟨_, he, rfl⟩

theorem pairs_insert (t : Table K V) (k : K) (v : V) :
    (t.insert k v).pairs = (k, v) :: (t.erase k).pairs := rfl

theorem pairs_perm (hk : t.lookup k = some v) :
    t.pairs.Perm ((k, v) :: (t.erase k).pairs) := by
  obtain ⟨w, before, after, hnot, hentries, herase⟩ :=
    List.exists_of_kerase (mem_iff_lookup.2 ⟨v, hk⟩ : k ∈ t.entries.keys)
  have hw : t.lookup k = some w := by
    show List.dlookup k t.entries = some w
    refine (List.mem_dlookup_iff t.nodupKeys).2 ?_
    rw [hentries]
    exact List.mem_append_right _ List.mem_cons_self
  cases hk.symm.trans hw
  show (t.entries.map fun e => (e.1, e.2)).Perm
      ((k, v) :: (List.kerase k t.entries).map fun e => (e.1, e.2))
  rw [herase, hentries, List.map_append, List.map_append, List.map_cons]
  exact List.perm_middle

/-- The values of a table, one for each key. -/
def values (t : Table K V) : List V := t.entries.map (·.2)

omit [DecidableEq K] in
theorem values_eq (t : Table K V) : t.values = t.pairs.map Prod.snd := by
  rw [values, pairs, List.map_map]
  rfl

theorem values_insert (t : Table K V) (k : K) (v : V) :
    (t.insert k v).values = v :: (t.erase k).values := rfl

theorem values_perm (hk : t.lookup k = some v) :
    t.values.Perm (v :: (t.erase k).values) := by
  rw [values_eq, values_eq]
  exact (pairs_perm hk).map Prod.snd

theorem erase_of_not_mem (hk : k ∉ t) : t.erase k = t :=
  AList.ext (List.kerase_of_notMem_keys hk)

/-- The number of keys that carry a value. -/
def valueCount [DecidableEq V] (t : Table K V) (v : V) : Nat :=
  ((keySet t).filter fun k => t.lookup k = some v).card

section
variable [DecidableEq V] (t : Table K V)

variable {k : K}

/-- A new entry counts for its own value only. -/
theorem value_count_insert (hk : k ∉ t) (v w : V) :
    (t.insert k v).valueCount w = t.valueCount w + if v = w then 1 else 0 := by
  have hset : (keySet (t.insert k v)).filter (fun i => (t.insert k v).lookup i = some w) =
      if v = w then Insert.insert k ((keySet t).filter fun i => t.lookup i = some w)
      else (keySet t).filter fun i => t.lookup i = some w := by
    ext i
    rw [key_set_insert, Finset.mem_filter, lookup_insert, Finset.mem_insert]
    by_cases hvw : v = w <;> by_cases hi : i = k <;> simp [hvw, hi, hk]
  unfold valueCount
  rw [hset]
  split_ifs
  · rw [Finset.card_insert_of_notMem (by simp [hk])]
  · rfl

variable {v : V}

/-- A removed entry no longer counts for its value. -/
theorem value_count_erase (hk : t.lookup k = some v) (w : V) :
    (t.erase k).valueCount w + (if v = w then 1 else 0) = t.valueCount w := by
  have hset : (keySet (t.erase k)).filter (fun i => (t.erase k).lookup i = some w) =
      ((keySet t).filter fun i => t.lookup i = some w).erase k := by
    ext i
    rw [key_set_erase, Finset.mem_filter, lookup_erase, Finset.mem_erase, Finset.mem_erase,
      Finset.mem_filter]
    by_cases hi : i = k
    · simp [hi]
    · simp [hi]
  have hmem : k ∈ t := mem_iff_lookup.2 ⟨v, hk⟩
  unfold valueCount
  rw [hset]
  split_ifs with hvw
  · exact Finset.card_erase_add_one (by simp [hmem, hk, hvw])
  · rw [Finset.erase_eq_of_notMem (by simp [hk, hvw]), Nat.add_zero]

/-- A value that some key carries is counted. -/
theorem value_count_pos (hk : t.lookup k = some v) : 0 < t.valueCount v :=
  Finset.card_pos.2 ⟨k, by simp [hk, mem_iff_lookup.2 ⟨v, hk⟩]⟩

/-- A counted value is carried by some key. -/
theorem exists_of_value_count_pos (h : 0 < t.valueCount v) : ∃ k, t.lookup k = some v := by
  obtain ⟨k, hk⟩ := Finset.card_pos.1 h
  exact ⟨k, (Finset.mem_filter.1 hk).2⟩

end

end Table

end GoblinStore.Lib
