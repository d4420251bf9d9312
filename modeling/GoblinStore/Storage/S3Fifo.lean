import GoblinStore.Common.Types
import GoblinStore.Lib.Table

/-!
# The S3-FIFO eviction policy

A small and a main FIFO queue with a ghost queue of recent small-queue victims. Queue entries of
removed or promoted items stay behind and are skipped when they reach the front. The facts the
tier manager relies on are about the set of resident digests: `insert`, `touch`, `remove` and
`evict` change it as their names say (`residents_insert`, …, `evict_some`, `evict_none`).
-/

namespace GoblinStore

open GoblinStore.Lib

/-- Which queue a resident item is in. -/
inductive Queue where
  | small
  | main
  deriving DecidableEq, Repr

/-- The bookkeeping of one resident item. -/
structure Entry where
  q : Queue
  visited : Bool
  deriving DecidableEq, Repr

/-- The policy's state; `front` of a queue is the head of the list. -/
structure S3Fifo where
  small : List Digest
  main : List Digest
  ghost : List Digest
  items : Table Digest Entry
  ghostSet : Finset Digest
  cap : Nat
  smallN : Nat
  mainN : Nat

namespace S3Fifo

/-- An empty policy; a zero hint counts as one. -/
def create (capacityHint : Nat) : S3Fifo :=
  ⟨[], [], [], ∅, ∅, if capacityHint = 0 then 1 else capacityHint, 0, 0⟩

/-- Admit a digest: to main when it is a recent ghost, else to small. -/
def insert (p : S3Fifo) (d : Digest) : S3Fifo :=
  match p.items.lookup d with
  | some e => { p with items := p.items.insert d { e with visited := true } }
  | none =>
      if d ∈ p.ghostSet then
        { p with
          ghostSet := p.ghostSet.erase d
          items := p.items.insert d ⟨.main, false⟩
          main := p.main ++ [d]
          mainN := p.mainN + 1 }
      else
        { p with
          items := p.items.insert d ⟨.small, false⟩
          small := p.small ++ [d]
          smallN := p.smallN + 1 }

/-- Record a hit. -/
def touch (p : S3Fifo) (d : Digest) : S3Fifo :=
  match p.items.lookup d with
  | some e => { p with items := p.items.insert d { e with visited := true } }
  | none => p

/-- Forget a digest that was dropped from outside; its queue entry stays behind. -/
def remove (p : S3Fifo) (d : Digest) : S3Fifo :=
  let p :=
    match p.items.lookup d with
    | some ⟨.small, _⟩ => { p with smallN := p.smallN - 1, items := p.items.erase d }
    | some ⟨.main, _⟩ => { p with mainN := p.mainN - 1, items := p.items.erase d }
    | none => p
  { p with ghostSet := p.ghostSet.erase d }

/-- Pop queue entries up to the first that is resident in this queue; the rest of the queue. -/
def popFrontResident (items : Table Digest Entry) (which : Queue) :
    List Digest → Option (Digest × Entry × List Digest)
  | [] => none
  | d :: queue =>
      match items.lookup d with
      | some e => if e.q = which then some (d, e, queue) else popFrontResident items which queue
      | none => popFrontResident items which queue

/-- Drop ghosts from the front while there are more than `cap`. -/
def trimGhost (cap : Nat) : List Digest → Finset Digest → List Digest × Finset Digest
  | [], members => ([], members)
  | g :: ghosts, members =>
      if (g :: ghosts).length > cap then trimGhost cap ghosts (members.erase g)
      else (g :: ghosts, members)

/-- Remember a small-queue victim. -/
def ghostPush (p : S3Fifo) (d : Digest) : S3Fifo :=
  let trimmed := trimGhost p.cap (p.ghost ++ [d]) (Insert.insert d p.ghostSet)
  { p with ghost := trimmed.1, ghostSet := trimmed.2 }

/-- Promote visited items of the small queue and evict the first unvisited one. Every iteration
shortens the queue, so its length bounds their number. -/
def evictSmall : Nat → S3Fifo → Option Digest × S3Fifo
  | 0, p => (none, p)
  | fuel + 1, p =>
      match popFrontResident p.items .small p.small with
      | none => (none, { p with small := [] })
      | some (d, e, rest) =>
          if e.visited then
            evictSmall fuel
              { p with
                small := rest
                smallN := p.smallN - 1
                items := p.items.insert d ⟨.main, false⟩
                main := p.main ++ [d]
                mainN := p.mainN + 1 }
          else
            (some d, ghostPush { p with
              small := rest, smallN := p.smallN - 1, items := p.items.erase d } d)

/-- Give visited items of the main queue a second chance and evict the first unvisited one.
Every iteration shortens the queue or clears a visited bit. -/
def evictMain : Nat → S3Fifo → Option Digest × S3Fifo
  | 0, p => (none, p)
  | fuel + 1, p =>
      match popFrontResident p.items .main p.main with
      | none => (none, { p with main := [] })
      | some (d, e, rest) =>
          if e.visited then
            evictMain fuel
              { p with
                items := p.items.insert d { e with visited := false }
                main := rest ++ [d] }
          else
            (some d, { p with main := rest, mainN := p.mainN - 1, items := p.items.erase d })

/-- Whether `evict` starts with the small queue. -/
def fromSmall (p : S3Fifo) : Bool :=
  if p.smallN = 0 then false
  else if p.mainN = 0 then true
  else decide (max 1 (p.cap / 10) ≤ p.smallN)

/-- The main-queue part of `evict`. -/
def evictFromMain (p : S3Fifo) : Option Digest × S3Fifo :=
  evictMain (p.main.length + p.items.keys.length + 1) p

/-- The next victim, removed from the policy. -/
def evict (p : S3Fifo) : Option Digest × S3Fifo :=
  if p.smallN = 0 ∧ p.mainN = 0 then (none, p)
  else if p.fromSmall then
    match evictSmall (p.small.length + 1) p with
    | (some d, next) => (some d, next)
    | (none, next) => next.evictFromMain
  else p.evictFromMain

/-! ## The resident digests -/

/-- The digests the policy tracks. -/
def residents (p : S3Fifo) : Finset Digest := Table.keySet p.items

theorem residents_create (capacityHint : Nat) : (create capacityHint).residents = ∅ := rfl

variable {items : Table Digest Entry} {d : Digest} {e : Entry}

/-- Overwriting the entry of a resident leaves the residents alone. -/
theorem key_set_insert_of_lookup {e' : Entry}
    (h : items.lookup d = some e) : Table.keySet (items.insert d e') = Table.keySet items := by
  rw [Table.key_set_insert]
  exact Finset.insert_eq_of_mem (Table.mem_key_set.2 (Table.mem_iff_lookup.2 ⟨e, h⟩))

theorem residents_insert (p : S3Fifo) (d : Digest) :
    (p.insert d).residents = Insert.insert d p.residents := by
  unfold insert residents
  split
  · exact Table.key_set_insert _ _ _
  · split_ifs
    · exact Table.key_set_insert _ _ _
    · exact Table.key_set_insert _ _ _

theorem residents_touch (p : S3Fifo) (d : Digest) : (p.touch d).residents = p.residents := by
  unfold touch residents
  split
  · rename_i h
    exact key_set_insert_of_lookup h
  · rfl

theorem residents_remove (p : S3Fifo) (d : Digest) :
    (p.remove d).residents = p.residents.erase d := by
  unfold remove residents
  dsimp only
  split
  · exact Table.key_set_erase _ _
  · exact Table.key_set_erase _ _
  · rename_i h
    rw [Finset.erase_eq_of_notMem]
    rwa [Table.mem_key_set, ← Table.lookup_eq_none]

/-- A popped digest is resident in the queue it was popped from. -/
theorem pop_front_resident_spec {which : Queue} {queue rest : List Digest}
    (h : popFrontResident items which queue = some (d, e, rest)) :
    items.lookup d = some e ∧ e.q = which ∧ rest.length < queue.length := by
  induction queue with
  | nil => cases h
  | cons c queue ih =>
      rw [popFrontResident] at h
      split at h
      · rename_i e' hlookup
        split_ifs at h with hq
        · simp only [Option.some.injEq, Prod.mk.injEq] at h
          obtain ⟨rfl, rfl, rfl⟩ := h
          exact ⟨hlookup, hq, Nat.lt_succ_self _⟩
        · obtain ⟨h1, h2, h3⟩ := ih h
          exact ⟨h1, h2, Nat.lt_succ_of_lt h3⟩
      · obtain ⟨h1, h2, h3⟩ := ih h
        exact ⟨h1, h2, Nat.lt_succ_of_lt h3⟩

/-- What an eviction loop does to the residents: the victim, if any, leaves. -/
def Evicted (p : S3Fifo) (result : Option Digest × S3Fifo) : Prop :=
  match result.1 with
  | some d => d ∈ p.residents ∧ result.2.residents = p.residents.erase d
  | none => result.2.residents = p.residents

variable {p : S3Fifo}

/-- The residents of two policies with equal residents are evicted alike. -/
theorem Evicted.of_eq {q : S3Fifo} {result : Option Digest × S3Fifo}
    (hpq : q.residents = p.residents) (h : Evicted q result) : Evicted p result := by
  unfold Evicted at *
  rwa [hpq] at h

theorem evict_small_evicted (fuel : Nat) (p : S3Fifo) : Evicted p (evictSmall fuel p) := by
  induction fuel generalizing p with
  | zero => exact rfl
  | succ fuel ih =>
      rw [evictSmall]
      split
      · exact rfl
      · rename_i d e rest hpop
        obtain ⟨hlookup, -, -⟩ := pop_front_resident_spec hpop
        split_ifs
        · refine Evicted.of_eq ?_ (ih _)
          exact key_set_insert_of_lookup hlookup
        · exact ⟨Table.mem_key_set.2 (Table.mem_iff_lookup.2 ⟨e, hlookup⟩), Table.key_set_erase _ _⟩

theorem evict_main_evicted (fuel : Nat) (p : S3Fifo) : Evicted p (evictMain fuel p) := by
  induction fuel generalizing p with
  | zero => exact rfl
  | succ fuel ih =>
      rw [evictMain]
      split
      · exact rfl
      · rename_i d e rest hpop
        obtain ⟨hlookup, -, -⟩ := pop_front_resident_spec hpop
        split_ifs
        · refine Evicted.of_eq ?_ (ih _)
          exact key_set_insert_of_lookup hlookup
        · exact ⟨Table.mem_key_set.2 (Table.mem_iff_lookup.2 ⟨e, hlookup⟩), Table.key_set_erase _ _⟩

theorem evict_evicted (p : S3Fifo) : Evicted p p.evict := by
  unfold evict
  split_ifs
  · exact rfl
  · have hsmall := evict_small_evicted (p.small.length + 1) p
    split
    · rename_i d next heq
      rwa [heq] at hsmall
    · rename_i next heq
      rw [heq] at hsmall
      exact (evict_main_evicted _ next).of_eq hsmall
  · exact evict_main_evicted _ p

variable {next : S3Fifo}

/-- A victim was resident, and only the victim leaves. -/
theorem evict_some (h : p.evict = (some d, next)) :
    d ∈ p.residents ∧ next.residents = p.residents.erase d := by
  have := evict_evicted p
  rwa [h] at this

/-- Without a victim the residents stay. -/
theorem evict_none (h : p.evict = (none, next)) :
    next.residents = p.residents := by
  have := evict_evicted p
  rwa [h] at this

/-- An eviction lowers the number of residents. -/
theorem card_residents_evict (h : p.evict = (some d, next)) :
    next.residents.card < p.residents.card := by
  obtain ⟨hmem, heq⟩ := evict_some h
  rw [heq]
  exact Finset.card_erase_lt_of_mem hmem

/-! ## The bounds on the eviction loops are never reached -/

/-- The small-queue loop gives one result for every bound above the queue's length. -/
theorem evict_small_fuel {fuel : Nat} (hfuel : p.small.length < fuel) :
    evictSmall fuel p = evictSmall (p.small.length + 1) p := by
  induction fuel using Nat.strongRecOn generalizing p with
  | ind fuel ih =>
      obtain ⟨more, rfl⟩ : ∃ more, fuel = more + 1 := ⟨fuel - 1, by omega⟩
      rw [evictSmall, evictSmall]
      split
      · rfl
      · rename_i d e rest hpop
        obtain ⟨-, -, hlen⟩ := pop_front_resident_spec hpop
        split_ifs
        · rw [ih more (by omega) (by dsimp only; omega)]
          by_cases hlast : p.small.length < more + 1 ∧ p.small.length ≠ more
          · rw [ih p.small.length (by omega) (by dsimp only; omega)]
          · rw [show p.small.length = more by omega, ih more (by omega) (by dsimp only; omega)]
        · rfl

/-- The residents whose visited bit is set. -/
def visitedSet (items : Table Digest Entry) : Finset Digest :=
  (Table.keySet items).filter fun d => ∃ e, items.lookup d = some e ∧ e.visited = true

/-- Clearing a visited bit lowers the number of visited residents. -/
theorem card_visited_clear (hlookup : items.lookup d = some e) (hvisited : e.visited = true) :
    (visitedSet (items.insert d { e with visited := false })).card < (visitedSet items).card := by
  refine Finset.card_lt_card ?_
  rw [Finset.ssubset_iff_of_subset]
  · refine ⟨d, ?_, ?_⟩
    · simp only [visitedSet, Finset.mem_filter, Table.mem_key_set, Table.mem_iff_lookup]
      exact ⟨⟨e, hlookup⟩, e, hlookup, hvisited⟩
    · simp [visitedSet, Table.lookup_insert]
  · intro c hc
    simp only [visitedSet, Finset.mem_filter, key_set_insert_of_lookup hlookup,
      Table.lookup_insert] at hc ⊢
    refine ⟨hc.1, ?_⟩
    obtain ⟨e', he', hv⟩ := hc.2
    split_ifs at he' with hcd
    · cases he'
      cases hv
    · exact ⟨e', he', hv⟩

/-- The main-queue loop gives one result for every bound above the queue's length plus the
number of visited residents. -/
theorem evict_main_fuel {fuel fuel' : Nat}
    (hfuel : p.main.length + (visitedSet p.items).card < fuel)
    (hfuel' : p.main.length + (visitedSet p.items).card < fuel') :
    evictMain fuel p = evictMain fuel' p := by
  induction fuel generalizing fuel' p with
  | zero => omega
  | succ more ih =>
      obtain ⟨more', rfl⟩ : ∃ more', fuel' = more' + 1 := ⟨fuel' - 1, by omega⟩
      rw [evictMain, evictMain]
      split
      · rfl
      · rename_i d e rest hpop
        obtain ⟨hlookup, -, hlen⟩ := pop_front_resident_spec hpop
        split_ifs with hvisited
        · have hcard := card_visited_clear hlookup hvisited
          refine ih ?_ ?_ <;>
            (simp only [List.length_append, List.length_singleton]; omega)
        · rfl

end S3Fifo

end GoblinStore
