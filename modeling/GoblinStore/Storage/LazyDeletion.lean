import GoblinStore.Lib.Runs
import GoblinStore.Storage.S3FifoQueues

/-!
# Lazy deletion in S3-FIFO

`remove` leaves the queue entry of the digest behind, and a pop skips it as long as the digest is
not resident in that queue. The reference policy `EagerFifo` has each resident digest in its queue
once, with its visited bit, and deletes it from there at `remove`. The two choose the same victims
as long as no digest is inserted while an old entry of it is queued (`lazy_deletion_transparent`):
such an entry stands for the digest again, at its old place (`lazy_deletion_observable`). The
entries that are left behind are taken away only by evictions, so without evictions their number
grows with every removal (`bookkeeping_unbounded`).
-/

namespace GoblinStore

open GoblinStore.Lib

/-! ## The reference policy -/

/-- The reference policy: the residents of each queue with their visited bits, front first. -/
structure EagerFifo where
  small : List (Digest × Bool)
  main : List (Digest × Bool)
  ghost : List Digest
  ghostSet : Finset Digest
  cap : Nat

namespace EagerFifo

def create (capacityHint : Nat) : EagerFifo :=
  ⟨[], [], [], ∅, if capacityHint = 0 then 1 else capacityHint⟩

/-- Set the visited bit of a digest. -/
def mark (d : Digest) (queue : List (Digest × Bool)) : List (Digest × Bool) :=
  queue.map fun x => if x.1 = d then (d, true) else x

variable (p : EagerFifo)

/-- The digest is in a queue. -/
def Resident (d : Digest) : Prop := d ∈ p.small.map Prod.fst ∨ d ∈ p.main.map Prod.fst

instance (p : EagerFifo) (d : Digest) : Decidable (p.Resident d) :=
  inferInstanceAs (Decidable (_ ∨ _))

def touch (d : Digest) : EagerFifo :=
  { p with small := mark d p.small, main := mark d p.main }

def insert (d : Digest) : EagerFifo :=
  if p.Resident d then p.touch d
  else if d ∈ p.ghostSet then { p with
    ghostSet := p.ghostSet.erase d, main := p.main ++ [(d, false)] }
  else { p with small := p.small ++ [(d, false)] }

/-- A digest is deleted from its queue at once. -/
def remove (d : Digest) : EagerFifo :=
  { p with
    small := p.small.filter fun x => x.1 ≠ d
    main := p.main.filter fun x => x.1 ≠ d
    ghostSet := p.ghostSet.erase d }

def ghostPush (d : Digest) : EagerFifo :=
  let trimmed := S3Fifo.trimGhost p.cap (p.ghost ++ [d]) (Insert.insert d p.ghostSet)
  { p with ghost := trimmed.1, ghostSet := trimmed.2 }

/-- Promote visited items of the small queue and evict the first unvisited one. -/
def evictSmall : Option Digest × EagerFifo :=
  loop p.small p.main
where
  loop : List (Digest × Bool) → List (Digest × Bool) → Option Digest × EagerFifo
  | [], main => (none, { p with small := [], main := main })
  | (d, true) :: rest, main => loop rest (main ++ [(d, false)])
  | (d, false) :: rest, main => (some d, { p with small := rest, main := main }.ghostPush d)

/-- Give visited items of the main queue a second chance and evict the first unvisited one. Every
item is passed over once at most. -/
def evictMain : Nat → EagerFifo → Option Digest × EagerFifo
  | 0, p => (none, p)
  | fuel + 1, p =>
      match p.main with
      | [] => (none, p)
      | (d, true) :: rest => evictMain fuel { p with main := rest ++ [(d, false)] }
      | (d, false) :: rest => (some d, { p with main := rest })

def fromSmall : Bool :=
  if p.small = [] then false
  else if p.main = [] then true
  else decide (max 1 (p.cap / 10) ≤ p.small.length)

def evict : Option Digest × EagerFifo :=
  if p.fromSmall then
    match p.evictSmall with
    | (some d, next) => (some d, next)
    | (none, next) => evictMain (next.main.length + 1) next
  else evictMain (p.main.length + 1) p

end EagerFifo

/-! ## Calls -/

inductive PolicyCall where
  | insert (d : Digest)
  | touch (d : Digest)
  | remove (d : Digest)
  | evict
  deriving DecidableEq

/-- A call, with the answers of the evictions so far. -/
def S3Fifo.serve (s : S3Fifo × List (Option Digest)) : PolicyCall → S3Fifo × List (Option Digest)
  | .insert d => (s.1.insert d, s.2)
  | .touch d => (s.1.touch d, s.2)
  | .remove d => (s.1.remove d, s.2)
  | .evict => (s.1.evict.2, s.2 ++ [s.1.evict.1])

def EagerFifo.serve (s : EagerFifo × List (Option Digest)) :
    PolicyCall → EagerFifo × List (Option Digest)
  | .insert d => (s.1.insert d, s.2)
  | .touch d => (s.1.touch d, s.2)
  | .remove d => (s.1.remove d, s.2)
  | .evict => (s.1.evict.2, s.2 ++ [s.1.evict.1])

/-- The answers of the evictions of a run. -/
def S3Fifo.victims (capacityHint : Nat) (calls : List PolicyCall) : List (Option Digest) :=
  (run S3Fifo.serve (S3Fifo.create capacityHint, []) calls).2

def EagerFifo.victims (capacityHint : Nat) (calls : List PolicyCall) : List (Option Digest) :=
  (run EagerFifo.serve (EagerFifo.create capacityHint, []) calls).2

namespace S3Fifo

/-! ## The queues without the entries left behind -/

/-- The item of a queue entry, unless it was left behind. -/
def item (items : Table Digest Entry) (which : Queue) (d : Digest) : Option (Digest × Bool) :=
  match items.lookup d with
  | some e => if e.q = which then some (d, e.visited) else none
  | none => none

/-- The items of a queue. -/
def view (items : Table Digest Entry) (which : Queue) (queue : List Digest) :
    List (Digest × Bool) :=
  queue.filterMap (item items which)

variable {items items' : Table Digest Entry} {which : Queue} {queue rest : List Digest}
  {d : Digest} {e : Entry}

theorem item_of_lookup (h : items.lookup d = some e) (hq : e.q = which) :
    item items which d = some (d, e.visited) := by
  unfold item
  rw [h]
  exact if_pos hq

theorem item_fst {c : Digest} {x : Digest × Bool} (h : item items which c = some x) : x.1 = c := by
  unfold item at h
  split at h
  · split_ifs at h
    cases h
    rfl
  · cases h

theorem view_append (items : Table Digest Entry) (which : Queue) (queue rest : List Digest) :
    view items which (queue ++ rest) = view items which queue ++ view items which rest :=
  List.filterMap_append

/-- Only the bookkeeping of the queued digests matters. -/
theorem view_congr (h : ∀ c ∈ queue, items'.lookup c = items.lookup c) :
    view items' which queue = view items which queue := by
  unfold view
  refine List.filterMap_congr fun c hc => ?_
  unfold item
  rw [h c hc]

theorem view_insert (h : d ∉ queue) (e : Entry) :
    view (items.insert d e) which queue = view items which queue := by
  refine view_congr fun c hc => ?_
  rw [Table.lookup_insert, if_neg]
  rintro rfl
  exact h hc

theorem view_erase (h : d ∉ queue) : view (items.erase d) which queue = view items which queue := by
  refine view_congr fun c hc => ?_
  rw [Table.lookup_erase, if_neg]
  rintro rfl
  exact h hc

/-- A digest at the back that is resident there. -/
theorem view_push (h : d ∉ queue) (hq : e.q = which) :
    view (items.insert d e) which (queue ++ [d]) = view items which queue ++ [(d, e.visited)] := by
  have hitem : item (items.insert d e) which d = some (d, e.visited) :=
    item_of_lookup (Table.lookup_insert_self _ _ _) hq
  rw [view_append, view_insert h]
  unfold view
  rw [List.filterMap_cons_some hitem]
  rfl

/-- The queued digests that are resident in the queue. -/
theorem mem_view_fst : d ∈ (view items which queue).map Prod.fst ↔
    d ∈ queue ∧ d ∈ members items which := by
  simp only [view, List.mem_map, List.mem_filterMap, mem_members]
  constructor
  · rintro ⟨x, ⟨c, hc, hitem⟩, rfl⟩
    have heq := item_fst hitem
    rw [heq]
    refine ⟨hc, ?_⟩
    unfold item at hitem
    split at hitem
    · rename_i e he
      split_ifs at hitem with hq
      exact ⟨e, he, hq⟩
    · cases hitem
  · rintro ⟨hd, e, he, hq⟩
    exact ⟨(d, e.visited), ⟨d, hd, item_of_lookup he hq⟩, rfl⟩

theorem view_fst_nodup (h : queue.Nodup) : ((view items which queue).map Prod.fst).Nodup := by
  refine List.Nodup.sublist ?_ h
  unfold view
  rw [List.map_filterMap]
  induction queue with
  | nil => exact List.nil_sublist _
  | cons c queue ih =>
      have hrest := ih (List.nodup_cons.1 h).2
      cases hitem : item items which c with
      | none =>
          rw [List.filterMap_cons_none (by rw [hitem]; rfl)]
          exact hrest.cons c
      | some x =>
          rw [List.filterMap_cons_some (by rw [hitem]; rfl), item_fst hitem]
          exact hrest.cons_cons c

/-- A pop takes the first item, with the entries left behind before it. -/
theorem pop_front_resident_view (items : Table Digest Entry) (which : Queue) (queue : List Digest) :
    match popFrontResident items which queue with
    | none => view items which queue = []
    | some (d, e, rest) => items.lookup d = some e ∧ e.q = which ∧ (d :: rest).Sublist queue ∧
        view items which queue = (d, e.visited) :: view items which rest := by
  induction queue with
  | nil => rfl
  | cons c queue ih =>
      rw [popFrontResident]
      have hskip : item items which c = none →
          view items which (c :: queue) = view items which queue := fun hnone =>
        List.filterMap_cons_none hnone
      cases hlookup : items.lookup c with
      | none =>
          rw [hskip (by unfold item; rw [hlookup])]
          dsimp only
          split at ih
          · exact ih
          · exact ⟨ih.1, ih.2.1, ih.2.2.1.cons c, ih.2.2.2⟩
      | some e =>
          dsimp only
          split_ifs with hq
          · exact ⟨hlookup, hq, List.Sublist.refl _,
              List.filterMap_cons_some (item_of_lookup hlookup hq)⟩
          · rw [hskip (by unfold item; rw [hlookup]; exact if_neg hq)]
            split at ih
            · exact ih
            · exact ⟨ih.1, ih.2.1, ih.2.2.1.cons c, ih.2.2.2⟩

/-- The policy with the entries left behind mirrors the reference policy. No digest is queued
twice. -/
structure Mirrors (p : S3Fifo) (q : EagerFifo) : Prop where
  small : q.small = view p.items .small p.small
  main : q.main = view p.items .main p.main
  ghost : q.ghost = p.ghost
  ghostSet : q.ghostSet = p.ghostSet
  cap : q.cap = p.cap
  nodup : (p.small ++ p.main).Nodup

theorem mirrors_create (capacityHint : Nat) :
    Mirrors (create capacityHint) (EagerFifo.create capacityHint) :=
  ⟨rfl, rfl, rfl, rfl, rfl, List.nodup_nil⟩

namespace Mirrors

variable {p : S3Fifo} {q : EagerFifo}

/-- The length of a reference queue is the counter of the policy. -/
theorem view_length (hnodup : queue.Nodup) (hin : ∀ d ∈ members items which, d ∈ queue) :
    (view items which queue).length = (members items which).card := by
  have hset : ((view items which queue).map Prod.fst).toFinset = members items which := by
    ext d
    rw [List.mem_toFinset, mem_view_fst]
    exact ⟨fun h => h.2, fun h => ⟨hin d h, h⟩⟩
  rw [← hset, List.toFinset_card_of_nodup (view_fst_nodup hnodup), List.length_map]

theorem small_length (h : Mirrors p q) (hqueued : p.Queued) : q.small.length = p.smallN := by
  rw [h.small, view_length (List.nodup_append.1 h.nodup).1 hqueued.in_small, hqueued.small_n]

theorem main_length (h : Mirrors p q) (hqueued : p.Queued) : q.main.length = p.mainN := by
  rw [h.main, view_length (List.nodup_append.1 h.nodup).2.1 hqueued.in_main, hqueued.main_n]

theorem resident_iff (h : Mirrors p q) (hqueued : p.Queued) :
    q.Resident d ↔ p.items.lookup d ≠ none := by
  unfold EagerFifo.Resident
  rw [h.small, h.main, mem_view_fst, mem_view_fst, Option.ne_none_iff_exists']
  constructor
  · rintro (⟨-, hmem⟩ | ⟨-, hmem⟩) <;> exact (mem_members.1 hmem).imp fun e he => he.1
  · rintro ⟨e, he⟩
    cases hq : e.q with
    | small =>
        have hmem : d ∈ members p.items .small := mem_members.2 ⟨e, he, hq⟩
        exact Or.inl ⟨hqueued.in_small d hmem, hmem⟩
    | main =>
        have hmem : d ∈ members p.items .main := mem_members.2 ⟨e, he, hq⟩
        exact Or.inr ⟨hqueued.in_main d hmem, hmem⟩

/-- Setting the visited bit of a resident. -/
theorem view_visited (hlookup : items.lookup d = some e) :
    view (items.insert d { e with visited := true }) which queue =
      EagerFifo.mark d (view items which queue) := by
  unfold view EagerFifo.mark
  rw [List.map_filterMap]
  refine List.filterMap_congr fun c _ => ?_
  unfold item
  rw [Table.lookup_insert]
  by_cases hc : c = d
  · subst hc
    rw [if_pos rfl, hlookup]
    dsimp only
    split_ifs
    · simp
    · rfl
  · rw [if_neg hc]
    cases items.lookup c with
    | none => rfl
    | some e' =>
        dsimp only
        split_ifs
        · simp [hc]
        · rfl

/-- A digest that is not resident has no visited bit. -/
theorem mark_view (hnone : items.lookup d = none) :
    EagerFifo.mark d (view items which queue) = view items which queue := by
  have hother : ∀ x ∈ view items which queue, (if x.1 = d then (d, true) else x) = id x := by
    intro x hx
    refine if_neg fun heq => ?_
    have hmem := (mem_view_fst.1 (List.mem_map_of_mem hx)).2
    rw [heq] at hmem
    obtain ⟨e, he, -⟩ := mem_members.1 hmem
    rw [hnone] at he
    cases he
  exact (List.map_congr_left hother).trans (List.map_id _)

theorem touch (h : Mirrors p q) (d : Digest) : Mirrors (p.touch d) (q.touch d) := by
  unfold S3Fifo.touch EagerFifo.touch
  split
  · rename_i e hlookup
    refine { h with small := ?_, main := ?_ }
    · rw [h.small]
      exact (view_visited hlookup).symm
    · rw [h.main]
      exact (view_visited hlookup).symm
  · rename_i hnone
    refine { h with small := ?_, main := ?_ }
    · rw [h.small]
      exact mark_view hnone
    · rw [h.main]
      exact mark_view hnone

/-- A digest without an entry in the queues is inserted. -/
theorem insert (h : Mirrors p q) (hqueued : p.Queued) (d : Digest)
    (hfresh : p.items.lookup d = none → d ∉ p.small ++ p.main) :
    Mirrors (p.insert d) (q.insert d) := by
  unfold S3Fifo.insert EagerFifo.insert
  have hresident := h.resident_iff hqueued (d := d)
  split
  · rename_i e hlookup
    rw [if_pos (hresident.2 (by rw [hlookup]; exact Option.some_ne_none _))]
    refine { h with small := ?_, main := ?_ }
    · show EagerFifo.mark d q.small = _
      rw [h.small]
      exact (view_visited hlookup).symm
    · show EagerFifo.mark d q.main = _
      rw [h.main]
      exact (view_visited hlookup).symm
  · rename_i hnone
    have hnot := hfresh hnone
    obtain ⟨hsmall, hmain⟩ := not_or.1 (mt List.mem_append.2 hnot)
    have hback : ((p.small ++ p.main) ++ [d]).Nodup := by
      rw [← List.concat_eq_append]
      exact h.nodup.concat hnot
    rw [if_neg (mt hresident.1 (not_not.2 hnone)), h.ghostSet]
    split_ifs
    · refine ⟨?_, ?_, h.ghost, rfl, h.cap, ?_⟩
      · rw [view_insert hsmall]
        exact h.small
      · rw [view_push hmain rfl, h.main]
      · show (p.small ++ (p.main ++ [d])).Nodup
        rw [← List.append_assoc]
        exact hback
    · refine ⟨?_, ?_, h.ghost, rfl, h.cap, ?_⟩
      · rw [view_push hsmall rfl, h.small]
      · rw [view_insert hmain]
        exact h.main
      · show (p.small ++ [d] ++ p.main).Nodup
        have hperm : (p.small ++ [d] ++ p.main).Perm ((p.small ++ p.main) ++ [d]) := by
          rw [List.append_assoc, List.append_assoc]
          exact List.Perm.append_left _ List.perm_append_comm
        exact hperm.nodup_iff.2 hback

/-- The entries of a removed digest are left behind. -/
theorem view_removed (items : Table Digest Entry) (d : Digest) (which : Queue)
    (queue : List Digest) :
    view (items.erase d) which queue = (view items which queue).filter fun x => x.1 ≠ d := by
  induction queue with
  | nil => rfl
  | cons c queue ih =>
      have hcons : ∀ t : Table Digest Entry, view t which (c :: queue) =
          (item t which c).toList ++ view t which queue := by
        intro t
        unfold view
        cases hitem : item t which c with
        | none => rw [List.filterMap_cons_none hitem]; rfl
        | some x => rw [List.filterMap_cons_some hitem]; rfl
      rw [hcons, hcons, List.filter_append, ih]
      congr 1
      by_cases hc : c = d
      · subst hc
        have hnone : item (items.erase c) which c = none := by
          unfold item
          rw [Table.lookup_erase, if_pos rfl]
        rw [hnone]
        cases hitem : item items which c with
        | none => rfl
        | some x =>
            have hx := item_fst hitem
            simp [hx]
      · have hsame : item (items.erase d) which c = item items which c := by
          unfold item
          rw [Table.lookup_erase, if_neg hc]
        rw [hsame]
        cases hitem : item items which c with
        | none => rfl
        | some x =>
            have hx := item_fst hitem
            simp [hx, hc]

theorem remove (h : Mirrors p q) (d : Digest) : Mirrors (p.remove d) (q.remove d) := by
  have hitems : (p.remove d).items = p.items.erase d ∨
      (p.remove d).items = p.items ∧ p.items.lookup d = none := by
    unfold S3Fifo.remove
    dsimp only
    split
    · exact Or.inl rfl
    · exact Or.inl rfl
    · rename_i hnone
      exact Or.inr ⟨rfl, hnone⟩
  have hview : ∀ which queue, view (p.remove d).items which queue =
      view (p.items.erase d) which queue := by
    intro which queue
    rcases hitems with heq | ⟨heq, hnone⟩
    · rw [heq]
    · rw [heq]
      refine view_congr fun c _ => ?_
      rw [Table.lookup_erase]
      split_ifs with hc
      · rw [hc, hnone]
      · rfl
  have hqueues : (p.remove d).small = p.small ∧ (p.remove d).main = p.main ∧
      (p.remove d).ghost = p.ghost ∧ (p.remove d).ghostSet = p.ghostSet.erase d ∧
      (p.remove d).cap = p.cap := by
    unfold S3Fifo.remove
    dsimp only
    split <;> exact ⟨rfl, rfl, rfl, rfl, rfl⟩
  obtain ⟨hsmall, hmain, hghost, hset, hcap⟩ := hqueues
  refine ⟨?_, ?_, ?_, ?_, ?_, ?_⟩
  · rw [hview, hsmall, view_removed, ← h.small]
    rfl
  · rw [hview, hmain, view_removed, ← h.main]
    rfl
  · rw [hghost]
    exact h.ghost
  · rw [hset, ← h.ghostSet]
    rfl
  · rw [hcap]
    exact h.cap
  · rw [hsmall, hmain]
    exact h.nodup

/-- The ghosts are the same. -/
theorem ghost_push (h : Mirrors p q) (d : Digest) : Mirrors (p.ghostPush d) (q.ghostPush d) := by
  unfold S3Fifo.ghostPush EagerFifo.ghostPush
  rw [h.ghost, h.ghostSet, h.cap]
  exact ⟨h.small, h.main, rfl, rfl, rfl, h.nodup⟩

/-- The small-queue loops promote the same items and find the same victim. -/
theorem evict_small {small main : List (Digest × Bool)}
    (h : Mirrors p { q with small := small, main := main }) {fuel : Nat}
    (hfuel : p.small.length < fuel) :
    (S3Fifo.evictSmall fuel p).1 = (EagerFifo.evictSmall.loop q small main).1 ∧
      Mirrors (S3Fifo.evictSmall fuel p).2 (EagerFifo.evictSmall.loop q small main).2 := by
  induction fuel generalizing p small main with
  | zero => omega
  | succ fuel ih =>
      have hpop := pop_front_resident_view p.items .small p.small
      have hsmall : small = view p.items .small p.small := h.small
      split at hpop
      · rename_i hnone
        rw [hpop] at hsmall
        rw [S3Fifo.evictSmall, hnone, hsmall, EagerFifo.evictSmall.loop]
        exact ⟨rfl, rfl, h.main, h.ghost, h.ghostSet, h.cap, (List.nodup_append.1 h.nodup).2.1⟩
      · rename_i d e rest hsome
        obtain ⟨hlookup, hq, hsub, hview⟩ := hpop
        have hlen := hsub.length_le
        rw [List.length_cons] at hlen
        -- the popped entry was the only one of its digest
        have hnodup : (d :: rest ++ p.main).Nodup :=
          h.nodup.sublist (hsub.append (List.Sublist.refl _))
        obtain ⟨hout, hnodup⟩ := List.nodup_cons.1 hnodup
        obtain ⟨hrest, hmain⟩ := not_or.1 (mt List.mem_append.2 hout)
        rw [S3Fifo.evictSmall, hsome, hsmall, hview]
        dsimp only
        cases hvisited : e.visited with
        | true =>
            rw [if_pos rfl, EagerFifo.evictSmall.loop]
            refine ih ⟨?_, ?_, h.ghost, h.ghostSet, h.cap, ?_⟩ (by dsimp only; omega)
            · exact (view_insert hrest _).symm
            · show main ++ [(d, false)] = view _ .main (p.main ++ [d])
              rw [view_push hmain rfl, ← h.main]
            · show (rest ++ (p.main ++ [d])).Nodup
              rw [← List.append_assoc, ← List.concat_eq_append]
              exact hnodup.concat hout
        | false =>
            rw [if_neg Bool.false_ne_true, EagerFifo.evictSmall.loop]
            refine ⟨rfl, ghost_push (q := { q with small := _, main := main }) ?_ d⟩
            refine ⟨(view_erase hrest).symm, ?_, h.ghost, h.ghostSet, h.cap, hnodup⟩
            show main = view _ .main p.main
            rw [view_erase hmain, ← h.main]

/-- The number of items with a second chance. -/
def visitedCount (main : List (Digest × Bool)) : Nat := main.countP Prod.snd

/-- The main-queue loops pass over the same items and find the same victim. -/
theorem evict_main (h : Mirrors p q) {fuel fuel' : Nat} (hfuel : visitedCount q.main < fuel)
    (hfuel' : visitedCount q.main < fuel') :
    (S3Fifo.evictMain fuel p).1 = (EagerFifo.evictMain fuel' q).1 ∧
      Mirrors (S3Fifo.evictMain fuel p).2 (EagerFifo.evictMain fuel' q).2 := by
  induction fuel generalizing fuel' p q with
  | zero => omega
  | succ fuel ih =>
      obtain ⟨fuel', rfl⟩ := Nat.exists_eq_succ_of_ne_zero (Nat.ne_zero_of_lt hfuel')
      have hpop := pop_front_resident_view p.items .main p.main
      have hmain := h.main
      split at hpop
      · rename_i hnone
        rw [hpop] at hmain
        rw [S3Fifo.evictMain, EagerFifo.evictMain, hnone, hmain]
        exact ⟨rfl, h.small, hmain, h.ghost, h.ghostSet, h.cap, by
          rw [List.append_nil]
          exact (List.nodup_append.1 h.nodup).1⟩
      · rename_i d e rest hsome
        obtain ⟨hlookup, hq, hsub, hview⟩ := hpop
        have hnodup : (p.small ++ d :: rest).Nodup :=
          h.nodup.sublist ((List.Sublist.refl _).append hsub)
        have hnodup : (d :: (p.small ++ rest)).Nodup := List.perm_middle.nodup_iff.1 hnodup
        obtain ⟨hout, hnodup⟩ := List.nodup_cons.1 hnodup
        obtain ⟨hsmall, hrest⟩ := not_or.1 (mt List.mem_append.2 hout)
        rw [hview] at hmain
        rw [S3Fifo.evictMain, EagerFifo.evictMain, hsome, hmain]
        dsimp only
        cases hvisited : e.visited with
        | true =>
            -- a second chance leaves one visited entry less, which pays for the fuel
            rw [hvisited] at hmain
            have hcount : visitedCount (view p.items .main rest ++ [(d, false)]) + 1 =
                visitedCount q.main := by
              rw [hmain]
              simp [visitedCount]
            rw [if_pos rfl]
            refine ih (p := { p with items := _, main := rest ++ [d] })
              (q := { q with main := view p.items .main rest ++ [(d, false)] })
              ⟨?_, ?_, h.ghost, h.ghostSet, h.cap, ?_⟩
              (Nat.lt_of_succ_le (hcount.le.trans (Nat.lt_succ_iff.1 hfuel)))
              (Nat.lt_of_succ_le (hcount.le.trans (Nat.lt_succ_iff.1 hfuel')))
            · rw [view_insert hsmall]
              exact h.small
            · exact (view_push (e := ⟨e.q, false⟩) hrest hq).symm
            · show (p.small ++ (rest ++ [d])).Nodup
              rw [← List.append_assoc, ← List.concat_eq_append]
              exact hnodup.concat hout
        | false =>
            rw [if_neg Bool.false_ne_true]
            refine ⟨rfl, ⟨?_, ?_, h.ghost, h.ghostSet, h.cap, hnodup⟩⟩
            · rw [view_erase hsmall]
              exact h.small
            · exact (view_erase hrest).symm

theorem evict_from_main (h : Mirrors p q) :
    p.evictFromMain.1 = (EagerFifo.evictMain (q.main.length + 1) q).1 ∧
      Mirrors p.evictFromMain.2 (EagerFifo.evictMain (q.main.length + 1) q).2 := by
  have hcount : visitedCount q.main ≤ q.main.length := List.countP_le_length
  have hlen : q.main.length ≤ p.main.length := by
    rw [h.main]
    exact List.length_filterMap_le _ _
  exact h.evict_main (by omega) (by omega)

theorem from_small (h : Mirrors p q) (hqueued : p.Queued) : p.fromSmall = q.fromSmall := by
  have hsmall := h.small_length hqueued
  have hmain := h.main_length hqueued
  unfold S3Fifo.fromSmall EagerFifo.fromSmall
  rw [← hsmall, ← hmain, h.cap]
  simp only [List.length_eq_zero_iff]

/-- An eviction. -/
theorem evict (h : Mirrors p q) (hqueued : p.Queued) :
    p.evict.1 = q.evict.1 ∧ Mirrors p.evict.2 q.evict.2 := by
  have hfrom := h.from_small hqueued
  unfold S3Fifo.evict EagerFifo.evict
  by_cases hzero : p.smallN = 0 ∧ p.mainN = 0
  · have hmain : q.main = [] := List.eq_nil_of_length_eq_zero
      ((h.main_length hqueued).trans hzero.2)
    have hnot : q.fromSmall = false := by
      rw [← hfrom]
      exact if_pos hzero.1
    rw [if_pos hzero, hnot, if_neg Bool.false_ne_true, EagerFifo.evictMain, hmain]
    exact ⟨rfl, h⟩
  · rw [if_neg hzero, ← hfrom]
    split_ifs
    · have hloop := @evict_small p q q.small q.main h _ (Nat.lt_succ_self _)
      unfold EagerFifo.evictSmall
      revert hloop
      generalize S3Fifo.evictSmall _ p = found
      generalize EagerFifo.evictSmall.loop q q.small q.main = found'
      rintro ⟨hvictim, hnext⟩
      obtain ⟨victim, next⟩ := found
      obtain ⟨victim', next'⟩ := found'
      cases hvictim
      cases victim with
      | some d => exact ⟨rfl, hnext⟩
      | none => exact hnext.evict_from_main
    · exact h.evict_from_main

end Mirrors

/-! ## Runs -/

/-- A call of a digest that is not resident does not find an entry of the digest left behind in a
queue. -/
def ReinsertsClean (s : S3Fifo × List (Option Digest)) : PolicyCall → Prop
  | .insert d => s.1.items.lookup d = none → d ∉ s.1.small ++ s.1.main
  | _ => True

instance : ∀ s call, Decidable (ReinsertsClean s call)
  | s, .insert d =>
      inferInstanceAs (Decidable (s.1.items.lookup d = none → d ∉ s.1.small ++ s.1.main))
  | _, .touch _ => inferInstanceAs (Decidable True)
  | _, .remove _ => inferInstanceAs (Decidable True)
  | _, .evict => inferInstanceAs (Decidable True)

/-- The policies agree on what is queued and on the victims so far. -/
structure Agree (s : S3Fifo × List (Option Digest))
    (t : EagerFifo × List (Option Digest)) : Prop where
  queued : s.1.Queued
  mirrors : Mirrors s.1 t.1
  victims : s.2 = t.2

variable {s : S3Fifo × List (Option Digest)}

theorem Agree.serve {t : EagerFifo × List (Option Digest)}
    (h : Agree s t) (call : PolicyCall) (hclean : ReinsertsClean s call) :
    Agree (S3Fifo.serve s call) (EagerFifo.serve t call) := by
  cases call with
  | insert d => exact ⟨h.queued.insert d, h.mirrors.insert h.queued d hclean, h.victims⟩
  | touch d => exact ⟨h.queued.touch d, h.mirrors.touch d, h.victims⟩
  | remove d => exact ⟨h.queued.remove d, h.mirrors.remove d, h.victims⟩
  | evict =>
      obtain ⟨hvictim, hnext⟩ := h.mirrors.evict h.queued
      refine ⟨h.queued.evict.1, hnext, ?_⟩
      show s.2 ++ [_] = t.2 ++ [_]
      rw [h.victims, hvictim]

/-- The policy and the reference choose the same victims in every run that inserts no digest while
an old entry of it is queued. -/
theorem lazy_deletion_transparent (capacityHint : Nat) (calls : List PolicyCall)
    (h : Allowed S3Fifo.serve ReinsertsClean (create capacityHint, []) calls) :
    S3Fifo.victims capacityHint calls = EagerFifo.victims capacityHint calls := by
  have hstart : Agree (create capacityHint, []) (EagerFifo.create capacityHint, []) :=
    ⟨queued_create capacityHint, mirrors_create capacityHint, rfl⟩
  have hagree := simulation_run (R := Agree)
    (fun _ _ call hclean hagree => hagree.serve call hclean) hstart h
  exact hagree.victims

/-- A digest that was removed and whose entry an eviction has taken away is inserted again. -/
def removedThenEvicted : List PolicyCall :=
  [.insert (.replicate 1), .insert (.replicate 2), .insert (.replicate 3), .touch (.replicate 2),
    .remove (.replicate 1), .evict, .insert (.replicate 1), .evict, .evict, .evict]

theorem lazy_deletion_transparent_after_eviction :
    S3Fifo.victims 2 removedThenEvicted = EagerFifo.victims 2 removedThenEvicted :=
  lazy_deletion_transparent 2 removedThenEvicted (by decide +kernel)

/-- The older of two digests is removed and inserted again. -/
def removedThenInserted : List PolicyCall :=
  [.insert (.replicate 1), .insert (.replicate 2), .remove (.replicate 1),
    .insert (.replicate 1), .evict]

/-- The entry left behind stands for the digest again: the policy evicts it first. -/
theorem lazy_deletion_observable : S3Fifo.victims 4 removedThenInserted = [some (.replicate 1)] ∧
    EagerFifo.victims 4 removedThenInserted = [some (.replicate 2)] := by decide +kernel

/-! ## The size of the bookkeeping -/

/-- The entries of the queues and of the ghost. -/
def size (p : S3Fifo) : Nat := p.small.length + p.main.length + p.ghost.length + p.ghostSet.card

/-- The ghost is trimmed, and its set holds only digests of its list. -/
def Trimmed (cap : Nat) (ghost : List Digest) (ghostSet : Finset Digest) : Prop :=
  ghost.length ≤ cap ∧ ghostSet ⊆ ghost.toFinset

theorem trim_ghost_trimmed (cap : Nat) {ghost : List Digest} {ghostSet : Finset Digest}
    (h : ghostSet ⊆ ghost.toFinset) :
    Trimmed cap (trimGhost cap ghost ghostSet).1 (trimGhost cap ghost ghostSet).2 := by
  induction ghost generalizing ghostSet with
  | nil => exact ⟨Nat.zero_le _, h⟩
  | cons g ghost ih =>
      rw [trimGhost]
      split_ifs with hlong
      · refine ih fun c hc => ?_
        have hmem := h (Finset.mem_of_mem_erase hc)
        rw [List.toFinset_cons, Finset.mem_insert] at hmem
        exact hmem.resolve_left (Finset.ne_of_mem_erase hc)
      · exact ⟨not_lt.1 hlong, h⟩

/-- The capacity stays, and the ghost is trimmed to it. -/
def Bounded (cap : Nat) (p : S3Fifo) : Prop := p.cap = cap ∧ Trimmed p.cap p.ghost p.ghostSet

/-- The entries of the two queues. -/
def entries (p : S3Fifo) : Nat := p.small.length + p.main.length

/-- The entries grew by no more than the residents did. -/
def Sheds (p p' : S3Fifo) : Prop := p'.entries + p.residents.card ≤ p.entries + p'.residents.card

variable {p : S3Fifo}

theorem Sheds.trans {p' p'' : S3Fifo} (h : Sheds p p') (h' : Sheds p' p'') : Sheds p p'' := by
  unfold Sheds at *
  omega

/-- The ghost has at most two entries for each unit of the capacity. -/
theorem Bounded.size_le {cap : Nat} (h : Bounded cap p) :
    p.size ≤ p.entries + 2 * cap := by
  obtain ⟨rfl, hghost, hset⟩ := h
  have hcard := (Finset.card_le_card hset).trans (List.toFinset_card_le p.ghost)
  unfold size entries
  omega

section Evictions

variable {p next : S3Fifo} {result : Option Digest × S3Fifo}

/-- The entry of a resident is rewritten. -/
theorem card_residents_insert {e' : Entry} (h : items.lookup d = some e) :
    (Table.keySet (items.insert d e')).card = (Table.keySet items).card :=
  congrArg Finset.card (key_set_insert_of_lookup h)

/-- A resident is evicted. -/
theorem card_residents_erase (h : items.lookup d = some e) :
    (Table.keySet (items.erase d)).card + 1 = (Table.keySet items).card := by
  rw [Table.key_set_erase]
  exact Finset.card_erase_add_one (Table.mem_key_set.2 (Table.mem_iff_lookup.2 ⟨e, h⟩))

theorem SmallLoop.sheds (h : SmallLoop p result) : Sheds p result.2 := by
  induction h with
  | drained hpop => exact Nat.add_le_add_right (Nat.add_le_add_right (Nat.zero_le _) _) _
  | promotes hpop hpos hvisited hrest ih =>
      obtain ⟨hlookup, -, hlen⟩ := pop_front_resident_spec hpop
      refine Sheds.trans ?_ ih
      simp only [Sheds, entries, residents, card_residents_insert hlookup, List.length_append,
        List.length_singleton]
      omega
  | evicts hpop hpos hvisited =>
      obtain ⟨hlookup, -, hlen⟩ := pop_front_resident_spec hpop
      have hcard := card_residents_erase hlookup
      simp only [Sheds, entries, residents, ghostPush]
      omega

theorem MainLoop.sheds (h : MainLoop p result) : Sheds p result.2 := by
  induction h with
  | drained hpop => exact Nat.add_le_add_right (Nat.add_le_add_left (Nat.zero_le _) _) _
  | spares hpop hvisited hrest ih =>
      obtain ⟨hlookup, -, hlen⟩ := pop_front_resident_spec hpop
      refine Sheds.trans ?_ ih
      simp only [Sheds, entries, residents, card_residents_insert hlookup, List.length_append,
        List.length_singleton]
      omega
  | evicts hpop hpos hvisited =>
      obtain ⟨hlookup, -, hlen⟩ := pop_front_resident_spec hpop
      have hcard := card_residents_erase hlookup
      simp only [Sheds, entries, residents]
      omega

theorem EvictCall.sheds {victim : Option (Queue × Digest)} (h : EvictCall p victim next) :
    Sheds p next := by
  cases h with
  | nothing hsmall hmain => exact le_rfl
  | small hfrom hloop => exact hloop.sheds
  | drained hfrom hloop hmain => exact hloop.sheds.trans hmain.sheds
  | main hfrom hmain => exact hmain.sheds

end Evictions

namespace Bounded

variable {cap : Nat} {p : S3Fifo}

/-- A digest is at most forgotten by the ghost. -/
theorem forget (h : Bounded cap p) (d : Digest) : Trimmed p.cap p.ghost (p.ghostSet.erase d) :=
  ⟨h.2.1, (Finset.erase_subset _ _).trans h.2.2⟩

theorem insert (h : Bounded cap p) (d : Digest) : Bounded cap (p.insert d) := by
  unfold S3Fifo.insert
  split
  · exact h
  · split_ifs
    · exact ⟨h.1, h.forget d⟩
    · exact h

theorem touch (h : Bounded cap p) (d : Digest) : Bounded cap (p.touch d) := by
  unfold S3Fifo.touch
  split <;> exact h

theorem remove (h : Bounded cap p) (d : Digest) : Bounded cap (p.remove d) := by
  unfold S3Fifo.remove
  dsimp only
  split <;> exact ⟨h.1, h.forget d⟩

theorem evict (h : Bounded cap p) (hqueued : p.Queued) : Bounded cap p.evict.2 := by
  have hghosts := hqueued.evict_call.ghosts
  simp only [ghosts, Prod.mk.injEq] at hghosts
  rcases hghosts with ⟨d, -, hcap, hpush⟩ | ⟨-, hcap, hghost, hset⟩
  · have htrim := @trim_ghost_trimmed p.cap (p.ghost ++ [d]) (Insert.insert d p.ghostSet)
      fun c hc => by
      rw [List.mem_toFinset, List.mem_append, List.mem_singleton]
      rcases Finset.mem_insert.1 hc with rfl | hc
      · exact Or.inr rfl
      · exact Or.inl (List.mem_toFinset.1 (h.2.2 hc))
    rw [← hpush] at htrim
    exact ⟨hcap.trans h.1, hcap ▸ htrim⟩
  · refine ⟨hcap.trans h.1, ?_⟩
    rw [hcap, hghost, hset]
    exact h.2

end Bounded

/-- The call removes no resident. -/
def RemovesAbsent (s : S3Fifo × List (Option Digest)) : PolicyCall → Prop
  | .remove d => s.1.items.lookup d = none
  | _ => True

instance : ∀ s call, Decidable (RemovesAbsent s call)
  | s, .remove d => inferInstanceAs (Decidable (s.1.items.lookup d = none))
  | _, .insert _ => inferInstanceAs (Decidable True)
  | _, .touch _ => inferInstanceAs (Decidable True)
  | _, .evict => inferInstanceAs (Decidable True)

/-- The stale entries that the calls make: one for every resident they remove. -/
def unseated : S3Fifo × List (Option Digest) → List PolicyCall → Nat
  | _, [] => 0
  | s, call :: rest => (if RemovesAbsent s call then 0 else 1) + unseated (S3Fifo.serve s call) rest

theorem insert_sheds (p : S3Fifo) (d : Digest) : Sheds p (p.insert d) := by
  unfold Sheds
  rw [residents_insert]
  unfold S3Fifo.insert
  split
  · exact Nat.add_le_add_left (Finset.card_le_card (Finset.subset_insert _ _)) _
  · rename_i hnone
    have hcard : (Insert.insert d p.residents).card = p.residents.card + 1 :=
      Finset.card_insert_of_notMem fun hmem =>
        (Table.lookup_eq_none.1 hnone) (Table.mem_key_set.1 hmem)
    split_ifs <;> (simp only [entries, List.length_append, List.length_singleton]; omega)

/-- The queues keep their entries when a digest is removed. -/
theorem remove_entries (p : S3Fifo) (d : Digest) : (p.remove d).entries = p.entries := by
  unfold S3Fifo.remove
  dsimp only
  split <;> rfl

/-- What one call adds to the entries beyond the residents. -/
theorem serve_sheds (hqueued : s.1.Queued) (call : PolicyCall) :
    (S3Fifo.serve s call).1.entries + s.1.residents.card ≤
      s.1.entries + (S3Fifo.serve s call).1.residents.card +
      if RemovesAbsent s call then 0 else 1 := by
  cases call with
  | insert d => exact Nat.le_add_right_of_le (insert_sheds s.1 d)
  | touch d =>
      have hsame : (s.1.touch d).entries = s.1.entries := by
        unfold S3Fifo.touch
        split <;> rfl
      simp only [S3Fifo.serve, hsame, residents_touch, Nat.le_add_right]
  | remove d =>
      simp only [S3Fifo.serve, remove_entries, residents_remove]
      split_ifs with hnone
      · have hsame : s.1.residents.erase d = s.1.residents := Finset.erase_eq_of_notMem fun hmem =>
          Table.lookup_eq_none.1 hnone (Table.mem_key_set.1 hmem)
        rw [hsame, Nat.add_zero]
      · have hcard := Finset.pred_card_le_card_erase (a := d) (s := s.1.residents)
        omega
  | evict => exact Nat.le_add_right_of_le hqueued.evict_call.sheds

/-- What a run adds: the induction is on the calls, and the invariant is that the queues cover the
residents and the ghost is trimmed. -/
theorem run_sheds {cap : Nat} (hqueued : s.1.Queued)
    (hbounded : Bounded cap s.1) (calls : List PolicyCall) :
    Bounded cap (run S3Fifo.serve s calls).1 ∧
      (run S3Fifo.serve s calls).1.entries + s.1.residents.card ≤
        s.1.entries + (run S3Fifo.serve s calls).1.residents.card + unseated s calls := by
  induction calls generalizing s with
  | nil => exact ⟨hbounded, le_rfl⟩
  | cons call calls ih =>
      have hstep := serve_sheds hqueued call
      have hnext : (S3Fifo.serve s call).1.Queued ∧ Bounded cap (S3Fifo.serve s call).1 := by
        cases call with
        | insert d => exact ⟨hqueued.insert d, hbounded.insert d⟩
        | touch d => exact ⟨hqueued.touch d, hbounded.touch d⟩
        | remove d => exact ⟨hqueued.remove d, hbounded.remove d⟩
        | evict => exact ⟨hqueued.evict.1, hbounded.evict hqueued⟩
      obtain ⟨hlast, hrest⟩ := ih hnext.1 hnext.2
      refine ⟨hlast, ?_⟩
      rw [unseated]
      rw [run_cons]
      omega

/-- The state after a run. -/
def after (capacityHint : Nat) (calls : List PolicyCall) : S3Fifo :=
  (run S3Fifo.serve (create capacityHint, []) calls).1

/-- A run that removes no resident leaves no entry behind. -/
theorem unseated_eq_zero {calls : List PolicyCall}
    (h : Allowed S3Fifo.serve RemovesAbsent s calls) : unseated s calls = 0 := by
  induction calls generalizing s with
  | nil => rfl
  | cons call calls ih => rw [unseated, if_pos h.1, ih h.2]

/-- The bookkeeping of a run with at most `K` residents at a time: the queues hold one entry for
each of them and the stale entries, of which a removal of a resident makes one, and the ghost holds
at most the capacity. -/
theorem bookkeeping_bounded (capacityHint K : Nat) (calls : List PolicyCall)
    (hresidents : ∀ earlier, earlier <+: calls → (after capacityHint earlier).residents.card ≤ K) :
    (after capacityHint calls).size ≤
        K + 2 * (create capacityHint).cap + unseated (create capacityHint, []) calls ∧
      (Allowed S3Fifo.serve RemovesAbsent (create capacityHint, []) calls →
        (after capacityHint calls).size ≤ K + 2 * (create capacityHint).cap) := by
  have hstart : Bounded (create capacityHint).cap (create capacityHint) :=
    ⟨rfl, Nat.zero_le _, Finset.empty_subset _⟩
  obtain ⟨hbounded, hentries⟩ :=
    run_sheds (s := (create capacityHint, [])) (queued_create capacityHint) hstart calls
  have hsize := hbounded.size_le
  have hcard := hresidents calls List.prefix_rfl
  have hnone : (create capacityHint).entries = 0 := rfl
  have hempty : (create capacityHint).residents.card = 0 := rfl
  have hbound : (after capacityHint calls).size ≤
      K + 2 * (create capacityHint).cap + unseated (create capacityHint, []) calls := by
    unfold after at hcard ⊢
    dsimp only at hentries
    omega
  refine ⟨hbound, fun habsent => ?_⟩
  rwa [unseated_eq_zero habsent] at hbound

/-- An item is evicted, one that was never there is removed, and a resident is removed. -/
def evictedAndRemoved : List PolicyCall :=
  [.insert (.replicate 1), .remove (.replicate 2), .insert (.replicate 2), .touch (.replicate 1),
    .evict, .remove (.replicate 1)]

theorem bookkeeping_bounded_evictions :
    (∀ earlier, earlier <+: evictedAndRemoved → (after 4 earlier).residents.card ≤ 2) ∧
      unseated (create 4, []) evictedAndRemoved = 1 ∧ (after 4 evictedAndRemoved).size ≤ 11 := by
  have hresidents : ∀ earlier ∈ evictedAndRemoved.inits, (after 4 earlier).residents.card ≤ 2 := by
    decide +kernel
  have hprefixes : ∀ earlier, earlier <+: evictedAndRemoved →
      (after 4 earlier).residents.card ≤ 2 :=
    fun earlier hearlier => hresidents earlier ((List.mem_inits _ _).2 hearlier)
  have hone : unseated (create 4, []) evictedAndRemoved = 1 := by decide +kernel
  have hbound := (bookkeeping_bounded 4 2 evictedAndRemoved hprefixes).1
  rw [hone] at hbound
  exact ⟨hprefixes, hone, hbound⟩

/-- A digest is inserted and removed again and again. -/
def churn (d : Digest) : Nat → List PolicyCall
  | 0 => []
  | n + 1 => .insert d :: .remove d :: churn d n

/-- Every round leaves an entry behind. -/
theorem churn_small_length (d : Digest) (n : Nat) (log : List (Option Digest))
    (hnone : p.items.lookup d = none) (hghost : d ∉ p.ghostSet) :
    (run S3Fifo.serve (p, log) (churn d n)).1.small.length = p.small.length + n := by
  induction n generalizing p with
  | zero => rfl
  | succ n ih =>
      have hinsert : p.insert d = { p with
          items := p.items.insert d ⟨.small, false⟩, small := p.small ++ [d],
            smallN := p.smallN + 1 } := by
        unfold S3Fifo.insert
        rw [hnone]
        exact if_neg hghost
      have hround : (p.insert d).remove d = { p with
          items := (p.items.insert d ⟨.small, false⟩).erase d, small := p.small ++ [d]
          smallN := p.smallN + 1 - 1, ghostSet := p.ghostSet.erase d } := by
        rw [hinsert]
        unfold S3Fifo.remove
        simp only [Table.lookup_insert_self]
      show (run S3Fifo.serve ((p.insert d).remove d, log) (churn d n)).1.small.length = _
      rw [hround, ih]
      · show (p.small ++ [d]).length + n = _
        rw [List.length_append, List.length_singleton]
        omega
      · exact (Table.lookup_erase _ _ _).trans (if_pos rfl)
      · exact Finset.notMem_erase _ _

theorem mem_churn {n : Nat} {call : PolicyCall} (h : call ∈ churn d n) :
    call = .insert d ∨ call = .remove d := by
  induction n with
  | zero => cases h
  | succ n ih =>
      rcases List.mem_cons.1 h with heq | h
      · exact Or.inl heq
      · rcases List.mem_cons.1 h with heq | h
        · exact Or.inr heq
        · exact ih h

/-- One digest at most is resident in the rounds. -/
theorem churn_residents (capacityHint : Nat) (d : Digest) (n : Nat) {earlier : List PolicyCall}
    (h : earlier <+: churn d n) : (after capacityHint earlier).residents.card ≤ 1 := by
  have hcalls : Allowed S3Fifo.serve (fun _ call => call = .insert d ∨ call = .remove d)
      (create capacityHint, []) earlier :=
    allowed_of_forall (fun call hcall _ => mem_churn (h.subset hcall)) _
  have hsub : (after capacityHint earlier).residents ⊆ {d} := by
    refine invariant_run (I := fun s => s.1.residents ⊆ {d}) ?_ (Finset.empty_subset _) hcalls
    rintro s call (rfl | rfl) hsub
    · show (s.1.insert d).residents ⊆ {d}
      rw [residents_insert]
      exact Finset.insert_subset (Finset.mem_singleton_self d) hsub
    · show (s.1.remove d).residents ⊆ {d}
      rw [residents_remove]
      exact (Finset.erase_subset _ _).trans hsub
  exact (Finset.card_le_card hsub).trans (Finset.card_singleton d).le

/-- No bound on the bookkeeping depends only on the capacity and on the number of residents. -/
theorem bookkeeping_unbounded : ¬ ∃ bound : Nat → Nat → Nat, ∀ capacityHint K calls,
    (∀ earlier, earlier <+: calls → (after capacityHint earlier).residents.card ≤ K) →
      (after capacityHint calls).size ≤ bound (create capacityHint).cap K := by
  rintro ⟨bound, hbound⟩
  have hsize := hbound 1 1 (churn (.replicate 0) (bound 1 1 + 1)) fun _ h => churn_residents 1 _ _ h
  have hlength : (after 1 (churn (.replicate 0) (bound 1 1 + 1))).small.length =
      0 + (bound 1 1 + 1) :=
    churn_small_length _ _ [] rfl (Finset.notMem_empty _)
  have hcap : (create 1).cap = 1 := rfl
  rw [hcap] at hsize
  unfold size at hsize
  omega

end S3Fifo

end GoblinStore
