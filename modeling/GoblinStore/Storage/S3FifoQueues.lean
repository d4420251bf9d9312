import GoblinStore.Storage.S3Fifo

/-!
# The queues of S3-FIFO cover the residents

Every resident digest has an entry in the queue its bookkeeping names, and the two counters count
the residents of the queues (`S3Fifo.Queued`). The stale entries that removals and promotions leave
behind do no harm: a pop skips them. So `evict` finds a victim as long as there is a resident
(`Queued.evict_none`).
-/

namespace GoblinStore.S3Fifo

open GoblinStore.Lib

/-- The residents of one queue. -/
def members (items : Table Digest Entry) (which : Queue) : Finset Digest :=
  (Table.keySet items).filter fun d => ∃ e, items.lookup d = some e ∧ e.q = which

variable {items : Table Digest Entry} {which : Queue} {d c : Digest} {e : Entry}

theorem mem_members : d ∈ members items which ↔ ∃ e, items.lookup d = some e ∧ e.q = which := by
  simp only [members, Finset.mem_filter, Table.mem_key_set_iff_lookup, and_iff_right_iff_imp]
  rintro ⟨e, he, -⟩
  exact ⟨e, he⟩

theorem members_insert (items : Table Digest Entry) (d : Digest) (e : Entry) (which : Queue) :
    members (items.insert d e) which =
      if e.q = which then Insert.insert d (members items which) else
      (members items which).erase d := by
  ext c
  rw [mem_members]
  split_ifs with hq
  · rw [Finset.mem_insert, mem_members]
    by_cases hc : c = d
    · simp [hc, hq]
    · simp [hc, Table.lookup_insert]
  · rw [Finset.mem_erase, mem_members]
    by_cases hc : c = d
    · simp [hc, hq]
    · simp [hc, Table.lookup_insert]

theorem members_erase (items : Table Digest Entry) (d : Digest) (which : Queue) :
    members (items.erase d) which = (members items which).erase d := by
  ext c
  rw [mem_members, Finset.mem_erase, mem_members]
  by_cases hc : c = d
  · simp [hc, Table.lookup_erase]
  · simp [hc, Table.lookup_erase]

/-- An entry that keeps its queue keeps the members. -/
theorem members_insert_same {e' : Entry} (hlookup : items.lookup d = some e) (hq : e'.q = e.q)
    (which : Queue) : members (items.insert d e') which = members items which := by
  rw [members_insert]
  split_ifs with hwhich
  · exact Finset.insert_eq_of_mem (mem_members.2 ⟨e, hlookup, hq ▸ hwhich⟩)
  · refine Finset.erase_eq_of_notMem fun hmem => ?_
    obtain ⟨e'', he'', hq''⟩ := mem_members.1 hmem
    rw [hlookup, Option.some.injEq] at he''
    exact hwhich (hq.trans (he'' ▸ hq''))

theorem residents_eq_members (p : S3Fifo) :
    p.residents = members p.items .small ∪ members p.items .main := by
  ext d
  rw [residents, Table.mem_key_set_iff_lookup, Finset.mem_union, mem_members, mem_members]
  constructor
  · rintro ⟨e, he⟩
    cases hq : e.q with
    | small => exact Or.inl ⟨e, he, hq⟩
    | main => exact Or.inr ⟨e, he, hq⟩
  · rintro (⟨e, he, -⟩ | ⟨e, he, -⟩)
    · exact ⟨e, he⟩
    · exact ⟨e, he⟩

/-! ## Pops -/

variable {rest : List Digest}

/-- A pop passes over no member of the queue but the one it returns. -/
theorem pop_front_resident_keeps {queue : List Digest}
    (h : popFrontResident items which queue = some (d, e, rest)) (hmem : c ∈ members items which)
    (hqueue : c ∈ queue) (hne : c ≠ d) : c ∈ rest := by
  obtain ⟨e', hlookup, hq⟩ := mem_members.1 hmem
  induction queue with
  | nil => cases h
  | cons b queue ih =>
      rw [popFrontResident] at h
      rcases List.mem_cons.1 hqueue with rfl | htail
      · simp only [hlookup, hq, if_true, Option.some.injEq, Prod.mk.injEq] at h
        exact absurd h.1 hne
      · split at h
        · split_ifs at h
          · simp only [Option.some.injEq, Prod.mk.injEq] at h
            exact h.2.2 ▸ htail
          · exact ih h htail
        · exact ih h htail

/-- A pop that finds nothing passed over no member at all. -/
theorem pop_front_resident_none {queue : List Digest}
    (h : popFrontResident items which queue = none) (hmem : c ∈ members items which) :
    c ∉ queue := by
  obtain ⟨e', hlookup, hq⟩ := mem_members.1 hmem
  induction queue with
  | nil => exact List.not_mem_nil
  | cons b queue ih =>
      intro hqueue
      rw [popFrontResident] at h
      rcases List.mem_cons.1 hqueue with rfl | htail
      · simp [hlookup, hq] at h
      · split at h
        · split_ifs at h
          exact ih h htail
        · exact ih h htail

/-! ## The invariant -/

/-- Residents are in their queues and the counters count them. -/
structure Queued (p : S3Fifo) : Prop where
  in_small : ∀ d ∈ members p.items .small, d ∈ p.small
  in_main : ∀ d ∈ members p.items .main, d ∈ p.main
  small_n : p.smallN = (members p.items .small).card
  main_n : p.mainN = (members p.items .main).card

variable {p next : S3Fifo}

theorem queued_create (capacityHint : Nat) : (create capacityHint).Queued where
  in_small d hd := by simp [create, mem_members] at hd
  in_main d hd := by simp [create, mem_members] at hd
  small_n := rfl
  main_n := rfl

/-- Setting or clearing a visited bit. -/
theorem Queued.rewrite (h : p.Queued) {e' : Entry} (hlookup : p.items.lookup d = some e)
    (hq : e'.q = e.q) : Queued { p with items := p.items.insert d e' } where
  in_small c hc := by
    rw [members_insert_same hlookup hq] at hc
    exact h.in_small c hc
  in_main c hc := by
    rw [members_insert_same hlookup hq] at hc
    exact h.in_main c hc
  small_n := by
    rw [members_insert_same hlookup hq]
    exact h.small_n
  main_n := by
    rw [members_insert_same hlookup hq]
    exact h.main_n

theorem not_mem_members (hnone : p.items.lookup d = none) (which : Queue) :
    d ∉ members p.items which := by
  intro hmem
  obtain ⟨e, he, -⟩ := mem_members.1 hmem
  rw [hnone] at he
  cases he

theorem Queued.insert (h : p.Queued) (d : Digest) : (p.insert d).Queued := by
  unfold S3Fifo.insert
  split
  · rename_i e hlookup
    exact h.rewrite hlookup rfl
  · rename_i hnone
    have hsmall := not_mem_members hnone .small
    have hmain := not_mem_members hnone .main
    split_ifs
    · refine ⟨fun c hc => ?_, fun c hc => ?_, ?_, ?_⟩
      · rw [members_insert, if_neg (by decide)] at hc
        exact h.in_small c (Finset.mem_of_mem_erase hc)
      · rw [members_insert, if_pos rfl, Finset.mem_insert] at hc
        rcases hc with rfl | hc
        · exact List.mem_append_right _ (List.mem_singleton_self c)
        · exact List.mem_append_left _ (h.in_main c hc)
      · rw [members_insert, if_neg (by decide), Finset.erase_eq_of_notMem hsmall]
        exact h.small_n
      · rw [members_insert, if_pos rfl, Finset.card_insert_of_notMem hmain]
        exact congrArg (· + 1) h.main_n
    · refine ⟨fun c hc => ?_, fun c hc => ?_, ?_, ?_⟩
      · rw [members_insert, if_pos rfl, Finset.mem_insert] at hc
        rcases hc with rfl | hc
        · exact List.mem_append_right _ (List.mem_singleton_self c)
        · exact List.mem_append_left _ (h.in_small c hc)
      · rw [members_insert, if_neg (by decide)] at hc
        exact h.in_main c (Finset.mem_of_mem_erase hc)
      · rw [members_insert, if_pos rfl, Finset.card_insert_of_notMem hsmall]
        exact congrArg (· + 1) h.small_n
      · rw [members_insert, if_neg (by decide), Finset.erase_eq_of_notMem hmain]
        exact h.main_n

theorem Queued.touch (h : p.Queued) (d : Digest) : (p.touch d).Queued := by
  unfold S3Fifo.touch
  split
  · rename_i e hlookup
    exact h.rewrite hlookup rfl
  · exact h

/-- A digest is a member of one queue at most. -/
theorem not_mem_other (hlookup : items.lookup d = some e) (hq : e.q ≠ which) :
    d ∉ members items which := by
  intro hmem
  obtain ⟨e', he', hq'⟩ := mem_members.1 hmem
  rw [hlookup, Option.some.injEq] at he'
  exact hq (he' ▸ hq')

/-- The counters after the entry of a resident is erased. -/
theorem card_erase_members (hlookup : items.lookup d = some e) (which : Queue) :
    (members (items.erase d) which).card =
      if e.q = which then (members items which).card - 1 else (members items which).card := by
  rw [members_erase]
  split_ifs with hq
  · exact Finset.card_erase_of_mem (mem_members.2 ⟨e, hlookup, hq⟩)
  · rw [Finset.erase_eq_of_notMem (not_mem_other hlookup hq)]

theorem Queued.remove (h : p.Queued) (d : Digest) : (p.remove d).Queued := by
  have hin : ∀ which c, c ∈ members (p.items.erase d) which → c ∈ members p.items which := by
    intro which c hc
    rw [members_erase] at hc
    exact Finset.mem_of_mem_erase hc
  unfold S3Fifo.remove
  dsimp only
  split
  · rename_i visited hlookup
    refine ⟨fun c hc => h.in_small c (hin _ c hc), fun c hc => h.in_main c (hin _ c hc), ?_, ?_⟩
    · rw [card_erase_members hlookup, if_pos rfl]
      exact congrArg (· - 1) h.small_n
    · rw [card_erase_members hlookup, if_neg nofun]
      exact h.main_n
  · rename_i visited hlookup
    refine ⟨fun c hc => h.in_small c (hin _ c hc), fun c hc => h.in_main c (hin _ c hc), ?_, ?_⟩
    · rw [card_erase_members hlookup, if_neg nofun]
      exact h.small_n
    · rw [card_erase_members hlookup, if_pos rfl]
      exact congrArg (· - 1) h.main_n
  · exact { h with }

/-! ## Evictions -/

/-- A pop of the small queue finds a resident that is counted. -/
theorem Queued.small_pos (h : p.Queued)
    (hpop : popFrontResident p.items .small p.small = some (d, e, rest)) : 0 < p.smallN := by
  obtain ⟨hlookup, hq, -⟩ := pop_front_resident_spec hpop
  rw [h.small_n]
  exact Finset.card_pos.2 ⟨d, mem_members.2 ⟨e, hlookup, hq⟩⟩

theorem Queued.main_pos (h : p.Queued)
    (hpop : popFrontResident p.items .main p.main = some (d, e, rest)) : 0 < p.mainN := by
  obtain ⟨hlookup, hq, -⟩ := pop_front_resident_spec hpop
  rw [h.main_n]
  exact Finset.card_pos.2 ⟨d, mem_members.2 ⟨e, hlookup, hq⟩⟩

/-- A small queue in which a pop finds nothing has no residents. -/
theorem Queued.small_drained (h : p.Queued)
    (hpop : popFrontResident p.items .small p.small = none) :
    members p.items .small = ∅ ∧ p.smallN = 0 := by
  have hempty : members p.items .small = ∅ :=
    Finset.eq_empty_of_forall_notMem fun c hc => pop_front_resident_none hpop hc (h.in_small c hc)
  have hcount := h.small_n
  rw [hempty, Finset.card_empty] at hcount
  exact ⟨hempty, hcount⟩

theorem Queued.main_drained (h : p.Queued) (hpop : popFrontResident p.items .main p.main = none) :
    members p.items .main = ∅ ∧ p.mainN = 0 := by
  have hempty : members p.items .main = ∅ :=
    Finset.eq_empty_of_forall_notMem fun c hc => pop_front_resident_none hpop hc (h.in_main c hc)
  have hcount := h.main_n
  rw [hempty, Finset.card_empty] at hcount
  exact ⟨hempty, hcount⟩

/-- A visited item moves to the main queue. -/
theorem Queued.promote (h : p.Queued)
    (hpop : popFrontResident p.items .small p.small = some (d, e, rest)) :
    Queued { p with
      small := rest
      smallN := p.smallN - 1
      items := p.items.insert d ⟨.main, false⟩
      main := p.main ++ [d]
      mainN := p.mainN + 1 } := by
  obtain ⟨hlookup, hq, -⟩ := pop_front_resident_spec hpop
  have hmain : d ∉ members p.items .main := not_mem_other hlookup (by rw [hq]; decide)
  have hsmall : d ∈ members p.items .small := mem_members.2 ⟨e, hlookup, hq⟩
  refine ⟨fun c hc => ?_, fun c hc => ?_, ?_, ?_⟩
  · rw [members_insert, if_neg (by decide)] at hc
    exact pop_front_resident_keeps hpop (Finset.mem_of_mem_erase hc)
      (h.in_small c (Finset.mem_of_mem_erase hc))
      (Finset.ne_of_mem_erase hc)
  · rw [members_insert, if_pos rfl, Finset.mem_insert] at hc
    rcases hc with rfl | hc
    · exact List.mem_append_right _ (List.mem_singleton_self c)
    · exact List.mem_append_left _ (h.in_main c hc)
  · rw [members_insert, if_neg (by decide), Finset.card_erase_of_mem hsmall]
    exact congrArg (· - 1) h.small_n
  · rw [members_insert, if_pos rfl, Finset.card_insert_of_notMem hmain]
    exact congrArg (· + 1) h.main_n

/-- A visited item goes to the back of the main queue. -/
theorem Queued.second_chance (h : p.Queued)
    (hpop : popFrontResident p.items .main p.main = some (d, e, rest)) :
    Queued { p with
      items := p.items.insert d { e with visited := false }, main := rest ++ [d] } := by
  obtain ⟨hlookup, hq, -⟩ := pop_front_resident_spec hpop
  have hsame := @members_insert_same p.items d e { e with visited := false } hlookup rfl
  refine ⟨fun c hc => ?_, fun c hc => ?_, ?_, ?_⟩
  · rw [hsame] at hc
    exact h.in_small c hc
  · rw [hsame] at hc
    by_cases hcd : c = d
    · exact List.mem_append_right _ (List.mem_singleton.2 hcd)
    · exact List.mem_append_left _ (pop_front_resident_keeps hpop hc (h.in_main c hc) hcd)
  · rw [hsame]
    exact h.small_n
  · rw [hsame]
    exact h.main_n

variable {fuel : Nat}

/-- The small-queue loop; without a victim it leaves no resident in the small queue. -/
theorem Queued.evict_small (h : p.Queued) (hfuel : p.small.length < fuel) :
    (evictSmall fuel p).2.Queued ∧
      ((evictSmall fuel p).1 = none → (evictSmall fuel p).2.smallN = 0) := by
  induction fuel generalizing p with
  | zero => omega
  | succ fuel ih =>
      rw [evictSmall]
      split
      · rename_i hpop
        obtain ⟨hempty, hcount⟩ := h.small_drained hpop
        refine ⟨{ h with in_small := fun c hc => ?_ }, fun _ => hcount⟩
        rw [hempty] at hc
        cases hc
      · rename_i d e rest hpop
        obtain ⟨hlookup, hq, hlen⟩ := pop_front_resident_spec hpop
        split_ifs
        · exact ih (h.promote hpop) (by dsimp only; omega)
        · refine ⟨⟨fun c hc => ?_, fun c hc => ?_, ?_, ?_⟩, fun hnone => by cases hnone⟩
          · simp only [ghostPush, members_erase] at hc
            exact pop_front_resident_keeps hpop (Finset.mem_of_mem_erase hc)
              (h.in_small c (Finset.mem_of_mem_erase hc)) (Finset.ne_of_mem_erase hc)
          · simp only [ghostPush, members_erase] at hc
            exact h.in_main c (Finset.mem_of_mem_erase hc)
          · simp only [ghostPush, card_erase_members hlookup, hq, if_true, h.small_n]
          · simp only [ghostPush, card_erase_members hlookup, hq]
            exact h.main_n

/-- A second chance lowers the number of steps that are left. -/
theorem second_chance_lt (hpop : popFrontResident p.items .main p.main = some (d, e, rest))
    (hvisited : e.visited = true) (hfuel : p.main.length + (visitedSet p.items).card < fuel + 1) :
    (rest ++ [d]).length + (visitedSet (p.items.insert d { e with visited := false })).card <
      fuel := by
  obtain ⟨hlookup, -, hlen⟩ := pop_front_resident_spec hpop
  have hcard := card_visited_clear hlookup hvisited
  rw [List.length_append, List.length_singleton]
  omega

/-- The main-queue loop; without a victim the counters are as before and no resident is left in the
main queue. -/
theorem Queued.evict_main (h : p.Queued)
    (hfuel : p.main.length + (visitedSet p.items).card < fuel) :
    (evictMain fuel p).2.Queued ∧
      ((evictMain fuel p).1 = none → p.mainN = 0 ∧ (evictMain fuel p).2.mainN = 0 ∧
        (evictMain fuel p).2.smallN = p.smallN) := by
  induction fuel generalizing p with
  | zero => omega
  | succ fuel ih =>
      rw [evictMain]
      split
      · rename_i hpop
        obtain ⟨hempty, hcount⟩ := h.main_drained hpop
        refine ⟨{ h with in_main := fun c hc => ?_ }, fun _ => ⟨hcount, hcount, rfl⟩⟩
        rw [hempty] at hc
        cases hc
      · rename_i d e rest hpop
        obtain ⟨hlookup, hq, hlen⟩ := pop_front_resident_spec hpop
        split_ifs with hvisited
        · exact ih (h.second_chance hpop) (second_chance_lt hpop hvisited hfuel)
        · refine ⟨⟨fun c hc => ?_, fun c hc => ?_, ?_, ?_⟩, fun hnone => by cases hnone⟩
          · rw [members_erase] at hc
            exact h.in_small c (Finset.mem_of_mem_erase hc)
          · rw [members_erase] at hc
            exact pop_front_resident_keeps hpop (Finset.mem_of_mem_erase hc)
              (h.in_main c (Finset.mem_of_mem_erase hc)) (Finset.ne_of_mem_erase hc)
          · rw [card_erase_members hlookup, hq, if_neg (by decide)]
            exact h.small_n
          · rw [card_erase_members hlookup, hq, if_pos rfl]
            exact congrArg (· - 1) h.main_n

/-- The bound on the main-queue loop is enough. -/
theorem main_fuel_le (p : S3Fifo) :
    p.main.length + (visitedSet p.items).card < p.main.length + p.items.keys.length + 1 := by
  have hle : (visitedSet p.items).card ≤ p.items.keys.length := by
    rw [← Table.card_key_set]
    exact Finset.card_filter_le _ _
  omega

theorem Queued.evict_from_main (h : p.Queued) :
    p.evictFromMain.2.Queued ∧ (p.evictFromMain.1 = none → p.mainN = 0 ∧
      p.evictFromMain.2.mainN = 0 ∧ p.evictFromMain.2.smallN = p.smallN) :=
  h.evict_main (main_fuel_le p)

/-- Empty counters mean no resident. -/
theorem Queued.residents_eq_empty (h : p.Queued) (hsmall : p.smallN = 0) (hmain : p.mainN = 0) :
    p.residents = ∅ := by
  have h1 := h.small_n
  have h2 := h.main_n
  rw [hsmall, eq_comm, Finset.card_eq_zero] at h1
  rw [hmain, eq_comm, Finset.card_eq_zero] at h2
  rw [residents_eq_members, h1, h2, Finset.empty_union]

/-- An eviction keeps the invariant, and finds no victim only if there is no resident. -/
theorem Queued.evict (h : p.Queued) :
    p.evict.2.Queued ∧ (p.evict.1 = none → p.residents = ∅) := by
  unfold S3Fifo.evict
  split_ifs with hzero hfrom
  · exact ⟨h, fun _ => h.residents_eq_empty hzero.1 hzero.2⟩
  · obtain ⟨hqueued, hdrained⟩ := h.evict_small (Nat.lt_succ_self p.small.length)
    have hsame := evict_small_evicted (p.small.length + 1) p
    split
    · rename_i d next heq
      rw [heq] at hqueued
      exact ⟨hqueued, nofun⟩
    · rename_i next heq
      rw [heq] at hqueued hdrained hsame
      obtain ⟨hmain, hempty⟩ := hqueued.evict_from_main
      refine ⟨hmain, fun hnone => ?_⟩
      have hresidents : next.residents = p.residents := hsame
      rw [← hresidents]
      exact hqueued.residents_eq_empty (hdrained rfl) (hempty hnone).1
  · obtain ⟨hmain, hempty⟩ := h.evict_from_main
    refine ⟨hmain, fun hnone => ?_⟩
    -- the main queue is drained first only if it has a resident
    have hmainN := (hempty hnone).1
    unfold fromSmall at hfrom
    rw [if_neg (by omega), if_pos hmainN] at hfrom
    exact absurd rfl hfrom

/-! ## Evictions step by step -/

/-- The victim of `evict` with the queue it is taken from. -/
def evictFrom (p : S3Fifo) : Option (Queue × Digest) :=
  if p.smallN = 0 ∧ p.mainN = 0 then none
  else if p.fromSmall then
    match evictSmall (p.small.length + 1) p with
    | (some d, _) => some (.small, d)
    | (none, next) => next.evictFromMain.1.map (.main, ·)
  else p.evictFromMain.1.map (.main, ·)

/-- An execution of the small-queue loop of `evict` in which every decrement finds a positive
counter. -/
inductive SmallLoop : S3Fifo → Option Digest × S3Fifo → Prop where
  | drained {p : S3Fifo} (hpop : popFrontResident p.items .small p.small = none) :
      SmallLoop p (none, { p with small := [] })
  | promotes {p : S3Fifo} {d : Digest} {e : Entry} {rest : List Digest}
      {result : Option Digest × S3Fifo}
      (hpop : popFrontResident p.items .small p.small = some (d, e, rest)) (hpos : 0 < p.smallN)
      (hvisited : e.visited = true)
      (hrest : SmallLoop { p with
        small := rest
        smallN := p.smallN - 1
        items := p.items.insert d ⟨.main, false⟩
        main := p.main ++ [d]
        mainN := p.mainN + 1 } result) :
      SmallLoop p result
  | evicts {p : S3Fifo} {d : Digest} {e : Entry} {rest : List Digest}
      (hpop : popFrontResident p.items .small p.small = some (d, e, rest)) (hpos : 0 < p.smallN)
      (hvisited : e.visited = false) :
      SmallLoop p (some d, ghostPush { p with
        small := rest, smallN := p.smallN - 1, items := p.items.erase d } d)

/-- An execution of the main-queue loop of `evict` in which every decrement finds a positive
counter. -/
inductive MainLoop : S3Fifo → Option Digest × S3Fifo → Prop where
  | drained {p : S3Fifo} (hpop : popFrontResident p.items .main p.main = none) :
      MainLoop p (none, { p with main := [] })
  | spares {p : S3Fifo} {d : Digest} {e : Entry} {rest : List Digest}
      {result : Option Digest × S3Fifo}
      (hpop : popFrontResident p.items .main p.main = some (d, e, rest))
      (hvisited : e.visited = true)
      (hrest : MainLoop { p with
        items := p.items.insert d { e with visited := false }, main := rest ++ [d] } result) :
      MainLoop p result
  | evicts {p : S3Fifo} {d : Digest} {e : Entry} {rest : List Digest}
      (hpop : popFrontResident p.items .main p.main = some (d, e, rest)) (hpos : 0 < p.mainN)
      (hvisited : e.visited = false) :
      MainLoop p (some d, { p with main := rest, mainN := p.mainN - 1, items := p.items.erase d })

/-- An execution of `evict`, with the queue of the victim. -/
inductive EvictCall : S3Fifo → Option (Queue × Digest) → S3Fifo → Prop where
  | nothing {p : S3Fifo} (hsmall : p.smallN = 0) (hmain : p.mainN = 0) : EvictCall p none p
  | small {p next : S3Fifo} {d : Digest} (hfrom : p.fromSmall = true)
      (h : SmallLoop p (some d, next)) :
      EvictCall p (some (.small, d)) next
  | drained {p mid next : S3Fifo} {victim : Option Digest} (hfrom : p.fromSmall = true)
      (h : SmallLoop p (none, mid))
      (hmain : MainLoop mid (victim, next)) : EvictCall p (victim.map (.main, ·)) next
  | main {p next : S3Fifo} {victim : Option Digest} (hfrom : p.fromSmall = false)
      (h : MainLoop p (victim, next)) :
      EvictCall p (victim.map (.main, ·)) next

theorem Queued.small_loop (h : p.Queued) (hfuel : p.small.length < fuel) :
    SmallLoop p (evictSmall fuel p) := by
  induction fuel generalizing p with
  | zero => omega
  | succ fuel ih =>
      rw [evictSmall]
      split
      · exact .drained ‹_›
      · rename_i d e rest hpop
        obtain ⟨-, -, hlen⟩ := pop_front_resident_spec hpop
        split_ifs with hvisited
        · exact .promotes hpop (h.small_pos hpop) hvisited
            (ih (h.promote hpop) (by dsimp only; omega))
        · exact .evicts hpop (h.small_pos hpop) (Bool.eq_false_iff.2 hvisited)

theorem Queued.main_loop (h : p.Queued) (hfuel : p.main.length + (visitedSet p.items).card < fuel) :
    MainLoop p (evictMain fuel p) := by
  induction fuel generalizing p with
  | zero => omega
  | succ fuel ih =>
      rw [evictMain]
      split
      · exact .drained ‹_›
      · rename_i d e rest hpop
        split_ifs with hvisited
        · exact .spares hpop hvisited (ih (h.second_chance hpop)
            (second_chance_lt hpop hvisited hfuel))
        · exact .evicts hpop (h.main_pos hpop) (Bool.eq_false_iff.2 hvisited)

/-- The loops of `evict` end, and on the way no counter is decremented below zero. -/
theorem Queued.evict_call (h : p.Queued) : EvictCall p p.evictFrom p.evict.2 := by
  unfold evictFrom S3Fifo.evict
  split_ifs with hzero hfrom
  · exact .nothing hzero.1 hzero.2
  · have hloop := h.small_loop (Nat.lt_succ_self p.small.length)
    have hqueued := (h.evict_small (Nat.lt_succ_self p.small.length)).1
    revert hloop hqueued
    generalize evictSmall (p.small.length + 1) p = found
    obtain ⟨victim, mid⟩ := found
    intro hloop hqueued
    cases victim with
    | none => exact .drained hfrom hloop (hqueued.main_loop (main_fuel_le mid))
    | some d => exact .small hfrom hloop
  · exact .main (Bool.eq_false_iff.2 hfrom) (h.main_loop (main_fuel_le p))

/-- The parts of a policy that only `ghost_push`, `insert` and `remove` change. -/
def ghosts (p : S3Fifo) : Nat × List Digest × Finset Digest := (p.cap, p.ghost, p.ghostSet)

theorem SmallLoop.ghosts {result : Option Digest × S3Fifo} (h : SmallLoop p result) :
    result.2.ghosts = (match result.1 with
      | none => p.ghosts
      | some d => (p.cap, trimGhost p.cap (p.ghost ++ [d]) (Insert.insert d p.ghostSet))) := by
  induction h with
  | drained hpop => rfl
  | promotes hpop hpos hvisited hrest ih => exact ih
  | evicts hpop hpos hvisited => rfl

theorem MainLoop.ghosts {result : Option Digest × S3Fifo} (h : MainLoop p result) :
    result.2.ghosts = p.ghosts := by
  induction h with
  | drained hpop => rfl
  | spares hpop hvisited hrest ih => exact ih
  | evicts hpop hpos hvisited => rfl

/-- `evict` pushes a victim of the small queue. -/
theorem EvictCall.ghosts {victim : Option (Queue × Digest)} (h : EvictCall p victim next) :
    (∃ d, victim = some (.small, d) ∧
      next.ghosts = (p.cap, trimGhost p.cap (p.ghost ++ [d]) (Insert.insert d p.ghostSet))) ∨
    ((∀ d, victim ≠ some (.small, d)) ∧ next.ghosts = p.ghosts) := by
  cases h with
  | nothing hsmall hmain => exact Or.inr ⟨fun d => by simp, rfl⟩
  | small hfrom hloop => exact Or.inl ⟨_, rfl, hloop.ghosts⟩
  | drained hfrom hloop hmain => exact Or.inr ⟨fun d => by simp, hmain.ghosts.trans hloop.ghosts⟩
  | main hfrom hmain => exact Or.inr ⟨fun d => by simp, hmain.ghosts⟩

end GoblinStore.S3Fifo
