import GoblinStore.Storage.Residency

/-!
# The head cache over whole runs

`Fresh`, the ownership of regions and the residency of the policies hold in every state that a run
from the start reaches (`reachable_head_inv`). `head_ownership` spells out what this says about
the tables of the tier manager.
-/

namespace GoblinStore

open GoblinStore.Lib GoblinStore.Core HeadView

variable {cfg : Config} {σ : State}

theorem Fresh.apply (h : Fresh σ) (op : Op) : Fresh (σ.apply cfg op) :=
  Change.invariant (fun _ _ h' hc => h'.change hc) h

/-! ## The invariant -/

/-- What holds of the head cache in every reachable state. -/
structure HeadInv (cfg : Config) (σ : State) : Prop where
  fresh : Fresh σ
  residency : Residency cfg σ
  owned : ∃ own, Owned σ.headView own

variable {v v' : HeadView}

theorem Moves.owned (hm : Moves v v') (h : ∃ own, Owned v own) :
    ∃ own, Owned v' own := by
  induction hm with
  | refl => exact h
  | tail _ hstep ih =>
      obtain ⟨own, how⟩ := ih
      exact hstep.owned how

namespace HeadInv

theorem init (cfg : Config) (hblock : cfg.blockBytes ≤ wrap32) : HeadInv cfg (State.init cfg) where
  fresh := ⟨by simp [State.init], by simp [State.init]⟩
  residency := Residency.init cfg
  owned := by
    obtain ⟨k, hk⟩ := cfg.block_pow
    have hge := cfg.block_ge
    have hk12 : 12 ≤ k := by
      by_contra hlt
      have : 2 ^ k ≤ 2 ^ 11 := Nat.pow_le_pow_right (by omega) (by omega)
      simp only [kDeviceBlock] at hge
      omega
    have hk32 : k ≤ 32 := by
      rw [hk] at hblock
      exact (Nat.pow_le_pow_iff_right (by omega)).1 hblock
    have hpow : cfg.blockBytes = kDeviceBlock * 2 ^ (k - 12) := by
      rw [hk, kDeviceBlock, show (4096 : Nat) = 2 ^ 12 from rfl, ← Nat.pow_add]
      congr 1
      omega
    refine ⟨fun _ => none, ?_, trivial, ?_, ?_, ?_, ?_, ?_, ?_⟩
    · exact BufferPool.create_inv ⟨12, rfl⟩ ⟨k - 12, by omega, hpow⟩ hblock
    · simp [State.headView, State.init, allocated]
    · simp [State.headView, State.init, headsOf]
    · simp [State.headView, State.init, reservedOf]
    · simp
    · simp [State.headView, State.init]
    · simp [State.headView, State.init]

/-- A change that neither takes nor gives back a pin keeps the invariant. -/
theorem change {op : Op} {σ' : State} (h : HeadInv cfg σ) (hop : op.pins = false)
    (hc : Change cfg σ op σ') :
    HeadInv cfg σ' :=
  ⟨h.fresh.change hc, h.residency.change hc, (State.change_moves h.fresh hop hc).owned h.owned⟩

/-- Every step keeps the invariant. -/
theorem apply (h : HeadInv cfg σ) (op : Op) : HeadInv cfg (σ.apply cfg op) where
  fresh := h.fresh.apply op
  residency := h.residency.apply op
  owned := by
    obtain ⟨own, how⟩ := h.owned
    rcases @State.apply_heads cfg σ own h.fresh how op with hmoves | hpin | ⟨pin, -, hunpin⟩
    · exact hmoves.owned ⟨own, how⟩
    · exact ⟨own, hpin.owned how⟩
    · exact hunpin.owned how

end HeadInv

/-- Every reachable state satisfies the invariant. -/
theorem reachable_head_inv (cfg : Config) (hblock : cfg.blockBytes ≤ wrap32) (ops : List Op) :
    HeadInv cfg (State.after cfg ops) :=
  invariant_run (fun _ op _ h => h.apply op) (HeadInv.init cfg hblock)
    (allowed_true (State.apply cfg) (State.init cfg) ops)

/-! ## The three kinds of allocated regions -/

namespace State

/-- The region is the head of an indexed object. -/
def IndexedHead (σ : State) (r : Region) : Prop :=
  ∃ d m, σ.index.lookup d = some m ∧ m.head = some r

/-- The region is reserved by an uncommitted handle. -/
def ReservedHead (σ : State) (r : Region) : Prop :=
  ∃ id h, σ.handles.lookup id = some h ∧ h.head = some r

/-- The region is orphaned and some reader still has it pinned. -/
def OrphanedHead (σ : State) (r : Region) : Prop :=
  r.offset < wrap32 ∧
    ∃ p, σ.pins.lookup r.id = some p ∧ p.orphaned = true ∧ 0 < p.refcount ∧ p.len = r.len

end State

/-- The ownership of the head pool, the pin table and the policies of one state. -/
structure HeadOwnership (cfg : Config) (σ : State) : Prop where
  pool : σ.ram.Inv (allocated σ.ramLog)
  union : ∀ r, r ∈ allocated σ.ramLog ↔ σ.IndexedHead r ∨ σ.ReservedHead r ∨ σ.OrphanedHead r
  indexed_reserved : ∀ r, σ.IndexedHead r → ¬ σ.ReservedHead r
  indexed_orphaned : ∀ r, σ.IndexedHead r → ¬ σ.OrphanedHead r
  reserved_orphaned : ∀ r, σ.ReservedHead r → ¬ σ.OrphanedHead r
  one_object : ∀ d e m n r, σ.index.lookup d = some m → m.head = some r →
    σ.index.lookup e = some n → n.head = some r → d = e
  one_handle : ∀ i j h k r, σ.handles.lookup i = some h → h.head = some r →
    σ.handles.lookup j = some k → k.head = some r → i = j
  apart : ∀ r ∈ allocated σ.ramLog, ∀ q ∈ allocated σ.ramLog, r ≠ q → r.Apart q
  pinned : ∀ key p, σ.pins.lookup key = some p →
    ∃ r, r.id = key ∧ (σ.IndexedHead r ∨ σ.OrphanedHead r)
  calls : LogOk σ.ramLog
  head_policy : ∀ d, d ∈ σ.policy.residents ↔ ∃ m r, σ.index.lookup d = some m ∧ m.head = some r
  object_policy : ∀ d, d ∈ σ.objectPolicy.residents ↔ d ∈ σ.index
  ram_only : ∀ d m, σ.index.lookup d = some m → 0 < m.size → m.size ≤ cfg.tiers.ramHead →
    ∃ r, m.head = some r ∧ r.len = m.size

variable {r : Region}

theorem heads_of_eq_some {index : Index} {d : Digest} :
    headsOf index d = some r ↔ ∃ m, index.lookup d = some m ∧ m.head = some r :=
  Option.bind_eq_some_iff

theorem reserved_of_eq_some {handles : Table Nat StoreHandle} {id : Nat} :
    reservedOf handles id = some r ↔ ∃ h, handles.lookup id = some h ∧ h.head = some r :=
  Option.bind_eq_some_iff

section

variable {own : Region → Option Owner} {r : Region}

theorem Owned.indexed_head_iff (how : Owned σ.headView own) :
    σ.IndexedHead r ↔ ∃ d, own r = some (.object d) := by
  refine exists_congr fun d => ?_
  rw [how.object_iff]
  exact heads_of_eq_some.symm

theorem Owned.reserved_head_iff (how : Owned σ.headView own) :
    σ.ReservedHead r ↔ ∃ id, own r = some (.handle id) := by
  refine exists_congr fun id => ?_
  rw [how.handle_iff]
  exact reserved_of_eq_some.symm

theorem Owned.orphaned_head_iff (how : Owned σ.headView own) :
    σ.OrphanedHead r ↔ own r = some .orphan := by
  constructor
  · rintro ⟨hoff, p, hp, horphan, -, hlen⟩
    obtain ⟨q, hid, hqlen, -, -, hkind⟩ := how.pin_spec _ _ hp
    rcases hkind with ⟨-, hq⟩ | ⟨hfalse, -⟩
    · -- the entry's region is at the same place and of the same length
      obtain ⟨hblock, hoffset⟩ := region_id_injective
        (how.pool.offset_lt (how.live (by simp [hq]))) hoff hid
      have hqr : q = r := by
        cases q
        cases r
        simp_all
      rwa [← hqr]
    · rw [horphan] at hfalse
      cases hfalse
  · intro hown
    have hne : own r ≠ none := by simp [hown]
    obtain ⟨p, hp⟩ := how.orphan_pinned r hown
    obtain ⟨hlen, -, hpos, hkind⟩ := how.pin_of_owned hne hp
    rcases hkind with ⟨horphan, -⟩ | ⟨-, d, hd⟩
    · exact ⟨how.pool.offset_lt (how.live hne), p, hp, horphan, hpos, hlen⟩
    · rw [hown] at hd
      cases hd

end

/-- The tables of a state that satisfies the invariant. -/
theorem HeadInv.ownership (h : HeadInv cfg σ) : HeadOwnership cfg σ := by
  obtain ⟨own, how⟩ := h.owned
  constructor
  · exact how.pool
  · intro r
    rw [how.indexed_head_iff, how.reserved_head_iff, how.orphaned_head_iff,
      show r ∈ allocated σ.ramLog ↔ own r ≠ none from how.live_iff r]
    constructor
    · intro hne
      obtain ⟨o, ho⟩ := Option.ne_none_iff_exists'.1 hne
      cases o with
      | object d => exact Or.inl ⟨d, ho⟩
      | handle id => exact Or.inr (Or.inl ⟨id, ho⟩)
      | orphan => exact Or.inr (Or.inr ho)
    · rintro (⟨d, hd⟩ | ⟨id, hid⟩ | ho)
      · simp [hd]
      · simp [hid]
      · simp [ho]
  · intro r hi hr
    obtain ⟨d, hd⟩ := how.indexed_head_iff.1 hi
    obtain ⟨id, hid⟩ := how.reserved_head_iff.1 hr
    rw [hd] at hid
    cases hid
  · intro r hi ho
    obtain ⟨d, hd⟩ := how.indexed_head_iff.1 hi
    have ho := how.orphaned_head_iff.1 ho
    rw [hd] at ho
    cases ho
  · intro r hr ho
    obtain ⟨id, hid⟩ := how.reserved_head_iff.1 hr
    have ho := how.orphaned_head_iff.1 ho
    rw [hid] at ho
    cases ho
  · intro d e m n r hm hmr hn hnr
    have h1 := (how.object_iff r d).2 (heads_of_eq_some.2 ⟨m, hm, hmr⟩)
    have h2 := (how.object_iff r e).2 (heads_of_eq_some.2 ⟨n, hn, hnr⟩)
    rw [h1] at h2
    cases h2
    rfl
  · intro i j h₁ h₂ r hi hir hj hjr
    have h1 := (how.handle_iff r i).2 (reserved_of_eq_some.2 ⟨h₁, hi, hir⟩)
    have h2 := (how.handle_iff r j).2 (reserved_of_eq_some.2 ⟨h₂, hj, hjr⟩)
    rw [h1] at h2
    cases h2
    rfl
  · intro r hr q hq hne
    exact how.pool.apart hr hq hne
  · intro key p hp
    obtain ⟨r, hid, -, -, -, hkind⟩ := how.pin_spec key p hp
    refine ⟨r, hid, ?_⟩
    rcases hkind with ⟨-, ho⟩ | ⟨-, hd⟩
    · exact Or.inr (how.orphaned_head_iff.2 ho)
    · exact Or.inl (how.indexed_head_iff.2 hd)
  · exact how.log_ok
  · intro d
    rw [h.residency.heads, Option.ne_none_iff_exists']
    simp only [heads_of_eq_some]
    exact exists_comm
  · intro d
    rw [h.residency.objects, Option.ne_none_iff_exists', Table.mem_iff_lookup]
  · intro d m hm hpos hle
    obtain ⟨hlen, hres⟩ := h.residency.indexed d m hm
    obtain ⟨r, hr⟩ := Option.ne_none_iff_exists'.1 (hres hpos hle)
    exact ⟨r, hr, by rw [hlen r hr, Nat.min_eq_left hle]⟩

/-! ## The allocator log -/

theorem Moves.log_grows (hm : Moves v v') : ∃ calls, v'.log = calls ++ v.log := by
  induction hm with
  | refl => exact ⟨[], rfl⟩
  | @tail w w' _ hstep ih =>
      obtain ⟨calls, hcalls⟩ := ih
      have hone : ∃ one, w'.log = one ++ w.log := by
        cases hstep with
        | reserve => exact ⟨[_], rfl⟩
        | fill => exact ⟨[], rfl⟩
        | abandon => exact ⟨[_], rfl⟩
        | publish => exact ⟨[], rfl⟩
        | free => exact ⟨[_], rfl⟩
        | orphan => exact ⟨[], rfl⟩
      obtain ⟨one, hone⟩ := hone
      exact ⟨one ++ calls, by rw [hone, hcalls, List.append_assoc]⟩

theorem HeadView.Pin.log_grows (hp : Pin v v') :
    ∃ calls, v'.log = calls ++ v.log := by
  cases hp
  exact ⟨[], rfl⟩

theorem HeadView.Unpin.log_grows {pin : Nat} (hu : Unpin pin v v') :
    ∃ calls, v'.log = calls ++ v.log := by
  cases hu with
  | keep => exact ⟨[], rfl⟩
  | last => exact ⟨[], rfl⟩
  | lastOrphan => exact ⟨[_], rfl⟩

/-- A step appends allocator calls to the log. -/
theorem HeadInv.log_grows (h : HeadInv cfg σ) (op : Op) :
    ∃ calls, (σ.apply cfg op).ramLog = calls ++ σ.ramLog := by
  obtain ⟨own, how⟩ := h.owned
  rcases @State.apply_heads cfg σ own h.fresh how op with hmoves | hpin | ⟨pin, -, hunpin⟩
  · exact hmoves.log_grows
  · exact hpin.log_grows
  · exact hunpin.log_grows

/-- A region that is allocated after calls that freed it was handed out again by them. -/
theorem alloc_of_free {calls log : List RamEvent}
    (hr : r ∈ allocated (calls ++ log)) (hfree : .free r ∈ calls) : .alloc r ∈ calls := by
  induction calls with
  | nil => cases hfree
  | cons call rest ih =>
      cases call with
      | alloc q =>
          by_cases hq : r = q
          · simp [hq]
          · have hrest : r ∈ allocated (rest ++ log) := by
              simpa [allocated, hq] using hr
            have hmem : .free r ∈ rest := by simpa using hfree
            exact List.mem_cons_of_mem _ (ih hrest hmem)
      | free q =>
          have hq : r ≠ q ∧ r ∈ allocated (rest ++ log) := by
            simpa [allocated] using hr
          have hmem : .free r ∈ rest := by
            rcases List.mem_cons.1 hfree with heq | hmem
            · cases heq
              exact absurd rfl hq.1
            · exact hmem
          exact List.mem_cons_of_mem _ (ih hq.2 hmem)

/-- With blocks of at most 4 GiB, in every reachable state the allocated regions are exactly the
heads of indexed objects, the heads of open handles and the orphaned heads that are still pinned,
each with one owner; pins are held on the first and the last kind only; no allocated region was
handed out and no free region freed; and the policies track the index. A region that a step frees
is in none of the three kinds afterwards, unless the step hands it out again. -/
theorem head_regions_partitioned (cfg : Config) (hblock : cfg.blockBytes ≤ wrap32) (ops : List Op) :
    HeadOwnership cfg (State.after cfg ops) ∧
      ∀ op, ∃ calls,
        ((State.after cfg ops).apply cfg op).ramLog = calls ++ (State.after cfg ops).ramLog ∧
        ∀ r, .free r ∈ calls →
          ((State.after cfg ops).apply cfg op).IndexedHead r ∨
            ((State.after cfg ops).apply cfg op).ReservedHead r ∨
            ((State.after cfg ops).apply cfg op).OrphanedHead r → .alloc r ∈ calls := by
  have hinv := reachable_head_inv cfg hblock ops
  refine ⟨hinv.ownership, fun op => ?_⟩
  obtain ⟨calls, hcalls⟩ := hinv.log_grows op
  refine ⟨calls, hcalls, fun r hfree hkind => ?_⟩
  have hlive := ((hinv.apply op).ownership.union r).2 hkind
  rw [hcalls] at hlive
  exact alloc_of_free hlive hfree

/-- A one-drive store with an 8 KiB head pool. -/
def oneDriveConfig : Config where
  tiers := ⟨4096, 4096, le_rfl, ⟨1, rfl⟩, ⟨1, rfl⟩⟩
  ram_head_lt := by decide
  totalBytes := 8192
  blockBytes := 8192
  block_pow := ⟨13, rfl⟩
  block_ge := by decide
  total_ge := le_rfl
  ioChunk := 4096
  chunk_pow := ⟨12, rfl⟩
  chunk_ge := le_rfl
  writeBuffers := 2
  write_buffers_pos := by decide
  ssd := ⟨1, 4096, by decide, by decide⟩
  ssd_aligned := ⟨1, rfl⟩
  hdd := none
  hdd_aligned := by simp
  maxObjects := 0

/-- A store on two SSDs. -/
def twoDriveConfig : Config :=
  { oneDriveConfig with
    ssd := ⟨2, 4096, by decide, by decide⟩
    ssd_aligned := ⟨1, rfl⟩ }

/-- Store an object of 100 bytes, pin its head and remove it. -/
def storePinRemove : List Op :=
  [.beginStore (Digest.replicate 1) 100 Faults.never, .write 0 ⟨100, fun _ => 7⟩ Faults.never,
    .commit 0 0 0 0 Faults.never, .pinHead (Digest.replicate 1),
    .remove (Digest.replicate 1) Faults.never]

theorem head_regions_partitioned_orphan :
    oneDriveConfig.blockBytes ≤ wrap32 ∧
      (State.after oneDriveConfig storePinRemove).OrphanedHead ⟨0, 0, 100⟩ ∧
      HeadOwnership oneDriveConfig (State.after oneDriveConfig storePinRemove) :=
  ⟨by decide, ⟨by decide, ⟨100, 1, true⟩, by decide +kernel, rfl, by decide, rfl⟩,
    (head_regions_partitioned oneDriveConfig (by decide) storePinRemove).1⟩

end GoblinStore
