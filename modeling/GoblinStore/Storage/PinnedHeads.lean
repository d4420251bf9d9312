import GoblinStore.Storage.History

/-!
# Pinned heads are stable

Between the step that hands out a pin and the matching `unpin_head`, the pinned region keeps the
bytes it had, no allocator call hands out a part of it, and no call frees it (`held_run`). The
unpin frees it exactly when it is the last pin of an orphaned region.
-/

namespace GoblinStore

open GoblinStore.Lib GoblinStore.Core HeadView

variable {cfg : Config} {σ : State}

/-- The bytes a reader sees through its pin. -/
def State.pinnedBytes (σ : State) (r : Region) : ByteView :=
  ⟨r.len, fun i => σ.ramBytes r.block (r.offset + i)⟩

/-! ## One step -/

/-- What a reader that holds a pin on `r` relies on from `v` to `v'`. -/
structure Steady (r : Region) (v v' : HeadView) : Prop where
  bytes : SameBytes r v v'
  calls : NotHandedOut r v v'

namespace Steady

variable {v v' v'' : HeadView} {r : Region} {pin : Nat} {own : Region → Option Owner}

theorem refl (r : Region) (v : HeadView) : Steady r v v :=
  ⟨fun _ _ => rfl, [], rfl, by simp⟩

theorem trans (h : Steady r v v') (h' : Steady r v' v'') : Steady r v v'' := by
  refine ⟨fun i hi => (h'.bytes i hi).trans (h.bytes i hi), ?_⟩
  obtain ⟨calls, hlog, hcalls⟩ := h.calls
  obtain ⟨calls', hlog', hcalls'⟩ := h'.calls
  refine ⟨calls' ++ calls, by rw [hlog', hlog, List.append_assoc], fun q hq => ?_⟩
  rcases List.mem_append.1 hq with hq | hq
  · exact hcalls' q hq
  · exact hcalls q hq

/-- A region with a pin has an owner other than a handle. -/
theorem not_reserved (h : Owned v own) (hheld : v.held.lookup pin = some r) (id : Nat) :
    own r ≠ some (.handle id) := by
  obtain ⟨hown, p, hp⟩ := h.held_pinned pin r hheld
  obtain ⟨-, -, -, ⟨-, ho⟩ | ⟨-, d, hd⟩⟩ := h.pin_of_owned hown hp
  · simp [ho]
  · simp [hd]

theorem of_moves (hm : Moves v v') (h : Owned v own) (hheld : v.held.lookup pin = some r) :
    v'.held.lookup pin = some r ∧ Steady r v v' := by
  suffices hall : (∃ own', Owned v' own') ∧ v'.held.lookup pin = some r ∧ Steady r v v' from hall.2
  induction hm with
  | refl => exact ⟨⟨own, h⟩, hheld, refl r v⟩
  | @tail w w' _ hstep ih =>
      obtain ⟨⟨own', h'⟩, hheld', hsteady⟩ := ih
      obtain ⟨hbytes, hcalls⟩ := hstep.steady h' (h'.held_pinned pin r hheld').1
        (not_reserved h' hheld')
      exact ⟨hstep.owned h', hstep.held_eq ▸ hheld', hsteady.trans ⟨hbytes, hcalls⟩⟩

theorem of_pin (hp : Pin v v') (hheld : v.held.lookup pin = some r) :
    v'.held.lookup pin = some r ∧ Steady r v v' := by
  cases hp with
  | @mk d q pin' hd hnew =>
      refine ⟨?_, fun _ _ => rfl, [], rfl, by simp⟩
      rw [Table.lookup_insert]
      split_ifs with heq
      · rw [Table.mem_iff_lookup, ← heq] at hnew
        exact absurd ⟨r, hheld⟩ hnew
      · exact hheld

/-- Another reader's unpin. -/
theorem of_unpin {other : Nat} (hu : Unpin other v v') (hne : other ≠ pin)
    (hheld : v.held.lookup pin = some r) : v'.held.lookup pin = some r ∧ Steady r v v' := by
  have herase : (v.held.erase other).lookup pin = some r := by
    rw [Table.lookup_erase, if_neg (Ne.symm hne)]
    exact hheld
  cases hu with
  | keep => exact ⟨herase, fun _ _ => rfl, [], rfl, by simp⟩
  | last => exact ⟨herase, fun _ _ => rfl, [], rfl, by simp⟩
  | lastOrphan => exact ⟨herase, fun _ _ => rfl, [_], rfl, by simp⟩

end Steady

variable {pin : Nat} {r : Region}

/-- A step other than the unpin itself keeps a pin and what its holder sees. -/
theorem held_step (h : HeadInv cfg σ)
    (hheld : σ.held.lookup pin = some r) {op : Op} (hop : op ≠ .unpinHead pin) :
    (σ.apply cfg op).held.lookup pin = some r ∧
      Steady r σ.headView (σ.apply cfg op).headView := by
  obtain ⟨own, how⟩ := h.owned
  rcases @State.apply_heads cfg σ own h.fresh how op with hmoves | hpin | ⟨other, rfl, hunpin⟩
  · exact Steady.of_moves hmoves how hheld
  · exact Steady.of_pin hpin hheld
  · refine Steady.of_unpin hunpin ?_ hheld
    rintro rfl
    exact hop rfl

/-- A run without the unpin keeps a pin and what its holder sees. -/
theorem held_run (h : HeadInv cfg σ)
    (hheld : σ.held.lookup pin = some r) {ops : List Op} (hops : .unpinHead pin ∉ ops) :
    HeadInv cfg (run (State.apply cfg) σ ops) ∧
      (run (State.apply cfg) σ ops).held.lookup pin = some r ∧
      Steady r σ.headView (run (State.apply cfg) σ ops).headView := by
  induction ops generalizing σ with
  | nil => exact ⟨h, hheld, Steady.refl _ _⟩
  | cons op rest ih =>
      have hop : op ≠ .unpinHead pin := fun heq => hops (heq ▸ List.mem_cons_self)
      obtain ⟨hheld', hsteady⟩ := held_step h hheld hop
      obtain ⟨hinv, hlast, hrest⟩ := ih (h.apply op) hheld'
        (fun hmem => hops (List.mem_cons_of_mem _ hmem))
      exact ⟨hinv, hlast, hsteady.trans hrest⟩

/-! ## From the pin to the unpin -/

/-- The step hands out pin number `σ.pinSeq` on the head region `r` of the digest. -/
inductive Acquires (cfg : Config) (σ : State) (d : Digest) (r : Region) : Op → Prop
  | pinHead : (σ.pinHead d).1 = some r → Acquires cfg σ d r (.pinHead d)
  | openSnapshot {faults : Faults} {snap : State.Snapshot} :
      (σ.openSnapshot cfg d faults).1 = some snap → snap.pin = some r →
      Acquires cfg σ d r (.openSnapshot d faults)

/-- The pinned region is the head of the indexed version. -/
theorem Acquires.spec {d : Digest} {op : Op} (h : Acquires cfg σ d r op) :
    ∃ m, σ.index.lookup d = some m ∧ m.head = some r ∧
      (σ.apply cfg op).held.lookup σ.pinSeq = some r ∧ (σ.apply cfg op).ramLog = σ.ramLog := by
  cases h with
  | pinHead h =>
      simp only [State.apply]
      unfold State.pinHead at h ⊢
      cases hm : σ.index.lookup d with
      | none => simp [hm] at h
      | some m =>
          cases hr : m.head with
          | none => simp [hm, hr] at h
          | some q =>
              simp only [hm, hr, Option.some.injEq] at h ⊢
              subst h
              exact ⟨m, rfl, hr, Table.lookup_insert_self .., rfl⟩
  | @openSnapshot faults snap h hpin =>
      simp only [State.apply]
      unfold State.openSnapshot at h ⊢
      cases hm : σ.index.lookup d with
      | none => simp [hm] at h
      | some m =>
          simp only [hm] at h ⊢
          split_ifs at h ⊢ with hexp
          cases hfiles : State.snapshotFiles cfg
              { σ with objectPolicy := σ.objectPolicy.touch d } d m faults with
          | none => simp [hfiles] at h
          | some rs =>
              cases hr : m.head with
              | none =>
                  simp only [hfiles, hr, Option.some.injEq] at h
                  simp [← h] at hpin
              | some q =>
                  simp only [hfiles, hr, Option.some.injEq] at h ⊢
                  rw [← h] at hpin
                  cases hpin
                  exact ⟨m, rfl, hr, Table.lookup_insert_self .., rfl⟩

/-- What the holder of pin number `pin`, handed out in state `σ`, relies on in the later state `σ'`:
the pinned bytes are those of the version that was live, no allocator call since handed out a part
of the region or freed it, and giving the pin back frees the region exactly when it is the last pin
of an orphan. -/
structure PinStable (cfg : Config) (σ σ' : State) (pin : Nat) (d : Digest) (r : Region) : Prop where
  bytes : ∃ v, liveVersion σ.history d = some v ∧ r.len = min v.size cfg.tiers.ramHead ∧
    ∀ i < r.len, (σ'.pinnedBytes r).data i = v.body i
  calls : ∃ calls, σ'.ramLog = calls ++ σ.ramLog ∧ (∀ q, .alloc q ∈ calls → q.Apart r) ∧
    .free r ∉ calls
  live : r ∈ allocated σ'.ramLog
  count : ∃ p, σ'.pins.lookup r.id = some p ∧ p.refcount = Table.valueCount σ'.held r
  last : ∀ p, σ'.pins.lookup r.id = some p → p.refcount = 1 → p.orphaned = true →
    (σ'.unpinHead pin).ramLog = .free r :: σ'.ramLog ∧
      (σ'.unpinHead pin).ram.Inv ((allocated σ'.ramLog).erase r)
  not_last : ∀ p, σ'.pins.lookup r.id = some p → ¬ (p.refcount = 1 ∧ p.orphaned = true) →
    (σ'.unpinHead pin).ramLog = σ'.ramLog

/-- What giving back a pin does to the allocator. -/
theorem unpin_ram_log {p : RegionPin} (hheld : σ.held.lookup pin = some r)
    (hp : σ.pins.lookup r.id = some p) (hpos : 0 < p.refcount) :
    (σ.unpinHead pin).ramLog =
      if p.refcount = 1 ∧ p.orphaned = true then .free r :: σ.ramLog else σ.ramLog := by
  have hp' : σ.pins.lookup (regionId r.block r.offset) = some p := hp
  have hone : p.refcount - 1 = 0 ↔ p.refcount = 1 := by omega
  unfold State.unpinHead
  simp only [hheld, hp', hone]
  by_cases hlast : p.refcount = 1 <;> by_cases horphan : p.orphaned = true <;>
    simp [hlast, horphan, State.deallocate]

/-- A held pin in a later state of a run, from the pin to the unpin. -/
theorem pin_stable (h : HeadInv cfg σ) (hc : Contents σ) {d : Digest} {acquire : Op}
    (hacq : Acquires cfg σ d r acquire) {ops : List Op} (hops : .unpinHead σ.pinSeq ∉ ops) :
    PinStable cfg σ (run (State.apply cfg) σ (acquire :: ops)) σ.pinSeq d r := by
  obtain ⟨m, hm, hr, hheld, hlog⟩ := hacq.spec
  have hbytes : (σ.apply cfg acquire).ramBytes = σ.ramBytes := by
    cases hacq with
    | pinHead => exact (State.pin_head_same σ d).ramBytes
    | openSnapshot => exact (State.open_snapshot_same cfg σ d _).ramBytes
  obtain ⟨hinv, hlast, hsteady⟩ := held_run (h.apply acquire) hheld hops
  rw [run_cons]
  generalize run (State.apply cfg) (σ.apply cfg acquire) ops = σ' at *
  obtain ⟨own, how⟩ := hinv.owned
  obtain ⟨hown, p, hp⟩ := how.held_pinned _ _ hlast
  have hp' : σ'.pins.lookup r.id = some p := hp
  obtain ⟨-, hcount, hpos, -⟩ := how.pin_of_owned hown hp
  have hlive : r ∈ allocated σ'.ramLog := how.live hown
  have hfree := unpin_ram_log hlast hp' hpos
  obtain ⟨v, hv, hstamp⟩ := hc.recorded.live hm
  have hsize : v.size = m.size := congrArg (·.1) hstamp
  have hlen : r.len = min v.size cfg.tiers.ramHead := by
    rw [hsize]
    exact (h.residency.indexed d m hm).len_eq r hr
  constructor
  · refine ⟨v, hv, hlen, fun i hi => ?_⟩
    rw [← hc.heads.resident d m v hm hv r hr i (by omega) hi, ← hbytes]
    exact hsteady.bytes i hi
  · obtain ⟨calls, hcalls, hapart⟩ := hsteady.calls
    have hcalls' : σ'.ramLog = calls ++ σ.ramLog := hlog ▸ hcalls
    refine ⟨calls, hcalls', hapart, fun hmem => ?_⟩
    -- freed since, and allocated now: handed out since, so apart from itself
    have hrr := hapart r (alloc_of_free (hcalls' ▸ hlive) hmem)
    have hlen := (how.pool.live_len r hlive).1
    simp only [Region.Apart] at hrr
    omega
  · exact hlive
  · exact ⟨p, hp', hcount⟩
  · intro q hq hone horphan
    rw [hp'] at hq
    cases hq
    rw [if_pos ⟨hone, horphan⟩] at hfree
    refine ⟨hfree, ?_⟩
    have hpool := (hinv.apply (.unpinHead σ.pinSeq)).ownership.pool
    simp only [State.apply, hfree] at hpool
    exact hpool
  · intro q hq hnot
    rw [hp'] at hq
    cases hq
    rw [if_neg hnot] at hfree
    exact hfree

/-- With blocks of at most 4 GiB, a pin handed out in any reachable state is stable in every later
state of every run that does not give it back. -/
theorem pinned_heads_stable (cfg : Config) (hblock : cfg.blockBytes ≤ wrap32) (before ops : List Op)
    (d : Digest) (r : Region) (acquire : Op)
    (hacq : Acquires cfg (State.after cfg before) d r acquire)
    (hops : .unpinHead (State.after cfg before).pinSeq ∉ ops) :
    PinStable cfg (State.after cfg before) (State.after cfg (before ++ acquire :: ops))
      (State.after cfg before).pinSeq d r := by
  have hstable := pin_stable (reachable_head_inv cfg hblock before)
    (reachable_contents cfg hblock before) hacq hops
  rwa [← State.after_append] at hstable

/-- Store an object of 100 bytes. -/
def storeHundred : List Op :=
  [.beginStore (Digest.replicate 1) 100 Faults.never, .write 0 ⟨100, fun _ => 7⟩ Faults.never,
    .commit 0 0 0 0 Faults.never]

theorem pinned_heads_stable_removed :
    Acquires oneDriveConfig (State.after oneDriveConfig storeHundred) (Digest.replicate 1)
        ⟨0, 0, 100⟩ (.pinHead (Digest.replicate 1)) ∧
      PinStable oneDriveConfig (State.after oneDriveConfig storeHundred)
        (State.after oneDriveConfig (storeHundred ++ .pinHead (Digest.replicate 1) ::
          [.remove (Digest.replicate 1) Faults.never]))
        (State.after oneDriveConfig storeHundred).pinSeq (Digest.replicate 1) ⟨0, 0, 100⟩ := by
  have hacq : Acquires oneDriveConfig (State.after oneDriveConfig storeHundred)
      (Digest.replicate 1) ⟨0, 0, 100⟩ (.pinHead (Digest.replicate 1)) :=
    .pinHead (by decide +kernel)
  exact ⟨hacq, pinned_heads_stable oneDriveConfig (by decide) storeHundred _ _ _ _ hacq (by simp)⟩

/-! ## Blocks beyond 4 GiB -/

/-- A store whose single head block of 8 GiB holds eight heads of 1 GiB. -/
def wideBlockConfig : Config :=
  { oneDriveConfig with
    tiers := ⟨2 ^ 30, 2 ^ 30, le_rfl, ⟨2 ^ 18, rfl⟩, ⟨2 ^ 18, rfl⟩⟩
    ram_head_lt := by decide
    totalBytes := 2 ^ 33
    blockBytes := 2 ^ 33
    block_pow := ⟨33, rfl⟩
    block_ge := by decide
    total_ge := le_rfl
    writeBuffers := 8
    write_buffers_pos := by decide }

/-- Store an object of 1 GiB and reserve the heads of three more. -/
def fillLowerHalf : List Op :=
  [.beginStore (Digest.replicate 1) (2 ^ 30) Faults.never,
    .write 0 ⟨2 ^ 30, fun _ => 1⟩ Faults.never, .commit 0 0 0 0 Faults.never,
    .beginStore (Digest.replicate 2) (2 ^ 30) Faults.never,
    .beginStore (Digest.replicate 3) (2 ^ 30) Faults.never,
    .beginStore (Digest.replicate 4) (2 ^ 30) Faults.never]

/-- Begin a fifth object of 1 GiB: its head is at offset 4 GiB, which is kept in 32 bits. -/
def writeFifth : List Op :=
  [.beginStore (Digest.replicate 5) (2 ^ 30) Faults.never, .write 4 ⟨1, fun _ => 2⟩ Faults.never]

/-- The fifth head is handed out over the first, and its writer overwrites the pinned bytes. -/
theorem pinned_head_overwritten :
    Acquires wideBlockConfig (State.after wideBlockConfig fillLowerHalf) (Digest.replicate 1)
        ⟨0, 0, 2 ^ 30⟩ (.pinHead (Digest.replicate 1)) ∧
      .unpinHead (State.after wideBlockConfig fillLowerHalf).pinSeq ∉ writeFifth ∧
      ¬ PinStable wideBlockConfig (State.after wideBlockConfig fillLowerHalf)
        (State.after wideBlockConfig
          (fillLowerHalf ++ .pinHead (Digest.replicate 1) :: writeFifth))
        (State.after wideBlockConfig fillLowerHalf).pinSeq (Digest.replicate 1) ⟨0, 0, 2 ^ 30⟩ := by
  refine ⟨.pinHead (by decide +kernel), by simp [writeFifth], fun h => ?_⟩
  obtain ⟨v, hv, -, hbytes⟩ := h.bytes
  have hbody : (liveVersion (State.after wideBlockConfig fillLowerHalf).history
      (Digest.replicate 1)).map (·.body 0) = some 1 := by decide +kernel
  have hpinned : ((State.after wideBlockConfig
      (fillLowerHalf ++ .pinHead (Digest.replicate 1) :: writeFifth)).pinnedBytes
        ⟨0, 0, 2 ^ 30⟩).data 0 = 2 := by decide +kernel
  have hfirst := hbytes 0 (by decide)
  rw [hv, Option.map_some, Option.some.injEq, ← hfirst, hpinned] at hbody
  cases hbody

end GoblinStore
