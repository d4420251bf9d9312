import GoblinStore.Storage.Entries
import GoblinStore.Storage.HeadCache

/-!
# The TTL reaper

`reap_expired` reads the clock once, scans the shards of the index one after the other under the
lock of each, and then removes the collected digests one by one. Other threads run between any two
of these steps. A version that the reaper removes is expired as long as nobody gives a collected
digest a new version or a new expiry that is not past; alone, the reaper removes exactly the expired
objects.
-/

namespace GoblinStore

open GoblinStore.Lib GoblinStore.Core

namespace Index

/-- The shard of a digest. -/
def shardFor (shardBits : Nat) (d : Digest) : Nat := d.bucket &&& ((1 <<< shardBits) - 1)

/-- The expired digests of one shard. -/
def expiredInShard (index : Index) (shardBits shard now : Nat) : List Digest :=
  (expiredKeys index now).filter fun d => shardFor shardBits d = shard

end Index

/-- A call of `reap_expired` under way. -/
structure Reaper where
  now : Nat
  /-- the next shard to scan -/
  shard : Nat
  /-- the collected digests still to be removed -/
  keys : List Digest
  /-- the number of objects removed -/
  n : Nat

/-- The store, the call under way, and the result of the last one. -/
structure ReapState where
  store : State
  reaper : Option Reaper
  returned : Option Nat

/-- A step of another thread, or of the thread that calls `reap_expired`. -/
inductive ReapEvent where
  | other (op : Op)
  | call
  | step (faults : Faults)

namespace ReapState

/-- The next critical section of the call: scan a shard, remove a digest, or return. -/
def advance (cfg : Config) (shardBits : Nat) (s : ReapState) (r : Reaper) (faults : Faults) :
    ReapState :=
  if r.shard < 1 <<< shardBits then
    { s with reaper := some { r with
        shard := r.shard + 1
        keys := r.keys ++ Index.expiredInShard s.store.index shardBits r.shard r.now } }
  else
    match r.keys with
    | [] => { s with reaper := none, returned := some r.n }
    | d :: rest =>
        match s.store.index.lookup d with
        | none => { s with reaper := some { r with keys := rest } }
        | some _ =>
            { s with
              store := State.dropObject cfg s.store d faults (.reaped d)
              reaper := some { r with keys := rest, n := r.n + 1 } }

/-- One step of one of the threads. Without any TTL the call returns at once. -/
def apply (cfg : Config) (shardBits : Nat) (s : ReapState) : ReapEvent → ReapState
  | .other op => { s with store := s.store.apply cfg op }
  | .call =>
      match s.reaper with
      | some _ => s
      | none =>
          if s.store.anyTtl then { s with reaper := some ⟨s.store.now, 0, [], 0⟩ }
          else { s with returned := some 0 }
  | .step faults =>
      match s.reaper with
      | none => s
      | some r => s.advance cfg shardBits r faults

/-- The version that the next step of the reaper removes is expired. -/
def RemovesExpired (shardBits : Nat) (s : ReapState) : Prop :=
  ∀ r d rest m, s.reaper = some r → 1 <<< shardBits ≤ r.shard → r.keys = d :: rest →
    s.store.index.lookup d = some m → m.isExpired s.store.now = true

/-- The clock does not go back. -/
def Monotone (s : ReapState) : ReapEvent → Prop
  | .other (.clock now) => s.store.now ≤ now
  | _ => True

/-- An expiry that has passed. -/
def Past (s : ReapState) (expiry : Nat) : Prop := expiry ≠ 0 ∧ expiry ≤ s.store.now

/-- No collected digest gets a version or an expiry that is not past. -/
def SparesCollected (cfg : Config) (s : ReapState) : ReapEvent → Prop
  | .other (.commit id flags expiry cas faults) =>
      (s.store.commit cfg id flags expiry cas faults).1 = .ok () →
      ∀ r h, s.reaper = some r → s.store.handles.lookup id = some h →
      h.digest ∈ r.keys → s.Past expiry
  | .other (.touchTtl d expiry) => ∀ r, s.reaper = some r → d ∈ r.keys → s.Past expiry
  | _ => True

/-- Every collected digest that is still indexed is expired, and the clock has not gone back since
the call began. -/
structure Collected (s : ReapState) : Prop where
  expired : ∀ r d m, s.reaper = some r → d ∈ r.keys → s.store.index.lookup d = some m →
    m.isExpired s.store.now = true
  now_le : ∀ r, s.reaper = some r → r.now ≤ s.store.now

end ReapState

theorem Index.mem_expired_keys {index : Index} {now : Nat} {d : Digest} :
    d ∈ Index.expiredKeys index now ↔ ∃ m, index.lookup d = some m ∧ m.isExpired now = true := by
  rw [Index.expiredKeys, List.mem_filter, ← AList.mem_keys, Table.mem_iff_lookup,
    Option.any_eq_true]
  constructor
  · rintro ⟨-, h⟩
    exact h
  · rintro ⟨m, hm, hexp⟩
    exact ⟨⟨m, hm⟩, m, hm, hexp⟩

namespace ReapState.Collected

variable {cfg : Config} {shardBits : Nat} {s : ReapState}

theorem of_idle (h : s.reaper = none) : s.Collected where
  expired r d m hr := by
    rw [h] at hr
    cases hr
  now_le r hr := by
    rw [h] at hr
    cases hr

/-- Entries that only fade stay expired. -/
theorem of_fades (h : s.Collected) {σ' : State} (hfades : Fades s.store σ')
    (hnow : s.store.now ≤ σ'.now) : Collected { s with store := σ' } where
  expired r d m' hr hd hm' := by
    obtain ⟨m, hm, heq⟩ := hfades.entry d m' hm'
    have hold := ObjectMeta.is_expired_iff.1 (h.expired r d m hr hd hm)
    refine ObjectMeta.is_expired_iff.2 ?_
    rw [heq]
    exact ⟨hold.1, hold.2.trans hnow⟩
  now_le r hr := (h.now_le r hr).trans hnow

/-- A new entry for one digest, expired if the reaper has collected it. -/
theorem of_insert (h : s.Collected) {σ' : State} {d : Digest} {m : ObjectMeta}
    (hindex : σ'.index = s.store.index.insert d m) (hnow : σ'.now = s.store.now)
    (hpast : ∀ r, s.reaper = some r → d ∈ r.keys → s.Past m.expiry) :
    Collected { s with store := σ' } where
  expired r e m' hr he hm' := by
    dsimp only at hm' ⊢
    rw [hindex, Table.lookup_insert] at hm'
    rw [hnow]
    split_ifs at hm' with hed
    · cases hm'
      exact ObjectMeta.is_expired_iff.2 (hpast r hr (hed ▸ he))
    · exact h.expired r e m' hr he hm'
  now_le r hr := hnow ▸ h.now_le r hr

/-- The step of another thread. -/
theorem other (h : s.Collected) {op : Op} (hclock : s.Monotone (.other op))
    (hspares : s.SparesCollected cfg (.other op)) :
    (s.apply cfg shardBits (.other op)).Collected := by
  have hnow : s.store.now ≤ (s.store.apply cfg op).now := by
    by_cases hop : ∃ now, op = .clock now
    · obtain ⟨now, rfl⟩ := hop
      exact hclock
    · exact (State.apply_now cfg s.store op fun now heq => hop ⟨now, heq⟩).ge
  rcases State.apply_entries cfg s.store op with hfades | ⟨d, m, expiry, rfl, hm, hindex, -⟩ |
      ⟨id, flags, expiry, cas, faults, h₀, σ₁, rfl, hok, hh, hnew, hfades⟩
  · exact h.of_fades hfades hnow
  · refine h.of_insert hindex ?_ hspares
    exact State.apply_now cfg s.store _ nofun
  · -- the new version is expired if its digest is collected, and may be evicted again
    obtain ⟨m, hindex, -, -, hexpiry, -⟩ := hnew.index
    have hmid : Collected { s with store := { σ₁ with now := s.store.now } } :=
      h.of_insert hindex rfl fun r hr hd => hexpiry ▸ hspares hok r h₀ hr hh hd
    exact hmid.of_fades ⟨hfades.entry, hfades.anyTtl⟩ hnow

theorem call (h : s.Collected) : (s.apply cfg shardBits .call).Collected := by
  simp only [ReapState.apply]
  split
  · exact h
  · rename_i hidle
    split_ifs
    · refine ⟨fun r d m hr hd => ?_, fun r hr => ?_⟩
      · cases hr
        cases hd
      · cases hr
        exact le_rfl
    · exact of_idle hidle

/-- A scanned digest is expired by the clock of the call, so by the clock now. -/
theorem step (h : s.Collected) (faults : Faults) :
    (s.apply cfg shardBits (.step faults)).Collected := by
  simp only [ReapState.apply]
  split
  · exact h
  rename_i r hr
  have hnow := h.now_le r hr
  unfold ReapState.advance
  split_ifs
  · refine ⟨fun r' d m hr' hd hm => ?_, fun r' hr' => by cases hr'; exact hnow⟩
    cases hr'
    rcases List.mem_append.1 hd with hold | hscan
    · exact h.expired r d m hr hold hm
    · obtain ⟨m', hm', hexp⟩ := Index.mem_expired_keys.1 (List.mem_of_mem_filter hscan)
      rw [show s.store.index.lookup d = some m from hm, Option.some.injEq] at hm'
      rw [hm']
      have hold := ObjectMeta.is_expired_iff.1 hexp
      exact ObjectMeta.is_expired_iff.2 ⟨hold.1, hold.2.trans hnow⟩
  · split
    · exact of_idle rfl
    · rename_i d rest hkeys
      have hrest : ∀ n, Collected { s with reaper := some { r with keys := rest, n := n } } := by
        refine fun n => ⟨fun r' e m hr' he hm => ?_, fun r' hr' => by cases hr'; exact hnow⟩
        cases hr'
        exact h.expired r e m hr (hkeys ▸ List.mem_cons_of_mem d he) hm
      split
      · exact hrest r.n
      · refine (hrest (r.n + 1)).of_fades (Fades.drop_object s.store d rfl rfl) ?_
        exact (State.drop_object_frame ..).now.ge

theorem apply (h : s.Collected) {event : ReapEvent} (hclock : s.Monotone event)
    (hspares : s.SparesCollected cfg event) : (s.apply cfg shardBits event).Collected := by
  cases event with
  | other op => exact h.other hclock hspares
  | call => exact h.call
  | step faults => exact h.step faults

/-- What is collected is expired, so what is removed next is. -/
theorem removes_expired (h : s.Collected) : s.RemovesExpired shardBits := by
  intro r d rest m hr _ hkeys hm
  exact h.expired r d m hr (hkeys ▸ List.mem_cons_self) hm

end ReapState.Collected

/-! ## The reaper alone -/

/-- A TTL is set only after the flag. -/
def Armed (σ : State) : Prop := ∀ d m, σ.index.lookup d = some m → m.expiry ≠ 0 → σ.anyTtl = true

namespace Armed

variable {cfg : Config} {σ σ' : State}

theorem of_fades (h : Armed σ) (hfades : Fades σ σ') : Armed σ' := by
  intro d m' hm' hexpiry
  obtain ⟨m, hm, heq⟩ := hfades.entry d m' hm'
  rw [hfades.anyTtl]
  rw [heq] at hexpiry
  exact h d m hm hexpiry

/-- A new entry arms the flag if it has a TTL. -/
theorem of_insert (h : Armed σ) {d : Digest} {m : ObjectMeta}
    (hindex : σ'.index = σ.index.insert d m)
    (httl : σ'.anyTtl = (σ.anyTtl || decide (m.expiry ≠ 0))) : Armed σ' := by
  intro e m' hm' hexpiry
  rw [hindex, Table.lookup_insert] at hm'
  rw [httl]
  split_ifs at hm'
  · cases hm'
    simp [hexpiry]
  · simp [h e m' hm' hexpiry]

theorem apply (h : Armed σ) (op : Op) : Armed (σ.apply cfg op) := by
  rcases State.apply_entries cfg σ op with hfades | ⟨d, m, expiry, -, -, hindex, httl⟩ |
      ⟨id, flags, expiry, cas, faults, h₀, σ₁, -, -, -, hnew, hfades⟩
  · exact h.of_fades hfades
  · exact h.of_insert hindex httl
  · obtain ⟨m, hindex, -, -, hexpiry, -⟩ := hnew.index
    have httl := hnew.anyTtl
    rw [← hexpiry] at httl
    exact (h.of_insert hindex httl).of_fades hfades

end Armed

theorem reachable_armed (cfg : Config) (ops : List Op) : Armed (State.after cfg ops) :=
  invariant_run (fun _ op _ h => h.apply op) (fun d m hm => by simp [State.init] at hm)
    (allowed_true (State.apply cfg) (State.init cfg) ops)

namespace Index

theorem nodup_expired_keys (index : Index) (now : Nat) : (expiredKeys index now).Nodup :=
  index.keys_nodup.filter _

/-- The digests that the scan of the first `n` shards collects. -/
def expiredBelow (index : Index) (shardBits now n : Nat) : List Digest :=
  (List.range n).flatMap fun shard => expiredInShard index shardBits shard now

theorem expired_below_succ (index : Index) (shardBits now n : Nat) :
    expiredBelow index shardBits now (n + 1) =
      expiredBelow index shardBits now n ++ expiredInShard index shardBits n now := by
  simp [expiredBelow, List.range_succ, List.flatMap_append]

theorem shard_for_lt (shardBits : Nat) (d : Digest) : shardFor shardBits d < 1 <<< shardBits := by
  rw [shardFor, Nat.one_shiftLeft, Nat.and_two_pow_sub_one_eq_mod]
  exact Nat.mod_lt _ (Nat.two_pow_pos shardBits)

/-- The scan of all shards collects each expired digest once. -/
theorem expired_below_perm (index : Index) (shardBits now : Nat) :
    (expiredBelow index shardBits now (1 <<< shardBits)).Perm (expiredKeys index now) := by
  have hnodup : (expiredBelow index shardBits now (1 <<< shardBits)).Nodup := by
    refine List.nodup_flatMap.2 ⟨fun shard _ => (nodup_expired_keys index now).filter _, ?_⟩
    refine (List.nodup_range.imp fun {a b} hab => ?_)
    intro d ha hb
    simp only [expiredInShard, List.mem_filter, decide_eq_true_eq] at ha hb
    exact hab (ha.2.symm.trans hb.2)
  refine (List.perm_ext_iff_of_nodup hnodup (nodup_expired_keys index now)).2 fun d => ?_
  simp only [expiredBelow, List.mem_flatMap, List.mem_range, expiredInShard, List.mem_filter,
    decide_eq_true_eq]
  constructor
  · rintro ⟨shard, -, hd, -⟩
    exact hd
  · intro hd
    exact ⟨shardFor shardBits d, shard_for_lt shardBits d, hd, rfl⟩

end Index

namespace ReapState

variable {cfg : Config} {shardBits : Nat}

/-- Steps of a call that is not under way do nothing. -/
theorem run_idle {s : ReapState} (h : s.reaper = none) (calls : List Faults) :
    run (apply cfg shardBits) s (calls.map .step) = s := by
  induction calls with
  | nil => rfl
  | cons faults rest ih =>
      have hstep : s.apply cfg shardBits (.step faults) = s := by simp only [apply, h]
      rw [List.map_cons, run_cons, hstep, ih]

/-- The scan of the remaining shards. -/
theorem run_scan (σ : State) (returned : Option Nat) (now : Nat) (calls : List Faults) :
    ∀ shard, shard + calls.length = 1 <<< shardBits →
      run (apply cfg shardBits)
          ⟨σ, some ⟨now, shard, Index.expiredBelow σ.index shardBits now shard, 0⟩, returned⟩
          (calls.map .step) =
        ⟨σ, some ⟨now, 1 <<< shardBits,
        Index.expiredBelow σ.index shardBits now (1 <<< shardBits), 0⟩,
          returned⟩ := by
  induction calls with
  | nil =>
      intro shard hlen
      rw [List.length_nil, Nat.add_zero] at hlen
      rw [List.map_nil, run_nil, hlen]
  | cons faults rest ih =>
      intro shard hlen
      rw [List.length_cons] at hlen
      rw [List.map_cons, run_cons, ← ih (shard + 1) (by omega)]
      simp only [apply, advance, if_pos (show shard < 1 <<< shardBits by omega),
        Index.expired_below_succ]

/-- The removal of the collected digests, all of them still indexed. -/
theorem run_remove (calls : List Faults) : ∀ (s : ReapState) (r : Reaper), s.reaper = some r →
    1 <<< shardBits ≤ r.shard → r.keys.Nodup → (∀ d ∈ r.keys, s.store.index.lookup d ≠ none) →
    r.keys.length < calls.length →
      (run (apply cfg shardBits) s (calls.map .step)).reaper = none ∧
      (run (apply cfg shardBits) s (calls.map .step)).returned = some (r.n + r.keys.length) ∧
      ∀ d, (run (apply cfg shardBits) s (calls.map .step)).store.index.lookup d =
        if d ∈ r.keys then none else s.store.index.lookup d := by
  induction calls with
  | nil =>
      intro s r _ _ _ _ hlen
      exact absurd hlen (Nat.not_lt_zero _)
  | cons faults rest ih =>
      intro s r hr hshard hnodup hindexed hlen
      rw [List.map_cons, run_cons]
      have happly : s.apply cfg shardBits (.step faults) = s.advance cfg shardBits r faults := by
        simp only [apply, hr]
      rw [happly, advance, if_neg (by omega)]
      cases hkeys : r.keys with
      | nil =>
          dsimp only
          rw [run_idle rfl]
          exact ⟨rfl, rfl, fun d => by rw [if_neg List.not_mem_nil]⟩
      | cons d keys =>
          rw [hkeys] at hnodup hindexed hlen
          obtain ⟨hnot, hnodup⟩ := List.nodup_cons.1 hnodup
          obtain ⟨m, hm⟩ := Option.ne_none_iff_exists'.1 (hindexed d List.mem_cons_self)
          simp only [hm]
          have hindex : (State.dropObject cfg s.store d faults (.reaped d)).index =
              s.store.index.erase d := by
            rcases @State.drop_object_spec cfg faults s.store d (.reaped d) with
              ⟨hnone, -⟩ | ⟨-, heq⟩
            · rw [hnone] at hm
              cases hm
            · exact heq
          obtain ⟨hdone, hcount, hlookup⟩ := ih
            { s with
              store := State.dropObject cfg s.store d faults (.reaped d)
              reaper := some { r with keys := keys, n := r.n + 1 } }
            { r with keys := keys, n := r.n + 1 } rfl hshard hnodup (fun e he => by
              dsimp only
              rw [hindex, Table.lookup_erase, if_neg (by rintro rfl; exact hnot he)]
              exact hindexed e (List.mem_cons_of_mem d he))
            (by
              rw [List.length_cons, List.length_cons] at hlen
              dsimp only
              omega)
          refine ⟨hdone, ?_, fun e => ?_⟩
          · rw [hcount, List.length_cons]
            dsimp only
            congr 1
            omega
          · rw [hlookup e]
            dsimp only
            rw [hindex, Table.lookup_erase]
            by_cases he : e = d
            · simp [he]
            · simp [he]

/-- Without a TTL nothing is expired. -/
theorem expired_keys_unarmed {σ : State} (h : Armed σ) (httl : σ.anyTtl = false) :
    Index.expiredKeys σ.index σ.now = [] := by
  refine List.eq_nil_iff_forall_not_mem.2 fun d hd => ?_
  obtain ⟨m, hm, hexp⟩ := Index.mem_expired_keys.1 hd
  rw [h d m hm (ObjectMeta.is_expired_iff.1 hexp).1] at httl
  cases httl

/-- With nobody else running, a call removes the expired objects and returns their number. -/
def ReapsExactly (cfg : Config) (shardBits : Nat) (σ : State) : Prop :=
  ∀ calls : List Faults, 1 <<< shardBits + (Index.expiredKeys σ.index σ.now).length < calls.length →
    ∀ s, s = run (apply cfg shardBits) ⟨σ, none, none⟩ (.call :: calls.map .step) →
      s.reaper = none ∧ s.returned = some (Index.expiredKeys σ.index σ.now).length ∧
      ∀ d, s.store.index.lookup d =
        if (σ.index.lookup d).any (·.isExpired σ.now) then none else σ.index.lookup d

theorem reaps_exactly {σ : State} (h : Armed σ) : ReapsExactly cfg shardBits σ := by
  rintro calls hlen s rfl
  rw [run_cons]
  have hany : ∀ d, (σ.index.lookup d).any (·.isExpired σ.now) = true ↔
      d ∈ Index.expiredKeys σ.index σ.now := by
    intro d
    rw [Index.mem_expired_keys, Option.any_eq_true]
  cases httl : σ.anyTtl with
  | false =>
      have hnone := expired_keys_unarmed h httl
      have hcall : apply cfg shardBits ⟨σ, none, none⟩ .call = ⟨σ, none, some 0⟩ := by
        simp [apply, httl]
      rw [hcall, run_idle rfl, hnone]
      refine ⟨rfl, rfl, fun d => ?_⟩
      rw [if_neg]
      rw [hany, hnone]
      exact List.not_mem_nil
  | true =>
      have hcall : apply cfg shardBits ⟨σ, none, none⟩ .call =
          ⟨σ, some ⟨σ.now, 0, Index.expiredBelow σ.index shardBits σ.now 0, 0⟩, none⟩ := by
        simp [apply, httl, Index.expiredBelow]
      have hperm := Index.expired_below_perm σ.index shardBits σ.now
      have hsplit := List.take_append_drop (1 <<< shardBits) calls
      rw [hcall, ← hsplit, List.map_append, run_append,
        run_scan σ none σ.now _ 0 (by rw [List.length_take]; omega)]
      obtain ⟨hdone, hcount, hlookup⟩ := @run_remove cfg shardBits (calls.drop (1 <<< shardBits))
        ⟨σ, some ⟨σ.now, 1 <<< shardBits,
        Index.expiredBelow σ.index shardBits σ.now (1 <<< shardBits),
          0⟩, none⟩ _ rfl le_rfl (hperm.nodup_iff.2 (Index.nodup_expired_keys _ _))
        (fun d hd => by
          obtain ⟨m, hm, -⟩ := Index.mem_expired_keys.1 (hperm.mem_iff.1 hd)
          exact Option.ne_none_iff_exists'.2 ⟨m, hm⟩)
        (by
          rw [List.length_drop]
          dsimp only
          rw [hperm.length_eq]
          omega)
      refine ⟨hdone, ?_, fun d => ?_⟩
      · rw [hcount]
        dsimp only
        rw [hperm.length_eq, Nat.zero_add]
      · rw [hlookup d]
        dsimp only
        refine if_congr ?_ rfl rfl
        rw [hany, hperm.mem_iff]

end ReapState

/-- A store just opened, with no call under way. -/
def ReapState.init (cfg : Config) : ReapState := ⟨State.init cfg, none, none⟩

/-- Under any interleaving in which the clock does not go back and no collected digest gets a
version or an expiry that is not past, the reaper removes expired versions only. From every
reachable state, a call that runs alone removes exactly the expired objects and returns their
number. -/
theorem reaper_removes_expired (cfg : Config) (shardBits : Nat) :
    (∀ events, Allowed (ReapState.apply cfg shardBits)
        (fun s event => s.Monotone event ∧ s.SparesCollected cfg event)
        (ReapState.init cfg) events →
      (run (ReapState.apply cfg shardBits) (ReapState.init cfg) events).RemovesExpired shardBits) ∧
    ∀ ops, ReapState.ReapsExactly cfg shardBits (State.after cfg ops) := by
  refine ⟨fun events h => ?_, fun ops => ReapState.reaps_exactly (reachable_armed cfg ops)⟩
  have hcollected := invariant_run (I := ReapState.Collected)
    (fun _ _ hok hinv => hinv.apply hok.1 hok.2) (ReapState.Collected.of_idle rfl) h
  exact hcollected.removes_expired

/-- Store an object with an expiry, let it pass, and let the reaper scan the only shard. -/
def storeAndScan : List ReapEvent :=
  [.other (.beginStore (Digest.replicate 1) 100 Faults.never),
    .other (.write 0 ⟨100, fun _ => 7⟩ Faults.never), .other (.commit 0 0 10 0 Faults.never),
    .other (.clock 20), .call, .step Faults.never]

theorem reaper_removes_expired_one :
    (run (ReapState.apply oneDriveConfig 0) (ReapState.init oneDriveConfig) storeAndScan).reaper.map
        (·.keys) = some [Digest.replicate 1] ∧
      (run (ReapState.apply oneDriveConfig 0) (ReapState.init oneDriveConfig)
        storeAndScan).RemovesExpired 0 := by
  refine ⟨by decide +kernel, (reaper_removes_expired oneDriveConfig 0).1 storeAndScan
    ⟨⟨trivial, trivial⟩, ⟨trivial, trivial⟩, ⟨trivial, fun _ r h hr => ?_⟩, ⟨?_, trivial⟩,
      ⟨trivial, trivial⟩, ⟨trivial, trivial⟩, trivial⟩⟩
  · cases hr
  · simp only [ReapState.Monotone]
    decide +kernel

/-- After the scan, store a version without an expiry in the object's place. -/
def scanThenStore : List ReapEvent :=
  storeAndScan ++ [.other (.beginStore (Digest.replicate 1) 100 Faults.never),
    .other (.write 1 ⟨100, fun _ => 8⟩ Faults.never), .other (.commit 1 0 0 0 Faults.never)]

/-- The reaper then removes the new version, which is not expired. -/
theorem reaper_removes_fresh_version :
    Allowed (ReapState.apply oneDriveConfig 0) ReapState.Monotone (ReapState.init oneDriveConfig)
        scanThenStore ∧
      ¬ (run (ReapState.apply oneDriveConfig 0) (ReapState.init oneDriveConfig)
        scanThenStore).RemovesExpired 0 := by
  refine ⟨⟨trivial, trivial, trivial, ?_, trivial, trivial, trivial, trivial, trivial, trivial⟩,
    fun hexpired => ?_⟩
  · simp only [ReapState.Monotone]
    decide +kernel
  · have hnext : ((run (ReapState.apply oneDriveConfig 0) (ReapState.init oneDriveConfig)
        scanThenStore).reaper.map fun r => (r.shard, r.keys)) = some (1, [Digest.replicate 1]) := by
      decide +kernel
    have hfresh : ((run (ReapState.apply oneDriveConfig 0) (ReapState.init oneDriveConfig)
        scanThenStore).store.index.lookup (Digest.replicate 1)).map (·.expiry) = some 0 := by
      decide +kernel
    obtain ⟨r, hr, hpair⟩ := Option.map_eq_some_iff.1 hnext
    obtain ⟨hshard, hkeys⟩ := Prod.mk.inj hpair
    obtain ⟨m, hm, hexpiry⟩ := Option.map_eq_some_iff.1 hfresh
    have hpast := hexpired r (Digest.replicate 1) [] m hr hshard.ge hkeys hm
    exact (ObjectMeta.is_expired_iff.1 hpast).1 hexpiry

end GoblinStore
