import GoblinStore.Memcache.EventLoop
import GoblinStore.Storage.PinnedHeads

/-!
# Expiry times

A client gives the TTL of an object with a classic storage command, with the flag `T` of `ms`, or
with the flag `T` of `mg`, which overwrites it. `Timed` follows each argument from the line of the
command to the entry of the index, and `Honoured` says what the entry then has to mean. The argument
of a meta command is a 64-bit number that is narrowed to 32 bits before it is taken for relative or
absolute.
-/

namespace GoblinStore.Memcache

open GoblinStore.Lib GoblinStore.Core GoblinStore.Net

variable {cfg : Config}

/-- The longest relative TTL, 30 days. -/
def kRelativeMax : Nat := 60 * 60 * 24 * 30

/-! ## From the command to the index -/

/-- How the session of a storage command goes on until its data block is complete: bytes arrive, a
part of the block is written, and a store that was parked is opened. -/
inductive Receives (cfg : Config) : Session → Session → Prop where
  | refl (p : Session) : Receives cfg p p
  | input {p q : Session} (h : Receives cfg p q) (bytes : List UInt8) :
      Receives cfg p { q with input := q.input ++ bytes }
  | body {p q : Session} (h : Receives cfg p q) (env : Env) (σ : State)
      (hwaits : (bodyTurn cfg env σ q).ending = .waits) :
      Receives cfg p (bodyTurn cfg env σ q).proto
  | retry {p q q' : Session} (h : Receives cfg p q) (env : Env) (σ : State) {sh : Bool}
      (hretry : (retryStore cfg env σ q).2 = some (sh, q')) : Receives cfg p q'

/-- The fields that determine the expiry of a store. -/
def Session.ttlFields (p : Session) : Bool × Nat × Nat := (p.isMeta, p.metaExpiry, p.setExptime)

theorem body_turn_ttl_fields (env : Env) (σ : State) (p : Session) :
    (bodyTurn cfg env σ p).proto.ttlFields = p.ttlFields := by
  unfold bodyTurn
  dsimp only
  split_ifs <;> rfl

variable {σ : State} {p : Session}

theorem retry_store_ttl_fields {env : Env} {q : Session} {sh : Bool}
    (h : (retryStore cfg env σ p).2 = some (sh, q)) : q.ttlFields = p.ttlFields := by
  unfold retryStore at h
  dsimp only at h
  split at h
  · cases h
    rfl
  · cases h
  · cases h
    rfl

theorem begin_turn_ttl_fields (env : Env) (σ : State) (p : Session) :
    (beginTurn cfg env σ p).proto.ttlFields = p.ttlFields := by
  unfold beginTurn
  dsimp only
  split
  · rfl
  · split <;> rfl

theorem Receives.ttl_fields {q : Session} (h : Receives cfg p q) : q.ttlFields = p.ttlFields := by
  induction h with
  | refl => rfl
  | input _ bytes ih => exact ih
  | body _ env σ _ ih => exact (body_turn_ttl_fields env σ _).trans ih
  | retry _ env σ hretry ih => exact (retry_store_ttl_fields hretry).trans ih

/-- The fields of the session after a classic storage command. -/
theorem storage_turn_ttl_fields (env : Env) (σ : State) (p : Session) (cmd : Command) :
    (storageTurn cfg env σ p cmd).proto.ttlFields = (false, p.metaExpiry, cmd.exptime) :=
  begin_turn_ttl_fields env σ _

/-- The fields of the session after `ms`. -/
theorem meta_set_turn_ttl_fields (env : Env) (σ : State) (p : Session) (mc : MetaCommand) :
    (metaSetTurn cfg env σ p mc).proto.ttlFields =
      (true, (mc.ttl.map fun ttl => ttlToExpiry ttl σ.now).getD 0, p.setExptime) :=
  begin_turn_ttl_fields env σ _

variable {cas : Nat}

/-- The expiry of a commit is that of the session. -/
theorem finish_store_expiry {env : Env} {id flags expiry : Nat} {faults : Faults}
    (h : Op.commit id flags expiry cas faults ∈ (finishStore cfg env σ p).1) :
    expiry = p.expiry σ.now := by
  have hreset : Op.commit id flags expiry cas faults ∉ reset env p := by
    unfold reset
    cases p.handle <;> simp
  unfold finishStore at h
  split at h
  · exact absurd h hreset
  split at h
  · exact absurd h hreset
  · split at h
    · cases h
    · split at h
      · exact absurd h hreset
      · rcases List.mem_cons.1 h with heq | hmem
        · cases heq
          rfl
        · exact absurd hmem hreset

variable {m : ObjectMeta}

/-- The entry that a commit leaves has the commit's expiry. -/
theorem commit_expiry {id flags expiry : Nat} {faults : Faults} {h : StoreHandle}
    (hh : σ.handles.lookup id = some h) (hok : (σ.commit cfg id flags expiry cas faults).1 = .ok ())
    (hm : (σ.commit cfg id flags expiry cas faults).2.index.lookup h.digest = some m) :
    m.expiry = expiry := by
  rcases @State.commit_ledger cfg σ id flags expiry cas faults with
    ⟨hfail, -⟩ | ⟨h', -, hh', -, -, hfade⟩
  · exact absurd hok hfail
  cases hh.symm.trans hh'
  obtain ⟨m₀, hm₀, heq⟩ := hfade.entry hm
  simp only [Ledger.put, Table.lookup_insert, if_pos] at hm₀
  cases hm₀
  exact congrArg ObjectMeta.expiry heq

theorem touch_ttl_lookup {d : Digest} (hm : σ.index.lookup d = some m) (expiry : Nat) :
    (σ.touchTtl d expiry).2.index.lookup d = some { m with expiry := expiry } := by
  simp only [State.touchTtl, Index.updateExpiry, hm, Table.lookup_insert, if_pos]

theorem touch_ttl_expiry {d : Digest} {expiry : Nat}
    (hm : (σ.touchTtl d expiry).2.index.lookup d = some m) : m.expiry = expiry := by
  cases hm₀ : σ.index.lookup d with
  | none =>
      rw [State.touchTtl, hm₀] at hm
      exact absurd (hm₀.symm.trans hm) (by simp)
  | some m₀ =>
      rw [touch_ttl_lookup hm₀] at hm
      cases hm
      rfl

variable {t : Int}

/-- The touch of `mg` with a TTL. -/
theorem meta_get_turn_ops {mc : MetaCommand} (ht : mc.ttl = some t) (env : Env) (σ : State)
    (p : Session) :
    (metaGetTurn cfg env σ p mc).ops = [.touchTtl (env.hashKey mc.key) (ttlToExpiry t σ.now)] := by
  unfold metaGetTurn
  dsimp only
  rw [ht]
  split
  · rfl
  · split <;> rfl

/-- The entry `m` has got its expiry from the argument `t` of a command, at the time `now`. -/
inductive Timed (cfg : Config) : Nat → Int → ObjectMeta → Prop where
  | classic {line : List UInt8} {cmd : Command} (hparse : parseCommand line = some cmd)
      (hverb : cmd.verb = .set ∨ cmd.verb = .add ∨ cmd.verb = .replace ∨ cmd.verb = .cas)
      {env₀ : Env} {σ₀ : State}
      {p₀ p : Session} (hreceives : Receives cfg (storageTurn cfg env₀ σ₀ p₀ cmd).proto p)
      {env : Env} {σ : State} {id flags expiry cas : Nat} {faults : Faults}
      (hop : Op.commit id flags expiry cas faults ∈ (finishStore cfg env σ p).1) {h : StoreHandle}
      (hh : σ.handles.lookup id = some h)
      (hok : (σ.commit cfg id flags expiry cas faults).1 = .ok ())
      {m : ObjectMeta}
      (hm : (σ.commit cfg id flags expiry cas faults).2.index.lookup h.digest = some m) :
      Timed cfg σ.now cmd.exptime m
  | metaSet {line : List UInt8} {mc : MetaCommand} {t : Int} (hparse : parseMeta line = some mc)
      (hverb : mc.verb = .ms) (ht : mc.ttl = some t) {env₀ : Env} {σ₀ : State} {p₀ p : Session}
      (hreceives : Receives cfg (metaSetTurn cfg env₀ σ₀ p₀ mc).proto p) {env : Env} {σ : State}
      {id flags expiry cas : Nat} {faults : Faults}
      (hop : Op.commit id flags expiry cas faults ∈ (finishStore cfg env σ p).1) {h : StoreHandle}
      (hh : σ.handles.lookup id = some h)
      (hok : (σ.commit cfg id flags expiry cas faults).1 = .ok ())
      {m : ObjectMeta}
      (hm : (σ.commit cfg id flags expiry cas faults).2.index.lookup h.digest = some m) :
      Timed cfg σ₀.now t m
  | metaGet {line : List UInt8} {mc : MetaCommand} {t : Int} (hparse : parseMeta line = some mc)
      (hverb : mc.verb = .mg) (ht : mc.ttl = some t) {env : Env} {σ : State} {p : Session}
      {d : Digest} {expiry : Nat}
      (hop : Op.touchTtl d expiry ∈ (metaGetTurn cfg env σ p mc).ops) {m : ObjectMeta}
      (hm : (σ.touchTtl d expiry).2.index.lookup d = some m) : Timed cfg σ.now t m

/-! ## The arguments that are accepted -/

theorem parse_storage_exptime {verb : Verb} {key flags exptime bytes : List UInt8} {noreply : Bool}
    {cmd : Command} (h : parseStorage verb key flags exptime bytes cas noreply = some cmd) :
    cmd.exptime < wrap32 := by
  unfold parseStorage at h
  split at h
  · rename_i n hflags hexptime hbytes
    cases h
    exact of_decide_eq_true (Option.filter_eq_some_iff.1 hexptime).2
  · cases h

/-- The exptime of a classic command is a 32-bit number. -/
theorem parse_command_exptime {line : List UInt8} {cmd : Command}
    (h : parseCommand line = some cmd) :
    cmd.exptime < wrap32 := by
  unfold parseCommand at h
  split at h
  · cases h
  · dsimp only at h
    split at h
    case h_4 =>
      obtain ⟨cas, -, h⟩ := Option.bind_eq_some_iff.1 h
      exact parse_storage_exptime h
    case h_5 | h_6 | h_7 => exact parse_storage_exptime h
    case h_11 => cases h
    all_goals
      cases h
      exact Nat.zero_lt_succ _

theorem ttl_to_expiry_of_lt {exptime now : Nat} (h : exptime < wrap32) :
    ttlToExpiry exptime now = exptimeToExpiry exptime now := by
  unfold ttlToExpiry
  by_cases hzero : exptime = 0
  · subst hzero
    rfl
  · rw [if_neg (by omega), if_neg (by omega), Int.toNat_natCast, Nat.mod_eq_of_lt h]

/-- Every command gives its entry the expiry of its argument. -/
theorem Timed.expiry {now : Nat} (h : Timed cfg now t m) : m.expiry = ttlToExpiry t now := by
  cases h with
  | classic hparse hverb hreceives hop hh hok hm =>
      rename_i cmd env₀ σ₀ p₀ p env σ id flags expiry cas faults h
      have hfields := hreceives.ttl_fields.trans (storage_turn_ttl_fields env₀ σ₀ p₀ cmd)
      have hmeta : p.isMeta = false := congrArg Prod.fst hfields
      have hexptime : p.setExptime = cmd.exptime := congrArg (fun f => f.2.2) hfields
      rw [commit_expiry hh hok hm, finish_store_expiry hop, Session.expiry, hmeta, hexptime,
        ttl_to_expiry_of_lt (parse_command_exptime hparse)]
      rfl
  | metaSet hparse hverb ht hreceives hop hh hok hm =>
      rename_i mc env₀ σ₀ p₀ p env σ id flags expiry cas faults h
      have hfields := hreceives.ttl_fields.trans (meta_set_turn_ttl_fields env₀ σ₀ p₀ mc)
      have hmeta : p.isMeta = true := congrArg Prod.fst hfields
      have hexpiry : p.metaExpiry = _ := congrArg (fun f => f.2.1) hfields
      rw [commit_expiry hh hok hm, finish_store_expiry hop, Session.expiry, hmeta, hexpiry, ht]
      rfl
  | metaGet hparse hverb ht hop hm =>
      rename_i mc env σ p d expiry
      rw [meta_get_turn_ops ht, List.mem_singleton] at hop
      cases hop
      exact touch_ttl_expiry hm

/-! ## What an argument means -/

/-- What the argument `t` of a command at the time `now` says about an object: zero is never, a
negative argument has passed, up to 30 days it is relative, then absolute; past the last time of the
clock the object is not to expire before that time. -/
structure Honoured (now : Nat) (t : Int) (m : ObjectMeta) : Prop where
  never : (∀ time < wrap32, m.isExpired time = false) ↔ t = 0
  past : t < 0 → m.isExpired now = true
  relative : 0 < t → t ≤ kRelativeMax → ∀ time < wrap32, m.isExpired time = true ↔ now + t ≤ time
  absolute : kRelativeMax < t → t < wrap32 → ∀ time < wrap32, m.isExpired time = true ↔ t ≤ time
  beyond : wrap32 ≤ t → ∀ time < wrap32, m.isExpired time = true → ∀ other < wrap32, other ≤ time

/-- The arguments that are honoured. A negative one sets the expiry to 1, which has not passed at
the time 0. One of more than 32 bits is narrowed, and is honoured if that gives the last time of the
clock. -/
def Keepable (now : Nat) (t : Int) : Prop :=
  (t < 0 → 1 ≤ now) ∧
    (wrap32 ≤ t → t % wrap32 = wrap32 - 1 ∨
    (t % wrap32 = kRelativeMax ∧ now + kRelativeMax = wrap32 - 1))

/-- Two arguments are both relative, or both absolute. -/
def SameKind (t t' : Int) : Prop :=
  (0 < t ∧ t ≤ kRelativeMax ∧ 0 < t' ∧ t' ≤ kRelativeMax) ∨ (kRelativeMax < t ∧ kRelativeMax < t')

section Meaning

variable {now : Nat} {t : Int}

theorem ttl_to_expiry_neg (ht : t < 0) : ttlToExpiry t now = 1 := by
  rw [ttlToExpiry, if_neg (by omega), if_pos ht]

/-- A positive argument is narrowed first. -/
theorem ttl_to_expiry_pos (ht : 0 < t) :
    ttlToExpiry t now = exptimeToExpiry (t.toNat % wrap32) now := by
  rw [ttlToExpiry, if_neg (by omega), if_neg (by omega)]

theorem exptime_to_expiry_relative {u : Nat} (hu : 0 < u) (hle : u ≤ kRelativeMax)
    (hnow : now < wrap32 - kRelativeMax) :
    exptimeToExpiry u now = now + u := by
  unfold kRelativeMax at hle hnow
  rw [exptimeToExpiry, if_neg (by omega), if_neg (by omega)]
  exact Nat.mod_eq_of_lt (by omega)

theorem exptime_to_expiry_absolute {u : Nat} (hu : kRelativeMax < u) :
    exptimeToExpiry u now = u := by
  unfold kRelativeMax at hu
  rw [exptimeToExpiry, if_neg (by omega), if_pos (by omega)]

theorem ttl_to_expiry_relative (ht : 0 < t) (hle : t ≤ kRelativeMax)
    (hnow : now < wrap32 - kRelativeMax) :
    ttlToExpiry t now = now + t.toNat := by
  have hlt : t.toNat < wrap32 := by
    unfold kRelativeMax at hle
    unfold wrap32
    omega
  rw [ttl_to_expiry_pos ht, Nat.mod_eq_of_lt hlt,
    exptime_to_expiry_relative (by omega) (by omega) hnow]

theorem ttl_to_expiry_absolute (ht : kRelativeMax < t) (hlt : t < wrap32) :
    ttlToExpiry t now = t.toNat := by
  rw [ttl_to_expiry_pos (by omega), Nat.mod_eq_of_lt (by omega),
    exptime_to_expiry_absolute (by omega)]

/-- An argument of more than 32 bits that is honoured sets the last time of the clock, and no other
does. -/
theorem ttl_to_expiry_beyond (ht : wrap32 ≤ t) (hnow : now < wrap32 - kRelativeMax) :
    ttlToExpiry t now = wrap32 - 1 ↔
      t % wrap32 = wrap32 - 1 ∨ (t % wrap32 = kRelativeMax ∧ now + kRelativeMax = wrap32 - 1) := by
  have hpos : 0 < t := lt_of_lt_of_le (by decide) ht
  have hmod : t % wrap32 = ((t.toNat % wrap32 : Nat) : Int) := by
    rw [Int.natCast_mod, Int.toNat_of_nonneg hpos.le]
  have hlt : t.toNat % wrap32 < wrap32 := Nat.mod_lt _ (by decide)
  rw [ttl_to_expiry_pos hpos, hmod]
  generalize t.toNat % wrap32 = u at hlt
  by_cases hzero : u = 0
  · subst hzero
    rw [exptimeToExpiry, if_pos rfl]
    unfold kRelativeMax wrap32
    omega
  · by_cases hle : u ≤ kRelativeMax
    · rw [exptime_to_expiry_relative (by omega) hle hnow]
      unfold kRelativeMax wrap32 at *
      omega
    · rw [exptime_to_expiry_absolute (by omega)]
      unfold kRelativeMax wrap32 at *
      omega

theorem ttl_to_expiry_lt (now : Nat) (t : Int) : ttlToExpiry t now < wrap32 := by
  have hu : ∀ u < wrap32, exptimeToExpiry u now < wrap32 := by
    intro u hlt
    unfold exptimeToExpiry
    split_ifs
    · decide
    · exact hlt
    · exact Nat.mod_lt _ (by decide)
  unfold ttlToExpiry
  split_ifs
  · decide
  · decide
  · exact hu _ (Nat.mod_lt _ (by decide))

variable {m : ObjectMeta}

/-- An object never expires if and only if its expiry is zero. -/
theorem never_expired_iff (hlt : m.expiry < wrap32) :
    (∀ time < wrap32, m.isExpired time = false) ↔ m.expiry = 0 := by
  constructor
  · intro h
    by_contra hne
    have hfalse := h m.expiry hlt
    rw [ObjectMeta.is_expired_iff.2 ⟨hne, le_rfl⟩] at hfalse
    cases hfalse
  · intro hzero time _
    rw [← Bool.not_eq_true, ObjectMeta.is_expired_iff]
    exact fun h => h.1 hzero

/-- An object with this expiry expires at that time. -/
theorem expired_iff_le (hpos : 0 < m.expiry) (time : Nat) :
    m.isExpired time = true ↔ m.expiry ≤ time := by
  rw [ObjectMeta.is_expired_iff]
  exact ⟨And.right, fun h => ⟨by omega, h⟩⟩

theorem honoured_iff (hexpiry : m.expiry = ttlToExpiry t now) (hnow : now < wrap32 - kRelativeMax) :
    Honoured now t m ↔ Keepable now t := by
  have hlt : m.expiry < wrap32 := hexpiry ▸ ttl_to_expiry_lt now t
  have hmax : (kRelativeMax : Int) < wrap32 := by decide
  rcases lt_trichotomy t 0 with hneg | rfl | hpos
  · have hone : m.expiry = 1 := hexpiry.trans (ttl_to_expiry_neg hneg)
    have hexpired := expired_iff_le (m := m) (by omega)
    constructor
    · intro h
      exact ⟨fun _ => hone ▸ (hexpired now).1 (h.past hneg),
        fun h' => by unfold wrap32 at h'; omega⟩
    · intro h
      refine ⟨?_, fun _ => (hexpired now).2 (hone ▸ h.1 hneg), by omega, by omega, by omega⟩
      rw [never_expired_iff hlt]
      omega
  · have hzero : m.expiry = 0 := hexpiry
    refine iff_of_true ⟨?_, by omega, by omega, by omega, by omega⟩ ⟨by omega, by omega⟩
    rw [never_expired_iff hlt]
    exact ⟨fun _ => rfl, fun _ => hzero⟩
  by_cases hrel : t ≤ kRelativeMax
  · have hat : m.expiry = now + t.toNat := hexpiry.trans (ttl_to_expiry_relative hpos hrel hnow)
    have hexpired := expired_iff_le (m := m) (by omega)
    refine iff_of_true ⟨?_, by omega, fun _ _ time _ => ?_, by omega, by omega⟩ ⟨by omega, by omega⟩
    · rw [never_expired_iff hlt]
      omega
    · rw [hexpired, hat]
      omega
  by_cases habs : t < wrap32
  · have hat : m.expiry = t.toNat := hexpiry.trans (ttl_to_expiry_absolute (by omega) habs)
    have hexpired := expired_iff_le (m := m) (by omega)
    refine iff_of_true ⟨?_, by omega, by omega, fun _ _ time _ => ?_, by omega⟩ ⟨by omega, by omega⟩
    · rw [never_expired_iff hlt]
      omega
    · rw [hexpired, hat]
      omega
  -- past 32 bits only the last time of the clock will do
  · have hlast := ttl_to_expiry_beyond (t := t) (by omega) hnow
    rw [← hexpiry] at hlast
    constructor
    · intro h
      refine ⟨by omega, fun hge => hlast.1 ?_⟩
      have hne : m.expiry ≠ 0 := by
        intro hzero
        have := h.never.1 ((never_expired_iff hlt).2 hzero)
        omega
      have hge' := h.beyond hge m.expiry hlt (ObjectMeta.is_expired_iff.2 ⟨hne, le_rfl⟩)
        (wrap32 - 1) (by decide)
      omega
    · intro h
      have hat : m.expiry = wrap32 - 1 := hlast.2 (h.2 (by omega))
      have hexpired := expired_iff_le (m := m) (by rw [hat]; decide)
      refine ⟨?_, by omega, by omega, by omega, fun _ time htime hexp other hother => ?_⟩
      · rw [never_expired_iff hlt, hat]
        exact ⟨fun h => absurd h (by decide), fun h => absurd h (by omega)⟩
      · have := (hexpired time).1 hexp
        omega

/-- An argument that is honoured gives no earlier expiry than a smaller one of the same kind. -/
theorem ttl_to_expiry_mono {t' : Int} (hnow : now < wrap32 - kRelativeMax) (hkind : SameKind t t')
    (hle : t ≤ t') (h' : Keepable now t') : ttlToExpiry t now ≤ ttlToExpiry t' now := by
  rcases hkind with ⟨hpos, hrel, hpos', hrel'⟩ | ⟨habs, habs'⟩
  · rw [ttl_to_expiry_relative hpos hrel hnow, ttl_to_expiry_relative hpos' hrel' hnow]
    omega
  · by_cases hlt' : t' < wrap32
    · rw [ttl_to_expiry_absolute habs (by omega), ttl_to_expiry_absolute habs' hlt']
      omega
    · have hbound := ttl_to_expiry_lt now t
      rw [(ttl_to_expiry_beyond (by omega) hnow).2 (h'.2 (by omega))]
      omega

end Meaning

/-- The TTL of every command is honoured if and only if its argument is `Keepable`, and then it does
not expire earlier than a smaller one of the same kind. -/
theorem ttl_honoured_iff {now : Nat} {t : Int} {m : ObjectMeta} (h : Timed cfg now t m)
    (hnow : now < wrap32 - kRelativeMax) :
    (Honoured now t m ↔ Keepable now t) ∧
      ∀ t' m', Timed cfg now t' m' → SameKind t t' → t ≤ t' → Keepable now t' →
        m.expiry ≤ m'.expiry := by
  refine ⟨honoured_iff h.expiry hnow, fun t' m' h' hkind hle hkeep' => ?_⟩
  rw [h.expiry, h'.expiry]
  exact ttl_to_expiry_mono hnow hkind hle hkeep'

/-- An object stored for ever, at a time of the year 2001. -/
def storedForEver : State := State.after oneDriveConfig (storeHundred ++ [.clock 1000000000])

/-- Every key has the digest of that object. -/
def storedEnv : Env := ⟨⟨[], Faults.never⟩, fun _ => Digest.replicate 1⟩

/-- `mg` with a TTL touches the object. -/
theorem stored_timed {line : List UInt8} {mc : MetaCommand} (hparse : parseMeta line = some mc)
    (hverb : mc.verb = .mg) (ht : mc.ttl = some t) : ∃ m, Timed oneDriveConfig 1000000000 t m := by
  obtain ⟨m, hm⟩ : ∃ m, storedForEver.index.lookup (Digest.replicate 1) = some m :=
    Option.isSome_iff_exists.1 (by decide +kernel)
  have hnow : storedForEver.now = 1000000000 := by decide +kernel
  have hop : Op.touchTtl (Digest.replicate 1) (ttlToExpiry t storedForEver.now) ∈
      (metaGetTurn oneDriveConfig storedEnv storedForEver Session.create mc).ops := by
    rw [meta_get_turn_ops ht]
    exact List.mem_singleton.2 rfl
  rw [← hnow]
  exact ⟨_, .metaGet hparse hverb ht hop (touch_ttl_lookup hm _)⟩

/-- The command `mg k T<ttl>`. -/
def touchCommand (ttl : Int) : MetaCommand :=
  { MetaCommand.start .mg (text "k") 0 with ttl := some ttl }

theorem ttl_honoured_minute :
    parseMeta (text "mg k T60") = some (touchCommand 60) ∧
      ∃ m, Timed oneDriveConfig 1000000000 60 m ∧ Honoured 1000000000 60 m := by
  have hparse : parseMeta (text "mg k T60") = some (touchCommand 60) := by decide +kernel
  obtain ⟨m, hm⟩ := stored_timed hparse rfl rfl
  exact ⟨hparse, m, hm, (ttl_honoured_iff hm (by decide)).1.2 ⟨by decide, by decide⟩⟩

/-- A TTL of 2 ^ 32 seconds is taken for none at all, and one of five seconds more for five
seconds. -/
theorem wide_ttl_truncated :
    parseMeta (text "mg k T4294967296") = some (touchCommand 4294967296) ∧
      parseMeta (text "mg k T4294967301") = some (touchCommand 4294967301) ∧
      (∃ m, Timed oneDriveConfig 1000000000 4294967296 m ∧ ¬ Honoured 1000000000 4294967296 m ∧
        m.expiry = 0) ∧
      ∃ m, Timed oneDriveConfig 1000000000 4294967301 m ∧ ¬ Honoured 1000000000 4294967301 m ∧
        m.expiry = 1000000005 := by
  have hnever : parseMeta (text "mg k T4294967296") =
      some (touchCommand 4294967296) := by decide +kernel
  have hfive : parseMeta (text "mg k T4294967301") =
      some (touchCommand 4294967301) := by decide +kernel
  obtain ⟨m, hm⟩ := stored_timed hnever rfl rfl
  obtain ⟨n, hn⟩ := stored_timed hfive rfl rfl
  have hmne : ¬ Keepable 1000000000 4294967296 := fun h => absurd (h.2 (by decide)) (by decide)
  have hnne : ¬ Keepable 1000000000 4294967301 := fun h => absurd (h.2 (by decide)) (by decide)
  exact ⟨hnever, hfive, ⟨m, hm, mt (honoured_iff hm.expiry (by decide)).1 hmne, hm.expiry⟩,
    n, hn, mt (honoured_iff hn.expiry (by decide)).1 hnne, hn.expiry⟩

end GoblinStore.Memcache
