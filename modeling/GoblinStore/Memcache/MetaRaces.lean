import GoblinStore.Memcache.EventLoop
import GoblinStore.Storage.Cas

/-!
# Meta commands between the steps of other loops

`md` looks its object up and removes it later, `ms` commits and looks its new CAS up later; each
takes the storage lock anew, so that the steps of other loops come between. `metaDelete` and
`metaStored` are the two commands with these steps as a parameter. What a client is told is right as
long as none of the steps publishes, removes, reaps or evicts an object of the same key (`Spares`).
-/

namespace GoblinStore

open GoblinStore.Lib

variable {cfg : Config} {σ : State} {d : Digest} {op : Op}

/-- The step publishes no version of the digest and does not drop it. -/
def Spares (cfg : Config) (d : Digest) (σ : State) (op : Op) : Prop :=
  ¬ op.Publishes cfg σ d ∧ ((σ.index.lookup d).isSome = true →
    ((σ.apply cfg op).index.lookup d).isSome = true)

/-- What is left of an entry by a step that publishes no version of its digest. -/
theorem etag_of_unpublished (h : ¬ op.Publishes cfg σ d) {m' : ObjectMeta}
    (hm' : (σ.apply cfg op).index.lookup d = some m') :
    ∃ m, σ.index.lookup d = some m ∧ m.etag = m'.etag := by
  rcases apply_commits σ op with hno | ⟨e, v, σ₁, hpub, hnew, hrest⟩
  · exact hno.index d m' hm'
  · obtain ⟨m, hm, heq⟩ := hrest.index d m' hm'
    obtain ⟨n, -, hindex⟩ := hnew.index
    have hne : d ≠ e := by
      rintro rfl
      exact h hpub
    rw [hindex, Table.lookup_insert, if_neg hne] at hm
    exact ⟨m, hm, heq⟩

theorem Spares.etag (h : Spares cfg d σ op) :
    ((σ.apply cfg op).index.lookup d).map ObjectMeta.etag =
      (σ.index.lookup d).map ObjectMeta.etag := by
  cases hm' : (σ.apply cfg op).index.lookup d with
  | none =>
      have hnone : σ.index.lookup d = none := by
        rw [← Option.not_isSome_iff_eq_none]
        intro hsome
        have := h.2 hsome
        rw [hm'] at this
        cases this
      rw [hnone]
  | some m' =>
      obtain ⟨m, hm, heq⟩ := etag_of_unpublished h.1 hm'
      rw [hm]
      exact congrArg some heq.symm

/-- After steps that spare a digest, its version is the same. -/
theorem spared_run {ops : List Op} (h : Allowed (State.apply cfg) (Spares cfg d) σ ops) :
    ((run (State.apply cfg) σ ops).index.lookup d).map ObjectMeta.etag =
      (σ.index.lookup d).map ObjectMeta.etag := by
  refine invariant_run (I := fun σ' => (σ'.index.lookup d).map ObjectMeta.etag =
    (σ.index.lookup d).map ObjectMeta.etag)
    (fun σ' op hspares hσ' => ?_) rfl h
  exact hspares.etag.trans hσ'

end GoblinStore

namespace GoblinStore.Memcache

open GoblinStore.Lib GoblinStore.Core GoblinStore.Net

variable {cfg : Config}

/-! ## Delete -/

/-- The reply to `md` that has removed its object. -/
def deletedReply (mc : MetaCommand) : List UInt8 :=
  if mc.quiet then []
  else
    text "HD" ++ (if mc.rfKey then text " k" ++ mc.key else []) ++
      (if mc.opaqueToken ≠ [] then text " O" ++ mc.opaqueToken else []) ++ crlf

/-- The lookup of `md`: the reply if the command ends there, otherwise `remove` follows. -/
def metaDeleteLookup (σ : State) (d : Digest) (mc : MetaCommand) : Option (List UInt8) :=
  match σ.present d with
  | none => some (if mc.quiet then [] else kMetaNotFound)
  | some m => if mc.cas.any (m.etag ≠ ·) then some (if mc.quiet then [] else kMetaExists) else none

/-- The end of `md`: its reply, what it has removed, and the store. -/
structure MetaDeleted where
  reply : List UInt8
  removed : Option ObjectMeta
  σ : State

/-- `md` with the steps of other loops between its lookup and its removal. -/
def metaDelete (cfg : Config) (env : Env) (σ : State) (mc : MetaCommand) (others : List Op) :
    MetaDeleted :=
  let σ' := run (State.apply cfg) σ others
  match metaDeleteLookup σ (env.hashKey mc.key) mc with
  | some reply => ⟨reply, none, σ'⟩
  | none =>
      ⟨deletedReply mc, σ'.index.lookup (env.hashKey mc.key),
        (σ'.remove cfg (env.hashKey mc.key) env.faults).2⟩

/-- Without steps of other loops it is the iteration of `process`. -/
theorem meta_delete_turn (env : Env) (σ : State) (p : Session) (mc : MetaCommand) :
    (metaDelete cfg env σ mc []).reply = (metaDeleteTurn env σ p mc).reply ∧
      (metaDelete cfg env σ mc []).σ = run (State.apply cfg) σ (metaDeleteTurn env σ p mc).ops := by
  unfold metaDelete metaDeleteLookup metaDeleteTurn
  dsimp only
  cases hm : σ.present (env.hashKey mc.key) with
  | none => exact ⟨rfl, rfl⟩
  | some m =>
      dsimp only
      by_cases hne : mc.cas.any (m.etag ≠ ·) = true
      · rw [if_pos hne, if_pos hne]
        exact ⟨rfl, rfl⟩
      · rw [if_neg hne, if_neg hne]
        exact ⟨rfl, rfl⟩

variable {σ : State}

/-- `md` with a CAS that goes on to remove has seen that version. -/
theorem meta_delete_lookup_none {d : Digest} {mc : MetaCommand} {cas : Nat}
    (hcas : mc.cas = some cas) (h : metaDeleteLookup σ d mc = none) :
    (σ.index.lookup d).map ObjectMeta.etag = some cas := by
  unfold metaDeleteLookup at h
  cases hm : σ.present d with
  | none =>
      rw [hm] at h
      cases h
  | some m =>
      rw [hm, hcas] at h
      dsimp only at h
      split_ifs at h with hne
      have hetag : m.etag = cas := by
        rw [Option.any_some] at hne
        simpa using hne
      have hindex : σ.index.lookup d = some m := (Option.filter_eq_some_iff.1 hm).1
      rw [hindex, Option.map_some, hetag]

/-- `md` that ends at its lookup does not answer HD. -/
theorem meta_delete_lookup_reply {d : Digest} {mc : MetaCommand} {reply : List UInt8}
    (h : metaDeleteLookup σ d mc = some reply) : ¬ text "HD" <+: reply := by
  unfold metaDeleteLookup at h
  split at h
  · cases h
    split_ifs
    · decide
    · decide
  · split_ifs at h
    · cases h
      decide
    · cases h
      decide

/-- `md` with a CAS removes the version that it names and answers HD only if it has removed one, if
the steps of other loops between its lookup and its removal neither publish nor drop a version of
the key. -/
theorem meta_delete_names_version (cfg : Config) (env : Env) (before others : List Op)
    (mc : MetaCommand) (cas : Nat) (hcas : mc.cas = some cas)
    (hothers : Allowed (State.apply cfg) (Spares cfg (env.hashKey mc.key))
      (State.after cfg before) others) :
    (∀ m ∈ (metaDelete cfg env (State.after cfg before) mc others).removed, m.etag = cas) ∧
      (text "HD" <+: (metaDelete cfg env (State.after cfg before) mc others).reply →
        (metaDelete cfg env (State.after cfg before) mc others).removed ≠ none) := by
  have hrun := spared_run hothers
  unfold metaDelete
  cases hlookup : metaDeleteLookup (State.after cfg before) (env.hashKey mc.key) mc with
  | some reply =>
      refine ⟨nofun, fun hHD => ?_⟩
      exact absurd hHD (meta_delete_lookup_reply hlookup)
  | none =>
      rw [meta_delete_lookup_none hcas hlookup] at hrun
      obtain ⟨m, hm, hetag⟩ := Option.map_eq_some_iff.1 hrun
      dsimp only
      rw [hm]
      refine ⟨fun n hn => ?_, fun _ => Option.some_ne_none m⟩
      rw [← Option.mem_some_iff.1 hn]
      exact hetag

/-- Keys are hashed to one digest. -/
def oneKey : Env := ⟨⟨[], Faults.never⟩, fun _ => Digest.replicate 1⟩

/-- `md` of the first version. -/
def deleteFirst : MetaCommand := { MetaCommand.start .md (text "k") 0 with cas := some 1 }

theorem meta_delete_names_version_read :
    (metaDelete oneDriveConfig oneKey (State.after oneDriveConfig storeTwice) deleteFirst
        [.touch (Digest.replicate 1), .clock 5]).removed.map ObjectMeta.etag = some 1 ∧
      ∀ m ∈ (metaDelete oneDriveConfig oneKey (State.after oneDriveConfig storeTwice) deleteFirst
        [.touch (Digest.replicate 1), .clock 5]).removed, m.etag = 1 := by
  refine ⟨by decide +kernel, ?_⟩
  refine (meta_delete_names_version oneDriveConfig oneKey storeTwice
    [.touch (Digest.replicate 1), .clock 5] deleteFirst 1
    rfl ⟨⟨id, fun _ => ?_⟩, ⟨id, fun _ => ?_⟩, trivial⟩).1
  · decide +kernel
  · decide +kernel

/-- A store that is committed between the lookup and the removal is removed, although the command
names the version before; and HD is answered when another loop has removed the object in between. -/
theorem meta_delete_removes_other_version :
    (metaDelete oneDriveConfig oneKey (State.after oneDriveConfig storeTwice) deleteFirst
        [.commit 1 0 0 0 Faults.never]).removed.map ObjectMeta.etag = some 2 ∧
      (metaDelete oneDriveConfig oneKey (State.after oneDriveConfig storeTwice) deleteFirst
        [.remove (Digest.replicate 1) Faults.never]).removed = none ∧
      (metaDelete oneDriveConfig oneKey (State.after oneDriveConfig storeTwice) deleteFirst
        [.remove (Digest.replicate 1) Faults.never]).reply = text "HD\r\n" := by
  decide +kernel

/-! ## Set -/

/-- The reply to a commit with the steps of other loops between the commit and the lookup of the new
CAS. -/
def metaStored (cfg : Config) (σ : State) (p : Session) (id : Nat) (faults : Faults)
    (others : List Op) : List UInt8 :=
  let committed := σ.commit cfg id p.setFlags (p.expiry σ.now) p.setCas faults
  commitReply (run (State.apply cfg) committed.2 others) p committed.1

/-- Without steps of other loops it is the reply of `process`. -/
theorem meta_stored_turn (env : Env) (σ : State) (p : Session) (id : Nat)
    (hend : p.input.take 2 = crlf) (hreject : p.setReject = false) (hhandle : p.handle = some id)
    (hfailed : p.setFailed = false) :
    metaStored cfg σ p id env.faults [] = (finishStore cfg env σ p).2 := by
  unfold metaStored finishStore
  rw [if_neg (not_not.2 hend), hreject, if_neg Bool.false_ne_true, hhandle]
  dsimp only
  rw [hfailed, if_neg Bool.false_ne_true]
  rfl

/-- HD with the CAS of a version. -/
def casReply (p : Session) (etag : Nat) : List UInt8 :=
  text "HD" ++ (text " c" ++ decimal etag) ++
    (if p.metaRflags.k then text " k" ++ p.metaKey else []) ++
    (if p.metaOpaqueToken ≠ [] then text " O" ++ p.metaOpaqueToken else []) ++ crlf

theorem stored_reply_cas {p : Session} {etag : Nat} (hmeta : p.isMeta = true)
    (hquiet : p.metaQuiet = false) (hflag : p.metaRflags.c = true)
    (hetag : (σ.index.lookup p.setDigest).map ObjectMeta.etag = some etag) :
    storedReply σ p = casReply p etag := by
  unfold storedReply casReply
  rw [hmeta, hquiet, hflag, hetag]
  rfl

/-- A commit that leaves its version in the index leaves it under the etag that it has given out. -/
theorem commit_indexes_etag {id flags expiry cas : Nat} {faults : Faults} {h : StoreHandle}
    (hh : σ.handles.lookup id = some h) (hok : (σ.commit cfg id flags expiry cas faults).1 = .ok ())
    (hkept : (σ.commit cfg id flags expiry cas faults).2.index.lookup h.digest ≠ none) :
    ∃ v drops, (σ.commit cfg id flags expiry cas faults).2.history =
      drops ++ .put h.digest v :: σ.history ∧
      (∀ event ∈ drops, event.version = none) ∧ v.etag = (σ.etagSeq + 1) % wrap64 ∧
      ((σ.commit cfg id flags expiry cas faults).2.index.lookup h.digest).map ObjectMeta.etag =
      some v.etag := by
  rcases @State.commit_ledger cfg σ id flags expiry cas faults with
    ⟨hfail, -⟩ | ⟨h', -, hh', -, -, hfade⟩
  · exact absurd hok hfail
  cases hh.symm.trans hh'
  obtain ⟨drops, hhistory, hdrops⟩ := hfade.history
  refine ⟨_, drops, hhistory, hdrops, rfl, ?_⟩
  obtain ⟨m', hm'⟩ := Option.ne_none_iff_exists'.1 hkept
  obtain ⟨m, hm, heq⟩ := hfade.entry hm'
  have hnew : (σ.ledger.put h flags expiry).index.lookup h.digest = some _ :=
    Table.lookup_insert_self ..
  cases hnew.symm.trans hm
  rw [hm', Option.map_some, heq]

/-- `ms` with the flag `c` that is answered HD reports the etag of its own commit, if the commit has
not evicted its own object and the steps of other loops before the lookup neither publish nor drop a
version of the key. Then, with fewer than 2^64 commits, a commit that expects this etag replaces
this very version. -/
theorem meta_set_reports_own_cas (cfg : Config) (before others : List Op) (p : Session) (id : Nat)
    (h : StoreHandle) (faults : Faults) (hmeta : p.isMeta = true) (hquiet : p.metaQuiet = false)
    (hflag : p.metaRflags.c = true) (hh : (State.after cfg before).handles.lookup id = some h)
    (hdigest : h.digest = p.setDigest)
    (hok : ((State.after cfg before).commit cfg id p.setFlags
      (p.expiry (State.after cfg before).now) p.setCas faults).1 = .ok ())
    (hkept : ((State.after cfg before).commit cfg id p.setFlags
      (p.expiry (State.after cfg before).now) p.setCas faults).2.index.lookup p.setDigest ≠ none)
    (hothers : Allowed (State.apply cfg) (Spares cfg p.setDigest)
      ((State.after cfg before).commit cfg id p.setFlags (p.expiry (State.after cfg before).now)
        p.setCas faults).2 others) :
    ∃ v drops,
      ((State.after cfg before).commit cfg id p.setFlags (p.expiry (State.after cfg before).now)
        p.setCas faults).2.history =
          drops ++ .put p.setDigest v :: (State.after cfg before).history ∧
      (∀ event ∈ drops, event.version = none) ∧
      metaStored cfg (State.after cfg before) p id faults others = casReply p v.etag ∧
      ∀ later id' flags' expiry' faults' h',
        commits ((State.after cfg (before ++ .commit id p.setFlags
          (p.expiry (State.after cfg before).now) p.setCas faults :: later)).commit cfg id'
            flags' expiry' v.etag faults').2.history < wrap64 →
        ((State.after cfg (before ++ .commit id p.setFlags
          (p.expiry (State.after cfg before).now) p.setCas faults :: later)).commit cfg id'
            flags' expiry' v.etag faults').1 = .ok () →
        (State.after cfg (before ++ .commit id p.setFlags
          (p.expiry (State.after cfg before).now) p.setCas faults :: later)).handles.lookup id' =
            some h' →
        h'.digest = p.setDigest ∧
          liveVersion (State.after cfg (before ++ .commit id p.setFlags
            (p.expiry (State.after cfg before).now) p.setCas faults :: later)).history h'.digest =
              some v := by
  rw [← hdigest] at hkept hothers
  obtain ⟨v, drops, hhistory, hdrops, hetag, hindex⟩ := commit_indexes_etag hh hok hkept
  rw [hdigest] at hhistory hindex hothers
  refine ⟨v, drops, hhistory, hdrops, ?_, fun later id' flags' expiry' faults' h' hlt hok' hh' =>
    ?_⟩
  · unfold metaStored
    dsimp only
    rw [hok]
    exact stored_reply_cas hmeta hquiet hflag ((spared_run hothers).trans hindex)
  · -- in a later state the etag still belongs to the version of this commit
    generalize hσ : State.after cfg (before ++
      .commit id p.setFlags (p.expiry (State.after cfg before).now) p.setCas
      faults :: later) = σ at hlt hok' hh' ⊢
    have hrecorded : Recorded σ.index σ.history := hσ ▸ reachable_recorded cfg _
    have hbound : commits σ.history < wrap64 :=
      Nat.lt_of_le_of_lt (@commits_le_apply cfg σ (.commit id' flags' expiry' v.etag faults')) hlt
    have hunique : PutsUnique σ.history := by
      subst hσ
      exact reachable_puts_unique cfg _ hbound
    have hput : .put p.setDigest v ∈ σ.history := by
      rw [← hσ, State.after_append, run_cons]
      refine (history_suffix_run _ later).subset ?_
      show .put p.setDigest v ∈ ((State.after cfg before).commit cfg id p.setFlags _ p.setCas
          faults).2.history
      rw [hhistory]
      exact List.mem_append_right _ List.mem_cons_self
    have hne : v.etag ≠ 0 := by
      have hcount : commits (State.after cfg before).history + 1 ≤ commits σ.history := by
        rw [← hσ, State.after_append, run_cons]
        refine le_trans (le_of_eq ?_) (commits_le_run _ later)
        show _ = commits ((State.after cfg before).commit cfg id p.setFlags _ p.setCas
            faults).2.history
        rw [hhistory, commits_drops hdrops, commits]
      have hseq := (reachable_etags cfg before (by omega)).seq
      rw [hetag, hseq, Nat.mod_eq_of_lt (by omega)]
      exact Nat.succ_ne_zero _
    rcases @commit_outcome cfg σ id' flags' expiry' v.etag faults' with
      ⟨hfail, -⟩ | ⟨h'', w, σ₁, -, hh'', hmatch, -, -⟩
    · exact absurd hok' hfail
    cases hh'.symm.trans hh''
    obtain ⟨m, hm, -, hmetag⟩ := cas_match hne hmatch
    obtain ⟨w', hw', hstamp⟩ := hrecorded.live hm
    have hwetag : w'.etag = v.etag := (congrArg (fun s => s.2.2) hstamp).trans hmetag
    obtain ⟨hd, rfl⟩ := hunique _ _ _ _ (put_of_live hw') hput hwetag
    exact ⟨hd, hw'⟩

/-- The connection of `ms k 50 c` with its data block written. -/
def setWithCas : Session :=
  { Session.create with
    isMeta := true, metaRflags := ⟨false, false, false, true, false⟩,
    setDigest := Digest.replicate 1 }

/-- `storeTwice` with a third version written besides. -/
def storeThrice : List Op :=
  storeTwice ++ [.beginStore (Digest.replicate 1) 20 Faults.never,
    .write 2 ⟨20, fun _ => 9⟩ Faults.never]

theorem meta_set_reports_own_cas_read :
    metaStored oneDriveConfig (State.after oneDriveConfig storeThrice) setWithCas 1 Faults.never
        [.clock 5] = text "HD c2\r\n" ∧
      ∃ v drops,
        ((State.after oneDriveConfig storeThrice).commit oneDriveConfig 1 0 0 0
            Faults.never).2.history =
          drops ++ .put (Digest.replicate 1) v :: (State.after oneDriveConfig storeThrice).history ∧
        metaStored oneDriveConfig (State.after oneDriveConfig storeThrice) setWithCas 1 Faults.never
          [.clock 5] = casReply setWithCas v.etag := by
  obtain ⟨h, hh⟩ : ∃ h, (State.after oneDriveConfig storeThrice).handles.lookup 1 = some h :=
    Option.isSome_iff_exists.1 (by decide +kernel)
  have hdigest : h.digest = Digest.replicate 1 := by
    have heq : ((State.after oneDriveConfig storeThrice).handles.lookup 1).map StoreHandle.digest =
      some (Digest.replicate 1) := by decide +kernel
    rw [hh] at heq
    exact Option.some.inj heq
  obtain ⟨v, drops, hhistory, -, hreply, -⟩ :=
    meta_set_reports_own_cas oneDriveConfig storeThrice [.clock 5] setWithCas 1
    h Faults.never rfl rfl rfl hh hdigest (by decide +kernel) (by decide +kernel)
    ⟨⟨id, fun hsome => hsome⟩, trivial⟩
  exact ⟨by decide +kernel, v, drops, hhistory, hreply⟩

/-- The CAS of a version that another loop commits before the lookup is reported, and 0 when the
object is gone. -/
theorem meta_set_reports_other_cas :
    metaStored oneDriveConfig (State.after oneDriveConfig storeThrice) setWithCas 1 Faults.never
        [.commit 2 0 0 0 Faults.never] = text "HD c3\r\n" ∧
      ((State.after oneDriveConfig storeThrice).commit oneDriveConfig 1 0 0 0
        Faults.never).2.etagSeq = 2 ∧
      metaStored oneDriveConfig (State.after oneDriveConfig storeThrice) setWithCas 1 Faults.never
        [.remove (Digest.replicate 1) Faults.never] = text "HD c0\r\n" := by
  decide +kernel

end GoblinStore.Memcache
