import GoblinStore.Storage.LossyMap

/-!
# Which live files exist

A live file is an entry of a drive's directory without a scratch suffix. `LiveFilesExact` says that
the live files are those of the indexed objects, on the drives that the layout of the current size
uses. Stores, evictions and drops keep it. A commit renames files over the live names of the new
version and unlinks nothing, so it keeps it only if the new version uses all drives of the one it
replaces.
-/

namespace GoblinStore

open GoblinStore.Lib GoblinStore.Core Pool

/-- The drives of a tier on which an object with this layout has a file. -/
def Config.tierDrives (cfg : Config) (tier : Tier) (d : Digest)
    (layout : ObjectLayout) : List Nat :=
  match cfg.pool tier with
  | some pool => pool.stripeDrives d.bucket (layout.tierBytes tier)
  | none => []

/-- The live files are exactly those of the indexed objects. -/
def LiveFilesExact (cfg : Config) (σ : State) : Prop :=
  ∀ tier d drive, σ.fs.dir (livePath tier d drive) ≠ none ↔
    ∃ m, σ.index.lookup d = some m ∧ drive ∈ cfg.tierDrives tier d (cfg.layout m.size)

/-- No file-system call of the step fails. Besides the faults of the environment, a rename fails
when its source is missing, and `commit` reports that. -/
def CallsSucceed (cfg : Config) (σ : State) (op : Op) : Prop :=
  op.Succeeds ∧
    match op with
    | .commit id flags expiry cas faults =>
        (σ.commit cfg id flags expiry cas faults).1 ≠ .error .ioError
    | _ => True

/-- A commit that replaces a version has files on all the drives of that version. -/
def CoversReplaced (cfg : Config) (σ : State) : Op → Prop
  | .commit id flags expiry cas faults =>
      (σ.commit cfg id flags expiry cas faults).1 = .ok () →
      ∀ h m, σ.handles.lookup id = some h → σ.index.lookup h.digest = some m →
        ∀ tier, cfg.tierDrives tier h.digest (cfg.layout m.size) ⊆ cfg.tierDrives tier h.digest
        h.layout
  | _ => True

variable {cfg : Config} {σ : State} {fs fs' : FileSystem} {faults : Faults} {d e : Digest}
  {layout : ObjectLayout} {tier : Tier} {drive : Nat}

/-! ## Directory entries -/

theorem Config.tier_drives_ram_only {size : Nat} (h : size ≤ cfg.tiers.ramHead) (tier : Tier)
    (d : Digest) :
    cfg.tierDrives tier d (cfg.layout size) = [] := by
  have hbytes : (cfg.layout size).tierBytes tier = 0 := by
    rw [Config.layout, compute_layout_ram_only h]
    cases tier <;> rfl
  unfold Config.tierDrives
  split
  · rw [hbytes]
    rfl
  · rfl

/-- Unlinks that succeed remove the entry of each drive. -/
theorem Pool.unlink_loop_dir {name name' : FileName} {drives : List Nat} {tier' : Tier}
    (hfaults : ∀ drive, faults.unlinkat tier drive = false) :
    (unlinkLoop faults tier name drives fs).dir ⟨tier', drive, name'⟩ =
      if tier' = tier ∧ name' = name ∧ drive ∈ drives then none
      else fs.dir ⟨tier', drive, name'⟩ := by
  induction drives generalizing fs with
  | nil => simp [unlinkLoop]
  | cons first rest ih =>
      rw [unlinkLoop, hfaults, if_neg Bool.false_ne_true, ih, FileSystem.unlink_dir,
        Function.update_apply]
      by_cases hfirst : tier' = tier ∧ drive = first ∧ name' = name
      · obtain ⟨rfl, rfl, rfl⟩ := hfirst
        simp
      · have hpath : (⟨tier', drive, name'⟩ : Path) ≠ ⟨tier, first, name⟩ := by
          simpa only [ne_eq, Path.mk.injEq] using hfirst
        rw [if_neg hpath]
        refine if_congr ?_ rfl rfl
        rw [List.mem_cons]
        tauto

/-- Unlinks that succeed remove the files of both tiers and nothing else. -/
theorem State.unlink_files_dir {name : FileName} {suffix : Option Nat}
    (hfaults : ∀ tier drive, faults.unlinkat tier drive = false) :
    (unlinkFiles cfg fs faults d layout suffix).dir ⟨tier, drive, name⟩ =
      if name = ⟨d, suffix⟩ ∧ drive ∈ cfg.tierDrives tier d layout then none
      else fs.dir ⟨tier, drive, name⟩ := by
  unfold unlinkFiles unlinkObject
  cases hhdd : cfg.hdd with
  | none =>
      dsimp only
      rw [unlink_loop_dir (hfaults .ssd)]
      refine if_congr ?_ rfl rfl
      cases tier with
      | ssd => simp [Config.tierDrives, Config.pool, ObjectLayout.tierBytes]
      | hdd => simp [Config.tierDrives, Config.pool, hhdd]
  | some pool =>
      dsimp only
      rw [unlink_loop_dir (hfaults .hdd), unlink_loop_dir (hfaults .ssd)]
      cases tier with
      | ssd =>
          rw [if_neg (by simp)]
          refine if_congr ?_ rfl rfl
          simp [Config.tierDrives, Config.pool, ObjectLayout.tierBytes]
      | hdd =>
          rw [if_neg (show ¬ (Tier.hdd = Tier.ssd ∧ _) by simp)]
          refine if_congr ?_ rfl rfl
          simp [Config.tierDrives, Config.pool, hhdd, ObjectLayout.tierBytes]

theorem State.unlink_files_live (d e : Digest) (layout : ObjectLayout) :
    (unlinkFiles cfg fs Faults.never d layout none).dir (livePath tier e drive) =
      if e = d ∧ drive ∈ cfg.tierDrives tier d layout then none else fs.dir
      (livePath tier e drive) := by
  refine (unlink_files_dir fun _ _ => rfl).trans (if_congr ?_ rfl rfl)
  rw [FileName.mk.injEq, and_iff_left rfl]

/-- A publish that succeeds leaves a file on each drive of the new version and touches no other live
name. -/
theorem State.publish_files_live {id : Nat}
    (h : publishFiles cfg fs faults d layout id = (true, fs')) :
    fs'.dir (livePath tier e drive) ≠ none ↔
      e = d ∧ drive ∈ cfg.tierDrives tier d layout ∨ fs.dir (livePath tier e drive) ≠ none := by
  obtain ⟨-, hmoved⟩ := publish_files_ok h
  have hother : ¬ (e = d ∧ drive ∈ cfg.tierDrives tier d layout) →
      fs'.dir (livePath tier e drive) = fs.dir (livePath tier e drive) := by
    intro hnot
    have hnotpool : ∀ tier' pool, cfg.pool tier' = some pool →
        ∀ drive' ∈ pool.stripeDrives d.bucket (layout.tierBytes tier'),
          livePath tier e drive ≠ livePath tier' d drive' := by
      intro tier' pool hpool drive' hdrive' heq
      simp only [livePath, Path.mk.injEq, FileName.mk.injEq, and_true] at heq
      obtain ⟨rfl, rfl, rfl⟩ := heq
      refine hnot ⟨rfl, ?_⟩
      rw [Config.tierDrives, hpool]
      exact hdrive'
    have hscratch : ∀ tier' drive', livePath tier e drive ≠ scratchPath tier' d id drive' := by
      simp [livePath, scratchPath]
    unfold publishFiles publish at h
    have hssd := @publish_loop_other fs faults .ssd (cfg.ssd.stripeDrives d.bucket layout.ssdBytes)
      (livePath tier e drive) d id (hnotpool .ssd cfg.ssd rfl) fun drive' _ => hscratch .ssd drive'
    split at h
    · cases h
    · rename_i fs₁ heq
      rw [heq] at hssd
      split at h
      · cases h
        exact hssd
      · rename_i pool hpool
        have hhdd := @publish_loop_other fs₁ faults .hdd
          (pool.stripeDrives d.bucket layout.hddBytes)
          (livePath tier e drive) d id (hnotpool .hdd pool hpool) fun drive' _ =>
          hscratch .hdd drive'
        rw [h] at hhdd
        exact hhdd.trans hssd
  by_cases hnew : e = d ∧ drive ∈ cfg.tierDrives tier d layout
  · obtain ⟨rfl, hdrive⟩ := hnew
    simp only [hdrive, and_self, true_or, iff_true]
    unfold Config.tierDrives at hdrive
    split at hdrive
    · rename_i pool hpool
      obtain ⟨hsource, heq⟩ := hmoved tier pool hpool drive hdrive
      exact heq ▸ hsource
    · cases hdrive
  · rw [hother hnew]
    simp [hnew]

/-! ## The invariant -/

/-- The live files are exact, and open stores have the layout of their size. -/
structure FilesExact (cfg : Config) (σ : State) : Prop where
  live : LiveFilesExact cfg σ
  laid_out : ∀ id h, σ.handles.lookup id = some h → h.layout = cfg.layout h.layout.size

namespace FilesExact

/-- Steps that keep the index and all live names. -/
theorem of_live (h : FilesExact cfg σ) {σ' : State} (hindex : σ'.index = σ.index)
    (hdir : ∀ tier d drive, σ'.fs.dir (livePath tier d drive) = σ.fs.dir (livePath tier d drive))
    (hhandles : ∀ id h', σ'.handles.lookup id = some h' → h'.layout = cfg.layout h'.layout.size) :
    FilesExact cfg σ' where
  live tier d drive := by
    rw [hdir, hindex]
    exact h.live tier d drive
  laid_out := hhandles

/-- Rewriting an entry without changing its size. -/
theorem rewrite (h : FilesExact cfg σ) {σ' : State} {m : ObjectMeta} (m' : ObjectMeta)
    (hm : σ.index.lookup d = some m) (hsize : m'.size = m.size)
    (hindex : σ'.index = σ.index.insert d m') (hfs : σ'.fs = σ.fs)
    (hhandles : σ'.handles = σ.handles) : FilesExact cfg σ' where
  live tier e drive := by
    rw [hfs, h.live, hindex, Table.lookup_insert]
    split_ifs with he
    · simp [he, hm, hsize]
    · rfl
  laid_out := hhandles ▸ h.laid_out

/-- Forgetting an entry together with its files. -/
theorem forget (h : FilesExact cfg σ) {σ' : State} {m : ObjectMeta} (hm : σ.index.lookup d = some m)
    (hindex : σ'.index = σ.index.erase d) (hhandles : σ'.handles = σ.handles)
    (hdir : ∀ tier e drive, σ'.fs.dir (livePath tier e drive) =
      if e = d ∧ drive ∈ cfg.tierDrives tier d (cfg.layout m.size) then none
      else σ.fs.dir (livePath tier e drive)) : FilesExact cfg σ' where
  live tier e drive := by
    rw [hdir, hindex, Table.lookup_erase]
    by_cases he : e = d
    · subst he
      -- what the unlinks did not reach was not there
      have hlive := h.live tier e drive
      simp only [hm, Option.some.injEq, exists_eq_left'] at hlive
      simp only [true_and, if_true, reduceCtorEq, false_and, exists_false, iff_false, not_not]
      split_ifs with hdrive
      · rfl
      · exact not_not.1 (mt hlive.1 hdrive)
    · simp only [he, false_and, if_false]
      exact h.live tier e drive
  laid_out := hhandles ▸ h.laid_out

/-- Entries under scratch names do not matter. -/
theorem unlink_scratch (layout : ObjectLayout) (d : Digest) (id : Nat) (tier : Tier) (e : Digest)
    (drive : Nat) :
    (State.unlinkFiles cfg fs faults d layout (some id)).dir (livePath tier e drive) =
      fs.dir (livePath tier e drive) :=
  (@State.unlink_files_spec cfg fs faults d layout (some id)).2.2 _ (by simp [livePath])

theorem open_live {size id : Nat} {ans : Option (ObjectFiles × Option ObjectFiles)}
    (hopen : State.openFiles cfg fs faults d (cfg.layout size) true (some id) = (ans, fs'))
    (tier : Tier) (e : Digest) (drive : Nat) :
    fs'.dir (livePath tier e drive) = fs.dir (livePath tier e drive) := by
  have hgrows := @State.open_files_grows cfg fs faults d (cfg.layout size) true (some id)
  rw [hopen] at hgrows
  exact hgrows.dir_other (by simp [livePath])

/-- Installing a version whose files are on all the drives of the version it replaces. -/
theorem install (h : FilesExact cfg σ) {id : Nat} {h₀ : StoreHandle} {σ' : State}
    (hh : σ.handles.lookup id = some h₀) {m : ObjectMeta} (hsize : m.size = h₀.layout.size)
    (hpublish : State.publishFiles cfg σ.fs faults h₀.digest h₀.layout id = (true, σ'.fs))
    (hcovers : ∀ old, σ.index.lookup h₀.digest = some old → ∀ tier,
      cfg.tierDrives tier h₀.digest (cfg.layout old.size) ⊆ cfg.tierDrives tier h₀.digest h₀.layout)
    (hindex : σ'.index = σ.index.insert h₀.digest m) (hhandles : σ'.handles = σ.handles.erase id) :
    FilesExact cfg σ' where
  live tier e drive := by
    rw [State.publish_files_live hpublish, hindex, Table.lookup_insert]
    have hlayout : cfg.layout m.size = h₀.layout := by
      rw [hsize]
      exact (h.laid_out id h₀ hh).symm
    by_cases he : e = h₀.digest
    · subst he
      simp only [true_and, if_true, Option.some.injEq, exists_eq_left', hlayout,
        or_iff_left_iff_imp]
      intro hlive
      obtain ⟨old, hold, hdrive⟩ := (h.live tier h₀.digest drive).1 hlive
      exact hcovers old hold tier hdrive
    · simp only [he, false_and, false_or, if_false]
      exact h.live tier e drive
  laid_out i h' hh' := by
    rw [hhandles] at hh'
    exact h.laid_out i h' (Table.lookup_erase_some hh').2

theorem changed_layout {op : Op} {σ' : State} (h : FilesExact cfg σ) (hc : Change cfg σ op σ')
    (i : Nat) (h' : StoreHandle) (hh' : σ'.handles.lookup i = some h') :
    h'.layout = cfg.layout h'.layout.size := by
  rcases hc.handle_old hh' with ⟨h₀, hh₀, hkept⟩ | ⟨-, -, d, size, faults, -, -, hlayout, -⟩
  · rw [hkept.layout]
    exact h.laid_out i h₀ hh₀
  · rw [hlayout, show (cfg.layout size).size = size from compute_layout_size]

/-- Every change but the renames of a commit. -/
theorem change {op : Op} {σ' : State} (h : FilesExact cfg σ) (hfaults : op.faults = Faults.never)
    (hop : ∀ id flags expiry cas faults, op ≠ .commit id flags expiry cas faults)
    (hc : Change cfg σ op σ') :
    FilesExact cfg σ' := by
  have hlaid := h.changed_layout hc
  cases hc with
  | quiet hquiet =>
      have hsame := State.quiet_same cfg σ hquiet
      exact h.of_live hsame.index (fun _ _ _ => by rw [hsame.fs]) hlaid
  | settle => exact h.of_live rfl (fun _ _ _ => rfl) hlaid
  | @unhead _ _ _ _ _ m _ _ hm =>
      rw [State.free_head_region_eq]
      exact h.rewrite { m with head := none } hm rfl rfl rfl rfl
  | forget hm =>
      rw [State.free_head_eq, hfaults]
      exact h.forget hm rfl rfl fun tier e drive => State.unlink_files_live _ e _
  | @retime _ m expiry hm => exact h.rewrite { m with expiry := expiry } hm rfl rfl rfl rfl
  | opened hopen => exact h.of_live rfl (open_live hopen) hlaid
  | refused hopen =>
      exact h.of_live rfl (fun tier e drive => (unlink_scratch _ _ _ _ _ _).trans
        (open_live hopen tier e drive)) hlaid
  | started hopen => exact h.of_live rfl (open_live hopen) hlaid
  | put _ hput =>
      obtain ⟨w, -, hdir, -, heq⟩ := hput.same
      refine h.of_live (by rw [heq]; rfl) (fun _ _ _ => ?_) hlaid
      rw [heq]
      exact congrFun hdir _
  | unpublished => exact absurd rfl (hop _ _ _ _ _)
  | installed => exact absurd rfl (hop _ _ _ _ _)
  | closed =>
      rw [State.give_back_eq] at hlaid ⊢
      exact h.of_live rfl (unlink_scratch _ _ _) hlaid

theorem changes {op : Op} {σ' : State} (h : FilesExact cfg σ) (hc : Changes cfg op σ σ')
    (hfaults : op.faults = Faults.never)
    (hop : ∀ id flags expiry cas faults, op ≠ .commit id flags expiry cas faults) :
    FilesExact cfg σ' := by
  induction hc with
  | refl => exact h
  | tail _ hlast ih => exact ih.change hfaults hop hlast

theorem commit (h : FilesExact cfg σ) (id flags expiry cas : Nat)
    (hcalls : (State.commit cfg σ id flags expiry cas Faults.never).1 ≠ .error .ioError)
    (hcovers : CoversReplaced cfg σ (.commit id flags expiry cas Faults.never)) :
    FilesExact cfg (State.commit cfg σ id flags expiry cas Faults.never).2 := by
  rcases State.commit_cases cfg σ id flags expiry cas Faults.never with ⟨e, heq, -⟩ |
      ⟨h₀, ok, w, hh, hoff, hflush, hends⟩
  · rwa [heq]
  rcases hends with ⟨-, heq⟩ | ⟨hok, hends⟩
  · exact absurd (congrArg Prod.fst heq) hcalls
  subst hok
  have hkeeps := State.flush_tail_keeps hflush
  have hflushed : Change cfg σ (.commit id flags expiry cas Faults.never) (σ.putStaging id w) :=
    .put hh (.flushed hoff hflush)
  have hput : FilesExact cfg (σ.putStaging id w) :=
    h.of_live rfl (fun _ _ _ => congrFun hkeeps.dir _) (h.changed_layout hflushed)
  rcases hends with ⟨-, heq⟩ | ⟨-, published, fs, hpublish, ⟨-, heq⟩ | ⟨hok, heq⟩⟩
  · rwa [heq]
  · exact absurd (congrArg Prod.fst heq) hcalls
  · have hold := hcovers (congrArg Prod.fst heq) h₀
    rw [heq]
    refine changes ?_ (@State.enforce_object_bound_changes cfg
      (.abort 0 Faults.never) _) rfl (by simp)
    subst hok
    rw [← hkeeps.same.digest, ← hkeeps.same.layout] at hpublish
    rw [State.retire_head_eq]
    refine @FilesExact.install cfg (σ.putStaging id w) Faults.never hput id w.handle _
      (Table.lookup_insert_self ..) ⟨w.handle.layout.size, flags, expiry, (σ.etagSeq + 1) % wrap64,
        w.handle.head⟩ rfl hpublish (fun old holdm tier => ?_) rfl rfl
    rw [hkeeps.same.digest, hkeeps.same.layout]
    rw [hkeeps.same.digest] at holdm
    exact hold old hh holdm tier

theorem apply (h : FilesExact cfg σ) {op : Op} (hcalls : CallsSucceed cfg σ op)
    (hcovers : CoversReplaced cfg σ op) : FilesExact cfg (σ.apply cfg op) := by
  obtain ⟨hsucceeds, hreply⟩ := hcalls
  cases op with
  | commit id flags expiry cas faults =>
      cases hsucceeds
      exact h.commit id flags expiry cas hreply hcovers
  | _ => exact h.changes (State.apply_changes cfg σ _) (Op.Succeeds.never hsucceeds) (by simp)

end FilesExact

theorem files_exact_init (cfg : Config) : FilesExact cfg (State.init cfg) where
  live tier d drive := by simp [State.init, FileSystem.empty]
  laid_out id h hh := by simp [State.init] at hh

/-- In every run whose calls succeed and whose commits cover the versions they replace, the live
files are those of the indexed objects. -/
theorem live_files_exact (cfg : Config) (ops : List Op)
    (h : Allowed (State.apply cfg) (fun σ op => CallsSucceed cfg σ op ∧ CoversReplaced cfg σ op)
      (State.init cfg) ops) : LiveFilesExact cfg (State.after cfg ops) :=
  (invariant_run (I := FilesExact cfg) (fun _ _ hok hinv => hinv.apply hok.1 hok.2)
    (files_exact_init cfg) h).live

/-- Store an object of 10000 bytes and then one of 20000 bytes in its place. -/
def storeThenGrow : List Op :=
  storeTenThousand ++ [.beginStore (Digest.replicate 1) 20000 Faults.never,
    .write 1 ⟨20000, fun _ => 9⟩ Faults.never, .commit 1 0 0 0 Faults.never]

theorem live_files_exact_grown :
    (State.after oneDriveConfig storeThenGrow).fs.dir (livePath .ssd (Digest.replicate 1) 0) ≠
        none ∧
      LiveFilesExact oneDriveConfig (State.after oneDriveConfig storeThenGrow) := by
  refine ⟨by decide +kernel, live_files_exact oneDriveConfig storeThenGrow ?_⟩
  have hfirst : (State.after oneDriveConfig (storeTenThousand.take 2)).index.keys = [] := by
    decide +kernel
  have hindex : ((State.after oneDriveConfig (storeThenGrow.take 5)).index.lookup
      (Digest.replicate 1)).map (·.size) = some 10000 := by decide +kernel
  have hhandle : ((State.after oneDriveConfig (storeThenGrow.take 5)).handles.lookup 1).map
      (fun h => (h.digest, h.layout)) = some (Digest.replicate 1, oneDriveConfig.layout 20000) := by
    decide +kernel
  refine ⟨⟨⟨rfl, trivial⟩, trivial⟩, ⟨⟨rfl, trivial⟩, trivial⟩, ⟨⟨rfl, by decide +kernel⟩, ?_⟩,
    ⟨⟨rfl, trivial⟩, trivial⟩, ⟨⟨rfl, trivial⟩, trivial⟩, ⟨⟨rfl, by decide +kernel⟩, ?_⟩, trivial⟩
  · intro _ h m _ hm
    have hmem := AList.mem_keys.1 (Table.mem_iff_lookup.2 ⟨m, hm⟩)
    exact absurd (hfirst ▸ hmem) List.not_mem_nil
  · intro _ h m hh hm tier
    have hh' : (State.after oneDriveConfig (storeThenGrow.take 5)).handles.lookup 1 = some h := hh
    rw [hh', Option.map_some, Option.some.injEq, Prod.mk.injEq] at hhandle
    obtain ⟨hdigest, hlayout⟩ := hhandle
    rw [hdigest] at hm ⊢
    have hm' : (State.after oneDriveConfig (storeThenGrow.take 5)).index.lookup
        (Digest.replicate 1) =
      some m := hm
    rw [hm', Option.map_some, Option.some.injEq] at hindex
    rw [hindex, hlayout]
    cases tier <;> decide +kernel

/-- Store an object of 10000 bytes and then one of 100 bytes in its place. -/
def storeThenShrink : List Op :=
  storeTenThousand ++ [.beginStore (Digest.replicate 1) 100 Faults.never,
    .write 1 ⟨100, fun _ => 9⟩ Faults.never, .commit 1 0 0 0 Faults.never]

/-- The file of the replaced version stays. -/
theorem shrunk_object_leaves_file :
    Allowed (State.apply oneDriveConfig) (CallsSucceed oneDriveConfig) (State.init oneDriveConfig)
        storeThenShrink ∧
      (State.after oneDriveConfig storeThenShrink).handles.keys = [] ∧
      ¬ LiveFilesExact oneDriveConfig (State.after oneDriveConfig storeThenShrink) := by
  refine ⟨⟨⟨rfl, trivial⟩, ⟨rfl, trivial⟩, ⟨rfl, by decide +kernel⟩, ⟨rfl, trivial⟩, ⟨rfl, trivial⟩,
    ⟨rfl, by decide +kernel⟩, trivial⟩, by decide +kernel, fun hexact => ?_⟩
  have hfile : (State.after oneDriveConfig storeThenShrink).fs.dir
      (livePath .ssd (Digest.replicate 1) 0) ≠ none := by decide +kernel
  obtain ⟨m, hm, hdrive⟩ := (hexact .ssd (Digest.replicate 1) 0).1 hfile
  have hsize : ((State.after oneDriveConfig storeThenShrink).index.lookup
      (Digest.replicate 1)).map (·.size) = some 100 := by decide +kernel
  rw [hm, Option.map_some, Option.some.injEq] at hsize
  rw [Config.tier_drives_ram_only (by rw [hsize]; decide)] at hdrive
  exact absurd hdrive List.not_mem_nil

end GoblinStore
