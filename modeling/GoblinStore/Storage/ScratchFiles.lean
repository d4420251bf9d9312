import GoblinStore.Storage.HeadCache

/-!
# The files of open stores

An open store writes to files under its own scratch names, and a name with number `id` belongs to
handle `id` alone (`Scratch`). A commit moves the files to the live names, and from then on nothing
writes to them: a file without a scratch name is sealed, and every step keeps sealed files as they
are (`Keeps`). Neither depends on which calls fail.
-/

namespace GoblinStore

open GoblinStore.Lib GoblinStore.Core Pool

/-- The pool of a tier. -/
def Config.pool (cfg : Config) : Tier → Option DrivePool
  | .ssd => some cfg.ssd
  | .hdd => cfg.hdd

/-- The number of bytes of an object on a tier. -/
def ObjectLayout.tierBytes (layout : ObjectLayout) : Tier → Nat
  | .ssd => layout.ssdBytes
  | .hdd => layout.hddBytes

/-- The descriptors of a tier. -/
def tierFiles (ssd : ObjectFiles) (hdd : Option ObjectFiles) : Tier → ObjectFiles
  | .ssd => ssd
  | .hdd => hdd.getD ObjectFiles.none

/-- The scratch descriptors of a handle. -/
def StoreHandle.files (h : StoreHandle) : Tier → ObjectFiles := tierFiles h.ssd h.hdd

variable {cfg : Config} {fs fs' : FileSystem} {faults : Faults} {d : Digest} {layout : ObjectLayout}
  {create : Bool} {suffix : Option Nat} {id : Nat}

/-! ## Both tiers -/

namespace State

/-- Opening only adds files of the given name. -/
theorem open_files_grows :
      Grows fs (openFiles cfg fs faults d layout create suffix).2 ⟨d, suffix⟩ := by
  have hssd : Grows fs (openObject fs faults .ssd cfg.ssd d layout.ssdBytes create suffix).2
      ⟨d, suffix⟩ := open_loop_grows
  unfold openFiles
  split
  · rename_i heq
    rwa [heq] at hssd
  · rename_i ssd fs₁ heq
    rw [heq] at hssd
    split
    · exact hssd
    · rename_i pool _
      have hhdd : Grows fs₁ (openObject fs₁ faults .hdd pool d layout.hddBytes create suffix).2
          ⟨d, suffix⟩ := open_loop_grows
      split_ifs
      · exact hssd
      · split <;> rename_i heq' <;> rw [heq'] at hhdd <;> exact hssd.trans hhdd

theorem open_files_confined {ans : Option (ObjectFiles × Option ObjectFiles)}
    (h : openFiles cfg fs faults d layout create (some id) = (ans, fs')) :
    Confined d id fs fs' := by
  have hc := (@open_files_grows cfg fs faults d layout create (some id)).confined
  rwa [h] at hc

/-- Opening without `O_CREAT` changes nothing. -/
theorem open_files_read : (openFiles cfg fs faults d layout false suffix).2 = fs := by
  have hread : ∀ fs tier (pool : DrivePool) bytes,
      (openObject fs faults tier pool d bytes false suffix).2 = fs := fun _ _ _ _ => open_loop_read
  have hssd := hread fs .ssd cfg.ssd layout.ssdBytes
  unfold openFiles
  split
  · rename_i heq
    rwa [heq] at hssd
  · rename_i ssd fs₁ heq
    rw [heq] at hssd
    split
    · exact hssd
    · rename_i pool _
      have hhdd := hread fs₁ .hdd pool layout.hddBytes
      split_ifs
      · exact hssd
      · split
        · rename_i heq'
          rw [heq'] at hhdd
          exact hhdd.trans hssd
        · rename_i heq'
          rw [heq'] at hhdd
          exact hhdd.trans hssd

/-- The descriptors of a successful open, by tier. -/
structure FilesOpened (cfg : Config) (fs : FileSystem) (d : Digest) (layout : ObjectLayout)
    (suffix : Option Nat) (files : Tier → ObjectFiles) : Prop where
  entry : ∀ tier drive ino, files tier drive = some ino → fs.dir ⟨tier, drive, d, suffix⟩ = some ino
  ne_none_iff : ∀ tier pool, cfg.pool tier = some pool → ∀ drive,
    files tier drive ≠ none ↔ drive ∈ pool.stripeDrives d.bucket (layout.tierBytes tier)

theorem open_files_opened {ssd : ObjectFiles} {hdd : Option ObjectFiles}
    (h : openFiles cfg fs faults d layout create suffix = (some (ssd, hdd), fs')) :
    FilesOpened cfg fs' d layout suffix (tierFiles ssd hdd) := by
  unfold openFiles at h
  split at h
  · cases h
  · rename_i ssd₁ fs₁ heq
    have hssd := open_object_opened heq
    split at h
    · rename_i hnone
      cases h
      refine ⟨fun tier drive ino hino => ?_, fun tier pool hpool => ?_⟩
      · cases tier with
        | ssd => exact hssd.entry hino
        | hdd => cases hino
      · cases tier with
        | ssd =>
            cases hpool
            exact hssd.ne_none_iff
        | hdd =>
            rw [Config.pool, hnone] at hpool
            cases hpool
    · rename_i pool₁ hpool₁
      split_ifs at h with hzero
      · cases h
        refine ⟨fun tier drive ino hino => ?_, fun tier pool hpool drive => ?_⟩
        · cases tier with
          | ssd => exact hssd.entry hino
          | hdd => cases hino
        · cases tier with
          | ssd =>
              cases hpool
              exact hssd.ne_none_iff drive
          | hdd =>
              simp [tierFiles, ObjectFiles.none, ObjectLayout.tierBytes, hzero,
                DrivePool.mem_stripe_drives, DrivePool.filesUsed]
      · split at h
        · cases h
        · rename_i hdd₁ fs₂ heq'
          cases h
          have hhdd := open_object_opened heq'
          have hgrows : Grows fs₁ fs' ⟨d, suffix⟩ := by
            have := @open_loop_grows fs₁ faults .hdd ⟨d, suffix⟩ create
              (pool₁.stripeDrives d.bucket layout.hddBytes) ObjectFiles.none
            rw [openObject] at heq'
            rwa [heq'] at this
          refine ⟨fun tier drive ino hino => ?_, fun tier pool hpool => ?_⟩
          · cases tier with
            | ssd => exact hgrows.dir_some (hssd.entry hino)
            | hdd => exact hhdd.entry hino
          · cases tier with
            | ssd =>
                cases hpool
                exact hssd.ne_none_iff
            | hdd =>
                rw [Config.pool, hpool₁] at hpool
                cases hpool
                exact hhdd.ne_none_iff

/-- HDD files are opened only for an object with a tail. -/
theorem open_files_hdd {ssd : ObjectFiles} {hdd : Option ObjectFiles}
    (h : openFiles cfg fs faults d layout create suffix = (some (ssd, hdd), fs'))
    (hhdd : hdd ≠ none) : 0 < layout.hddBytes := by
  unfold openFiles at h
  split at h
  · cases h
  · split at h
    · cases h
      exact absurd rfl hhdd
    · split_ifs at h with hzero
      · cases h
        exact absurd rfl hhdd
      · omega

/-- Unlinking removes entries of the given name and nothing else. -/
theorem unlink_files_spec :
    (unlinkFiles cfg fs faults d layout suffix).file = fs.file ∧
      (unlinkFiles cfg fs faults d layout suffix).next = fs.next ∧
      ∀ path, path.name ≠ ⟨d, suffix⟩ →
        (unlinkFiles cfg fs faults d layout suffix).dir path = fs.dir path := by
  have hone : ∀ fs tier drives, (unlinkLoop faults tier ⟨d, suffix⟩ drives fs).file = fs.file ∧
      (unlinkLoop faults tier ⟨d, suffix⟩ drives fs).next = fs.next ∧
      ∀ path, path.name ≠ ⟨d, suffix⟩ →
        (unlinkLoop faults tier ⟨d, suffix⟩ drives fs).dir path = fs.dir path := by
    intro fs tier drives
    obtain ⟨hfile, hnext, hdir⟩ := @unlink_loop_spec fs faults tier ⟨d, suffix⟩ drives
    refine ⟨hfile, hnext, fun path hpath => ?_⟩
    rcases hdir path with hsame | ⟨-, hname, -⟩
    · exact hsame
    · exact absurd hname hpath
  unfold unlinkFiles unlinkObject
  obtain ⟨h1, h2, h3⟩ := hone fs .ssd (cfg.ssd.stripeDrives d.bucket layout.ssdBytes)
  split
  · exact ⟨h1, h2, h3⟩
  · rename_i pool _
    obtain ⟨h1', h2', h3'⟩ := hone
      (unlinkLoop faults .ssd ⟨d, suffix⟩ (cfg.ssd.stripeDrives d.bucket layout.ssdBytes) fs)
      .hdd (pool.stripeDrives d.bucket layout.hddBytes)
    exact ⟨h1'.trans h1, h2'.trans h2, fun path hpath => (h3' path hpath).trans (h3 path hpath)⟩

theorem unlink_files_confined (hsuffix : suffix = none ∨ suffix = some id) :
    Confined d id fs (unlinkFiles cfg fs faults d layout suffix) := by
  have hname : (⟨d, suffix⟩ : FileName) = ⟨d, none⟩ ∨ (⟨d, suffix⟩ : FileName) = ⟨d, some id⟩ := by
    rcases hsuffix with rfl | rfl
    · exact Or.inl rfl
    · exact Or.inr rfl
  unfold unlinkFiles
  split
  · exact unlink_loop_confined hname
  · exact (unlink_loop_confined hname).trans (unlink_loop_confined hname)

theorem publish_files_confined : Confined d id fs (publishFiles cfg fs faults d layout id).2 := by
  have hssd : Confined d id fs (publish fs faults .ssd cfg.ssd d layout.ssdBytes id).2 :=
    publish_loop_confined
  unfold publishFiles
  split
  · rename_i heq
    rwa [heq] at hssd
  · rename_i fs₁ heq
    rw [heq] at hssd
    split
    · exact hssd
    · exact hssd.trans publish_loop_confined

/-- A publish that succeeds moved the scratch file of every drive to its live name. -/
theorem publish_files_ok (h : publishFiles cfg fs faults d layout id = (true, fs')) :
    fs'.file = fs.file ∧ ∀ tier pool, cfg.pool tier = some pool →
      ∀ drive ∈ pool.stripeDrives d.bucket (layout.tierBytes tier),
        fs.dir (scratchPath tier d id drive) ≠ none ∧
          fs'.dir (livePath tier d drive) = fs.dir (scratchPath tier d id drive) := by
  unfold publishFiles publish at h
  have hfile := @publish_loop_file fs faults .ssd
    (cfg.ssd.stripeDrives d.bucket layout.ssdBytes) d id
  split at h
  · cases h
  · rename_i fs₁ heq
    have hssd := publish_loop_ok heq
    rw [heq] at hfile
    split at h
    · rename_i hnone
      cases h
      refine ⟨hfile.1, fun tier pool hpool drive hdrive => ?_⟩
      cases tier with
      | ssd =>
          cases hpool
          exact hssd drive hdrive
      | hdd =>
          rw [Config.pool, hnone] at hpool
          cases hpool
    · rename_i hddPool hsome
      have hhdd := publish_loop_ok h
      -- the renames of one tier do not touch the names of the other
      have hother₁ : ∀ path, path.tier = .hdd → fs₁.dir path = fs.dir path := by
        intro path hpath
        have hsame := @publish_loop_other fs faults .ssd
          (cfg.ssd.stripeDrives d.bucket layout.ssdBytes) path d id
          (by rintro drive - rfl; cases hpath) (by rintro drive - rfl; cases hpath)
        rwa [heq] at hsame
      have hother₂ : ∀ path, path.tier = .ssd → fs'.dir path = fs₁.dir path := by
        intro path hpath
        have hsame := @publish_loop_other fs₁ faults .hdd
          (hddPool.stripeDrives d.bucket layout.hddBytes) path d id
          (by rintro drive - rfl; cases hpath) (by rintro drive - rfl; cases hpath)
        rwa [h] at hsame
      have hfile' := @publish_loop_file fs₁ faults .hdd
        (hddPool.stripeDrives d.bucket layout.hddBytes) d id
      rw [h] at hfile'
      refine ⟨hfile'.1.trans hfile.1, fun tier pool hpool drive hdrive => ?_⟩
      cases tier with
      | ssd =>
          cases hpool
          rw [hother₂ _ rfl]
          exact hssd drive hdrive
      | hdd =>
          rw [Config.pool, hsome] at hpool
          cases hpool
          have hmoved := hhdd drive hdrive
          rwa [hother₁ _ rfl] at hmoved

/-- A publish whose scratch files exist succeeds when no rename fails. -/
theorem publish_files_succeeds (hfaults : ∀ tier drive, faults.renameat tier drive = false)
    (hdir : ∀ tier pool, cfg.pool tier = some pool →
      (pool.stripeDrives d.bucket (layout.tierBytes tier)).Nodup ∧
        ∀ drive ∈ pool.stripeDrives d.bucket (layout.tierBytes tier),
          fs.dir (scratchPath tier d id drive) ≠ none) :
    (publishFiles cfg fs faults d layout id).1 = true := by
  obtain ⟨hnodup, hssd⟩ := hdir .ssd cfg.ssd rfl
  have hok := publish_loop_succeeds (hfaults .ssd) hnodup hssd
  unfold publishFiles publish
  cases heq : publishLoop faults .ssd d id (cfg.ssd.stripeDrives d.bucket layout.ssdBytes) fs with
  | mk ok fs₁ =>
      simp only [ObjectLayout.tierBytes] at hok
      rw [heq] at hok
      dsimp only at hok
      subst hok
      cases hhdd : cfg.hdd with
      | none => rfl
      | some hddPool =>
          obtain ⟨hnodup', hhdd'⟩ := hdir .hdd hddPool hhdd
          refine publish_loop_succeeds (hfaults .hdd) hnodup' fun drive hdrive => ?_
          have hsame := @publish_loop_other fs faults .ssd
            (cfg.ssd.stripeDrives d.bucket layout.ssdBytes) (scratchPath .hdd d id drive) d id
            (by simp [scratchPath, livePath]) (by simp [scratchPath])
          rw [heq] at hsame
          rw [hsame]
          exact hhdd' drive hdrive

end State

/-! ## Sealed files -/

namespace FileSystem

/-- The file exists and has no scratch name: it was published, or lost its name. -/
def Sealed (fs : FileSystem) (ino : Nat) : Prop :=
  ino < fs.next ∧ ∀ tier drive digest suffix, fs.dir (scratchPath tier digest suffix drive) ≠
    some ino

/-- Sealed files stay sealed and keep their bodies. -/
structure Keeps (fs fs' : FileSystem) : Prop where
  sealed_stays : ∀ ino, fs.Sealed ino → fs'.Sealed ino
  body_eq : ∀ ino, fs.Sealed ino → fs'.file ino = fs.file ino

theorem Keeps.refl (fs : FileSystem) : fs.Keeps fs := ⟨fun _ h => h, fun _ _ => rfl⟩

theorem Keeps.trans {fs'' : FileSystem} (h : fs.Keeps fs') (h' : fs'.Keeps fs'') :
    fs.Keeps fs'' where
  sealed_stays ino hino := h'.sealed_stays ino (h.sealed_stays ino hino)
  body_eq ino hino := (h'.body_eq ino (h.sealed_stays ino hino)).trans (h.body_eq ino hino)

/-- A file under a live name is sealed. -/
theorem sealed_of_live {tier : Tier} {drive ino : Nat}
    (h : fs.dir (livePath tier d drive) = some ino) : fs.Sealed ino := by
  refine ⟨fs.dir_lt h, fun tier' drive' digest' suffix heq => ?_⟩
  have := fs.dir_injective h heq
  simp [livePath, scratchPath] at this

end FileSystem

theorem Pool.Confined.keeps (h : Confined d id fs fs') : fs.Keeps fs' where
  sealed_stays ino hino := by
    refine ⟨Nat.lt_of_lt_of_le hino.1 h.next_le, fun tier drive digest suffix heq => ?_⟩
    by_cases hname : (scratchPath tier digest suffix drive).name = ⟨d, some id⟩
    · obtain ⟨rfl, hsuffix⟩ := FileName.mk.inj hname
      cases hsuffix
      rcases h.dir_scratch tier drive ino heq with hold | hnew
      · exact hino.2 _ _ _ _ hold
      · exact absurd hino.1 (Nat.not_lt.2 hnew)
    · rw [h.dir_other _ (by simp [scratchPath]) hname] at heq
      exact hino.2 _ _ _ _ heq
  body_eq ino hino := h.body ino hino.1 fun tier drive => hino.2 tier drive d id

/-! ## Flushing -/

/-- The descriptors of handle `id` are its scratch files. -/
def Named (fs : FileSystem) (id : Nat) (h : StoreHandle) : Prop :=
  ∀ tier drive ino, h.files tier drive = some ino →
    fs.dir (scratchPath tier h.digest id drive) = some ino

/-- Everything is written and nothing is staged. -/
def StoreHandle.Finished (h : StoreHandle) : Prop := h.off = h.layout.size ∧ h.stageFill = 0

theorem Named.of_same {h h' : StoreHandle} (hn : Named fs id h) (hsame : State.SameHandle h h')
    (hdir : fs'.dir = fs.dir) : Named fs' id h' := by
  intro tier drive ino hino
  rw [hdir, hsame.digest]
  rw [StoreHandle.files, hsame.ssd, hsame.hdd] at hino
  exact hn tier drive ino hino

namespace State

variable {w : Staging}

theorem flush_block_confined (hn : Named w.fs id w.handle) (n : Nat) :
    Confined w.handle.digest id w.fs (flushBlock cfg faults w n).2.fs ∧
      (flushBlock cfg faults w n).2.fs.dir = w.fs.dir := by
  have hssd : Confined w.handle.digest id w.fs (flushSsd cfg faults w n).2 ∧
      (flushSsd cfg faults w n).2.dir = w.fs.dir := by
    unfold flushSsd
    dsimp only
    split_ifs
    · exact ⟨pwrite_loop_confined _ _ (hn .ssd), (pwrite_loop_frame _ _).1⟩
    · exact ⟨Confined.refl _ _ _, rfl⟩
  have hhdd : ∀ fs', fs'.dir = w.fs.dir →
      Confined w.handle.digest id fs' (flushHdd cfg faults { w with fs := fs' } n).2 ∧
        (flushHdd cfg faults { w with fs := fs' } n).2.dir = fs'.dir := by
    intro fs' hdir
    unfold flushHdd
    dsimp only
    split
    · rename_i pool fds _ hfds
      have hscratch : ∀ drive ino, fds drive = some ino →
          fs'.dir (scratchPath .hdd w.handle.digest id drive) = some ino := by
        intro drive ino hino
        rw [hdir]
        exact hn .hdd drive ino (by rw [StoreHandle.files, tierFiles, hfds]; exact hino)
      split_ifs
      · exact ⟨pwrite_loop_confined _ _ hscratch, (pwrite_loop_frame _ _).1⟩
      · exact ⟨Confined.refl _ _ _, rfl⟩
    · exact ⟨Confined.refl _ _ _, rfl⟩
  unfold flushBlock
  split
  · rename_i fs₁ heq
    rwa [heq] at hssd
  · rename_i fs₁ heq
    rw [heq] at hssd
    obtain ⟨hc, hdir⟩ := hhdd fs₁ hssd.2
    split <;> rename_i heq' <;> rw [heq'] at hc hdir <;>
      exact ⟨hssd.1.trans hc, hdir.trans hssd.2⟩

theorem stage_loop_confined (hn : Named w.fs id w.handle) (chunk : Nat → UInt8)
    (fuel pos remaining : Nat) :
    Confined w.handle.digest id w.fs (stageLoop cfg faults chunk fuel pos remaining w).2.fs ∧
      (stageLoop cfg faults chunk fuel pos remaining w).2.fs.dir = w.fs.dir := by
  let P : Staging → Prop := fun w' => SameHandle w.handle w'.handle ∧
    Confined w.handle.digest id w.fs w'.fs ∧ w'.fs.dir = w.fs.dir
  have hrule : P (stageLoop cfg faults chunk fuel pos remaining w).2 := by
    refine stage_loop_rule (P := P) ?_ ?_ _ _ _ ⟨SameHandle.refl _, Confined.refl _ _ _, rfl⟩
    · rintro w' pos take ⟨hsame, hc, hdir⟩
      exact ⟨hsame.trans ⟨rfl, rfl, rfl, rfl, rfl, rfl, rfl, rfl⟩, hc, hdir⟩
    · rintro w' ⟨hsame, hc, hdir⟩
      obtain ⟨hc', hdir'⟩ :=
        @flush_block_confined cfg faults id w' (hn.of_same hsame hdir) cfg.ioChunk
      rw [hsame.digest] at hc'
      exact ⟨hsame.trans (flush_block_same w' _), hc.trans hc', hdir'.trans hdir⟩
  exact hrule.2

/-- The flush at commit writes to scratch files, or there is nothing to flush. -/
theorem flush_tail_confined (hn : w.handle.Finished ∨ Named w.fs id w.handle) :
    Confined w.handle.digest id w.fs (flushTail cfg faults w).2.fs ∧
      (flushTail cfg faults w).2.fs.dir = w.fs.dir := by
  unfold flushTail
  split_ifs with hfill
  · rcases hn with hfin | hn
    · exact absurd hfin.2 (by omega)
    · exact @flush_block_confined cfg faults id (w.zeroTail _) hn _
  · exact ⟨Confined.refl _ _ _, rfl⟩

end State

/-! ## Every step -/

/-- Scratch names have numbers that were given out, and a handle that still has something to write
has all its files under its own scratch names. -/
structure Scratch (fs : FileSystem) (handles : Table Nat StoreHandle) (storeSeq : Nat) : Prop where
  suffix_lt : ∀ tier drive digest suffix ino,
    fs.dir (scratchPath tier digest suffix drive) = some ino → suffix < storeSeq
  named : ∀ id h, handles.lookup id = some h → h.Finished ∨ Named fs id h

/-- The invariant in the later state, and what happened to sealed files in between. -/
structure Kept (σ σ' : State) : Prop where
  scratch : Scratch σ'.fs σ'.handles σ'.storeSeq
  keeps : σ.fs.Keeps σ'.fs

theorem Scratch.confined {handles handles' : Table Nat StoreHandle} {storeSeq storeSeq' : Nat}
    (h : Scratch fs handles storeSeq) (hc : Confined d id fs fs') (hseq : storeSeq ≤ storeSeq')
    (hid : id < storeSeq') (hhandles : ∀ i h', handles'.lookup i = some h' →
      i ≠ id ∧ handles.lookup i = some h' ∨ i = id ∧ (h'.Finished ∨ Named fs' id h')) :
    Scratch fs' handles' storeSeq' where
  suffix_lt tier drive digest suffix ino hino := by
    by_cases hname : (scratchPath tier digest suffix drive).name = ⟨d, some id⟩
    · obtain ⟨-, hsuffix⟩ := FileName.mk.inj hname
      cases hsuffix
      exact hid
    · rw [hc.dir_other _ (by simp [scratchPath]) hname] at hino
      exact Nat.lt_of_lt_of_le (h.suffix_lt _ _ _ _ _ hino) hseq
  named i h' hh' := by
    rcases hhandles i h' hh' with ⟨hne, hold⟩ | ⟨rfl, hnew⟩
    · refine (h.named i h' hold).imp_right fun hn tier drive ino hino => ?_
      rw [hc.dir_other _ (by simp [scratchPath]) (by simp [scratchPath, hne])]
      exact hn tier drive ino hino
    · exact hnew

namespace Kept

variable {σ : State} {faults : Faults}

variable {σ' : State}

/-- A step that touches no file and no handle. -/
theorem of_eq (h : Scratch σ.fs σ.handles σ.storeSeq) (hfs : σ'.fs = σ.fs)
    (hhandles : σ'.handles = σ.handles) (hseq : σ'.storeSeq = σ.storeSeq) : Kept σ σ' where
  scratch := by
    rw [hfs, hhandles, hseq]
    exact h
  keeps := hfs ▸ FileSystem.Keeps.refl _

theorem trans {σ'' : State} (h : Kept σ σ') (h' : Kept σ' σ'') : Kept σ σ'' :=
  ⟨h'.scratch, h.keeps.trans h'.keeps⟩

theorem of_same (h : Scratch σ.fs σ.handles σ.storeSeq)
    (hsame : State.SameStore σ σ') : Kept σ σ' :=
  of_eq h hsame.fs hsame.handles hsame.storeSeq

/-- The action of one store on its own files. -/
theorem of_confined (h : Scratch σ.fs σ.handles σ.storeSeq)
    (hc : Confined d id σ.fs σ'.fs) (hseq : σ.storeSeq ≤ σ'.storeSeq) (hid : id < σ'.storeSeq)
    (hhandles : ∀ i h', σ'.handles.lookup i = some h' →
      i ≠ id ∧ σ.handles.lookup i = some h' ∨ i = id ∧ (h'.Finished ∨ Named σ'.fs id h')) :
    Kept σ σ' :=
  ⟨h.confined hc hseq hid hhandles, hc.keeps⟩

/-- Rewriting one handle. -/
theorem insert_cases {handles : Table Nat StoreHandle} {h₁ : StoreHandle}
    {Q : StoreHandle → Prop} (hq : Q h₁) (i : Nat) (h' : StoreHandle)
    (hh : (handles.insert id h₁).lookup i = some h') :
    i ≠ id ∧ handles.lookup i = some h' ∨ i = id ∧ Q h' := by
  rcases Table.lookup_insert_some hh with ⟨hi, rfl⟩ | hold
  · exact Or.inr ⟨hi, hq⟩
  · exact Or.inl hold

theorem erase_cases {handles : Table Nat StoreHandle} {Q : StoreHandle → Prop} (i : Nat)
    (h' : StoreHandle) (hh : (handles.erase id).lookup i = some h') :
    i ≠ id ∧ handles.lookup i = some h' ∨ i = id ∧ Q h' :=
  Or.inl (Table.lookup_erase_some hh)

/-- Unlinking live names leaves the scratch names alone. -/
theorem unlink_live (h : Scratch σ.fs σ.handles σ.storeSeq)
    (hfs : σ'.fs = State.unlinkFiles cfg σ.fs faults d layout none)
    (hhandles : σ'.handles = σ.handles) (hseq : σ'.storeSeq = σ.storeSeq) : Kept σ σ' := by
  obtain ⟨-, -, hdir⟩ := @State.unlink_files_spec cfg σ.fs faults d layout none
  have hc : Confined d 0 σ.fs σ'.fs := hfs ▸ State.unlink_files_confined (Or.inl rfl)
  refine ⟨⟨fun tier drive digest suffix ino hino => ?_, fun id h' hh' => ?_⟩, hc.keeps⟩
  · rw [hfs, hdir _ (by simp [scratchPath])] at hino
    exact hseq ▸ h.suffix_lt _ _ _ _ _ hino
  · rw [hhandles] at hh'
    refine (h.named id h' hh').imp_right fun hn tier drive ino hino => ?_
    rw [hfs, hdir _ (by simp [scratchPath])]
    exact hn tier drive ino hino

/-- A store fails after it has opened its files: its number was not in use. -/
theorem fails (h : Scratch σ.fs σ.handles σ.storeSeq) (hfresh : Fresh σ)
    (hc : Confined d σ.storeSeq σ.fs fs) : Kept σ { σ with storeSeq := σ.storeSeq + 1, fs := fs } :=
  of_confined h hc (Nat.le_succ _) (Nat.lt_succ_self _) fun i h' hh' =>
    Or.inl ⟨Nat.ne_of_lt (hfresh.handle_lt i h' hh'), hh'⟩

/-- A finished store takes no more bytes; one that is not writes to its scratch files. -/
theorem writes_confined {h₀ : StoreHandle} {chunk : ByteView} {ok : Bool} {w : State.Staging}
    (hnamed : h₀.Finished ∨ Named σ.fs id h₀) (hend : h₀.off + chunk.size ≤ h₀.layout.size)
    (hw : State.Writes cfg σ h₀ chunk faults ok w) :
    Confined h₀.digest id σ.fs w.fs ∧
      (ok = true ∧ h₀.Finished ∧ chunk.size = 0 ∧ w.handle = h₀ ∨ Named w.fs id w.handle) := by
  have hzero : h₀.Finished → chunk.size = 0 := fun hfin => by
    have := hfin.1
    omega
  obtain ⟨hsame, -, hdir, -⟩ := hw.keeps
  rcases hw with ⟨-, hok, rfl⟩ | ⟨-, hloop⟩
  · exact ⟨Confined.refl _ _ _, hnamed.imp_left fun hfin => ⟨hok, hfin, hzero hfin, rfl⟩⟩
  · rcases hnamed with hfin | hn
    · rw [hzero hfin, State.stageLoop, if_pos rfl, Prod.mk.injEq] at hloop
      obtain ⟨rfl, rfl⟩ := hloop
      exact ⟨Confined.refl _ _ _, Or.inl ⟨rfl, hfin, hzero hfin, rfl⟩⟩
    · have hc := @State.stage_loop_confined cfg faults id ⟨h₀, σ.stageBytes h₀.stage, σ.fs⟩ hn
        chunk.data (chunk.size + 2) 0 chunk.size
      rw [hloop] at hc
      exact ⟨hc.1, Or.inr (hn.of_same hsame hdir)⟩

theorem put_back {op : Op} {h₀ : StoreHandle} (h : Scratch σ.fs σ.handles σ.storeSeq)
    (hfresh : Fresh σ) (hh : σ.handles.lookup id = some h₀) (hput : Put cfg σ id h₀ op σ') :
    Kept σ σ' := by
  have hid := hfresh.handle_lt id h₀ hh
  have hnamed := h.named id h₀ hh
  cases hput with
  | @wrote chunk faults w hend hw =>
      obtain ⟨hc, hkind⟩ := writes_confined hnamed hend hw
      rw [State.fill_head_eq]
      refine of_confined h hc le_rfl hid (insert_cases (hkind.imp_left ?_))
      rintro ⟨-, hfin, hzero, hsame⟩
      rw [hsame]
      refine ⟨?_, hfin.2⟩
      simp only [State.advance, hzero, Nat.add_zero]
      exact hfin.1
  | @unwritten chunk faults w hend hw =>
      obtain ⟨hc, hkind⟩ := writes_confined hnamed hend hw
      rw [State.fill_head_eq]
      refine of_confined h hc le_rfl hid (insert_cases (Or.inr ?_))
      exact hkind.resolve_left fun hfail => by cases hfail.1
  | @flushed _ _ _ faults w hoff hflush =>
      have hsame := (State.flush_tail_keeps hflush).same
      have hc := (@State.flush_tail_confined cfg faults id
        ⟨h₀, σ.stageBytes h₀.stage, σ.fs⟩ hnamed).1
      rw [hflush] at hc
      refine of_confined h hc le_rfl hid (insert_cases (Or.inl ⟨?_, State.flush_tail_fill hflush⟩))
      rw [hsame.off, hsame.layout, hoff]
  | @unflushed _ _ _ faults w hoff hflush =>
      obtain ⟨hsame, -, hdir, -⟩ := State.flush_tail_keeps hflush
      have hc := (@State.flush_tail_confined cfg faults id
        ⟨h₀, σ.stageBytes h₀.stage, σ.fs⟩ hnamed).1
      rw [hflush] at hc
      refine of_confined h hc le_rfl hid (insert_cases (Or.inr ?_))
      rcases hnamed with hfin | hn
      · -- a finished store has nothing to flush
        rw [State.flushTail, if_neg (by have := hfin.2; dsimp only; omega), Prod.mk.injEq] at hflush
        cases hflush.1
      · exact hn.of_same hsame.spoil hdir

theorem change {op : Op} (h : Scratch σ.fs σ.handles σ.storeSeq) (hfresh : Fresh σ)
    (hc : Change cfg σ op σ') : Kept σ σ' := by
  cases hc with
  | quiet hop => exact of_same h (State.quiet_same cfg σ hop)
  | settle => exact of_eq h rfl rfl rfl
  | unhead =>
      rw [State.free_head_region_eq]
      exact of_eq h rfl rfl rfl
  | forget =>
      rw [State.free_head_eq]
      exact unlink_live h rfl rfl rfl
  | retime => exact of_eq h rfl rfl rfl
  | opened hopen => exact fails h hfresh (State.open_files_confined hopen)
  | refused hopen =>
      exact fails h hfresh ((State.open_files_confined hopen).trans
        (State.unlink_files_confined (Or.inr rfl)))
  | started hopen =>
      have hentry := (State.open_files_opened hopen).entry
      refine of_confined h (State.open_files_confined hopen) (Nat.le_succ _) (Nat.lt_succ_self _)
        fun i h' hh' => ?_
      rcases Table.lookup_insert_some hh' with ⟨rfl, rfl⟩ | ⟨hne, hold⟩
      · exact Or.inr ⟨rfl, Or.inr fun tier drive ino hino => hentry tier drive ino hino⟩
      · exact Or.inl ⟨hne, hold⟩
  | put hh hput => exact put_back h hfresh hh hput
  | @unpublished id _ _ _ faults h₀ _ hh hoff hfill hpublish =>
      have hc : Confined h₀.digest id σ.fs _ := hpublish ▸ State.publish_files_confined
      exact of_confined h hc le_rfl (hfresh.handle_lt id h₀ hh)
        (insert_cases (Or.inl ⟨hoff, hfill⟩))
  | @installed id _ _ _ faults h₀ _ hh _ _ _ hpublish =>
      have hc : Confined h₀.digest id σ.fs _ := hpublish ▸ State.publish_files_confined
      rw [State.retire_head_eq]
      exact of_confined h hc le_rfl (hfresh.handle_lt id h₀ hh) erase_cases
  | @closed id faults h₀ hh =>
      rw [State.give_back_eq]
      exact of_confined h (State.unlink_files_confined (Or.inr rfl)) le_rfl
        (hfresh.handle_lt id h₀ hh) erase_cases

/-- Every step, whatever calls fail in it. -/
theorem apply (h : Scratch σ.fs σ.handles σ.storeSeq) (hfresh : Fresh σ) (op : Op) :
    Kept σ (σ.apply cfg op) := by
  refine (Change.invariant (P := fun σ' => Fresh σ' ∧ Kept σ σ') ?_ ⟨hfresh, of_eq h rfl rfl rfl⟩).2
  rintro σ₁ σ₂ ⟨hfresh₁, h₁⟩ hc
  exact ⟨hfresh₁.change hc, h₁.trans (change h₁.scratch hfresh₁ hc)⟩

end Kept

/-- The scratch files of a state whose store numbers are fresh. -/
structure ScratchInv (σ : State) : Prop where
  fresh : Fresh σ
  scratch : Scratch σ.fs σ.handles σ.storeSeq

theorem ScratchInv.init (cfg : Config) : ScratchInv (State.init cfg) :=
  ⟨⟨by simp [State.init], by simp [State.init]⟩,
    ⟨by simp [State.init, FileSystem.empty], by simp [State.init]⟩⟩

theorem ScratchInv.change {σ σ' : State} {op : Op} (h : ScratchInv σ) (hc : Change cfg σ op σ') :
    ScratchInv σ' :=
  ⟨h.fresh.change hc, (Kept.change h.scratch h.fresh hc).scratch⟩

theorem ScratchInv.apply {σ : State} (h : ScratchInv σ) (op : Op) : ScratchInv (σ.apply cfg op) :=
  Change.invariant (fun _ _ h' hc => h'.change hc) h

/-- Every reachable state satisfies the invariant. -/
theorem reachable_scratch_inv (cfg : Config) (ops : List Op) : ScratchInv (State.after cfg ops) :=
  invariant_run (fun _ op _ h => h.apply op) (ScratchInv.init cfg)
    (allowed_true (State.apply cfg) (State.init cfg) ops)

/-- Files are copied on write: one that was published, or has lost its name, keeps its bytes in
every later state, so that descriptors that are open on it stay good. -/
theorem sealed_files_immutable (cfg : Config) (before since : List Op) :
    (State.after cfg before).fs.Keeps (State.after cfg (before ++ since)).fs := by
  have hrun := invariant_run (I := fun σ => ScratchInv σ ∧ (State.after cfg before).fs.Keeps σ.fs)
    (fun σ op _ h => ⟨@ScratchInv.apply cfg σ h.1 op,
    h.2.trans (Kept.apply h.1.scratch h.1.fresh op).keeps⟩)
    ⟨reachable_scratch_inv cfg before, FileSystem.Keeps.refl _⟩
    (allowed_true (State.apply cfg) _ since)
  unfold State.after at hrun ⊢
  rw [run_append]
  exact hrun.2

end GoblinStore
