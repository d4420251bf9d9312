import GoblinStore.Storage.DrivePool
import GoblinStore.Storage.FileSystem

/-!
# Per-object files of a pool

`openObject`, `publish` and `unlinkObject` visit the drives of `stripeDrives` in order. An open or
a publish that fails part way keeps what it did before the failing call. `Opened` says which
directory entry a descriptor came from, and `Confined` what an operation on one object leaves alone.
-/

namespace GoblinStore

/-- The live name of an object on a drive. -/
def livePath (tier : Tier) (digest : Digest) (drive : Nat) : Path := ⟨tier, drive, digest, none⟩

/-- The name of a scratch file on a drive. -/
def scratchPath (tier : Tier) (digest : Digest) (suffix drive : Nat) : Path :=
  ⟨tier, drive, digest, some suffix⟩

namespace Pool

/-- The loop of `open_object` over the drives still to visit. -/
def openLoop (faults : Faults) (tier : Tier) (name : FileName) (create : Bool) :
    List Nat → ObjectFiles → FileSystem → Option ObjectFiles × FileSystem
  | [], fds, fs => (some fds, fs)
  | drive :: rest, fds, fs =>
      match fds drive with
      | some _ => openLoop faults tier name create rest fds fs
      | none =>
          if faults.openat tier drive then (none, fs)
          else
            match fs.openat ⟨tier, drive, name⟩ create with
            | none => (none, fs)
            | some (ino, fs) =>
                openLoop faults tier name create rest (Function.update fds drive (some ino)) fs

/-- Open the per-object files that cover `tierBytes`. -/
def openObject (fs : FileSystem) (faults : Faults) (tier : Tier) (drives : DrivePool)
    (digest : Digest) (tierBytes : Nat) (create : Bool) (suffix : Option Nat) :
    Option ObjectFiles × FileSystem :=
  openLoop faults tier ⟨digest, suffix⟩ create (drives.stripeDrives digest.bucket tierBytes)
    ObjectFiles.none fs

/-- The loop of `publish` over the drives still to visit. -/
def publishLoop (faults : Faults) (tier : Tier) (digest : Digest) (suffix : Nat) :
    List Nat → FileSystem → Bool × FileSystem
  | [], fs => (true, fs)
  | drive :: rest, fs =>
      if faults.renameat tier drive ∨
        fs.dir (scratchPath tier digest suffix drive) = none then (false, fs)
      else
        publishLoop faults tier digest suffix rest
          (fs.move (scratchPath tier digest suffix drive) (livePath tier digest drive))

/-- Rename the scratch files over the live names, drive by drive. -/
def publish (fs : FileSystem) (faults : Faults) (tier : Tier) (drives : DrivePool)
    (digest : Digest) (tierBytes suffix : Nat) : Bool × FileSystem :=
  publishLoop faults tier digest suffix (drives.stripeDrives digest.bucket tierBytes) fs

/-- The loop of `unlink_object`; a failing unlink is ignored. -/
def unlinkLoop (faults : Faults) (tier : Tier) (name : FileName) :
    List Nat → FileSystem → FileSystem
  | [], fs => fs
  | drive :: rest, fs =>
      unlinkLoop faults tier name rest
        (if faults.unlinkat tier drive then fs else fs.unlink ⟨tier, drive, name⟩)

/-- Remove the per-object files. -/
def unlinkObject (fs : FileSystem) (faults : Faults) (tier : Tier) (drives : DrivePool)
    (digest : Digest) (tierBytes : Nat) (suffix : Option Nat) : FileSystem :=
  unlinkLoop faults tier ⟨digest, suffix⟩ (drives.stripeDrives digest.bucket tierBytes) fs

end Pool

namespace Pool

/-! ## Opening -/

/-- `fs'` is `fs` with new empty files under names `name`. -/
structure Grows (fs fs' : FileSystem) (name : FileName) : Prop where
  next_le : fs.next ≤ fs'.next
  body_old : ∀ ino, ino < fs.next → fs'.file ino = fs.file ino
  body_new : ∀ ino, fs.next ≤ ino → ino < fs'.next → fs'.file ino = File.empty
  dir_cases : ∀ path, fs'.dir path = fs.dir path ∨
    fs.dir path = none ∧ path.name = name ∧ ∃ ino, fs'.dir path = some ino ∧ fs.next ≤ ino

variable {fs fs' fs'' : FileSystem} {faults : Faults} {tier : Tier} {name : FileName}
  {create : Bool} {drives : List Nat} {fds fds' : ObjectFiles}

theorem Grows.refl (fs : FileSystem) (name : FileName) : Grows fs fs name where
  next_le := le_rfl
  body_old _ _ := rfl
  body_new ino hlo hhi := by omega
  dir_cases _ := Or.inl rfl

theorem Grows.trans (h : Grows fs fs' name) (h' : Grows fs' fs'' name) : Grows fs fs'' name where
  next_le := h.next_le.trans h'.next_le
  body_old ino hino := by
    rw [h'.body_old ino (Nat.lt_of_lt_of_le hino h.next_le), h.body_old ino hino]
  body_new ino hlo hhi := by
    by_cases hmid : ino < fs'.next
    · rw [h'.body_old ino hmid, h.body_new ino hlo hmid]
    · exact h'.body_new ino (by omega) hhi
  dir_cases path := by
    rcases h.dir_cases path with heq | ⟨hnone, hname, ino, hino, hle⟩
    · rcases h'.dir_cases path with heq' | ⟨hnone', hname', ino', hino', hle'⟩
      · exact Or.inl (heq'.trans heq)
      · exact Or.inr ⟨heq ▸ hnone', hname', ino', hino', h.next_le.trans hle'⟩
    · rcases h'.dir_cases path with heq' | ⟨hnone', -⟩
      · exact Or.inr ⟨hnone, hname, ino, heq'.trans hino, hle⟩
      · rw [hino] at hnone'
        cases hnone'

variable {path : Path} {ino : Nat}

/-- Existing entries survive. -/
theorem Grows.dir_some (h : Grows fs fs' name)
    (hp : fs.dir path = some ino) : fs'.dir path = some ino := by
  rcases h.dir_cases path with heq | ⟨hnone, -⟩
  · rwa [heq]
  · rw [hp] at hnone
    cases hnone

/-- Other names are not touched. -/
theorem Grows.dir_other (h : Grows fs fs' name) (hp : path.name ≠ name) :
    fs'.dir path = fs.dir path := by
  rcases h.dir_cases path with heq | ⟨-, hname, -⟩
  · exact heq
  · exact absurd hname hp

theorem openat_grows (h : fs.openat path create = some (ino, fs')) :
    Grows fs fs' path.name ∧ fs'.dir path = some ino := by
  unfold FileSystem.openat at h
  split at h
  · rename_i ino' hino
    simp only [Option.some.injEq, Prod.mk.injEq] at h
    obtain ⟨rfl, rfl⟩ := h
    exact ⟨Grows.refl _ _, hino⟩
  · rename_i hnone
    split_ifs at h
    simp only [Option.some.injEq, Prod.mk.injEq] at h
    obtain ⟨rfl, rfl⟩ := h
    refine ⟨⟨Nat.le_succ _, ?_, ?_, ?_⟩, by simp [FileSystem.create]⟩
    · intro ino hino
      exact Function.update_of_ne (Nat.ne_of_lt hino) _ _
    · intro ino hlo hhi
      rw [FileSystem.create_next] at hhi
      obtain rfl : ino = fs.next := by omega
      simp [FileSystem.create]
    · intro p
      by_cases hp : p = path
      · subst hp
        exact Or.inr ⟨hnone, rfl, fs.next, by simp [FileSystem.create], le_rfl⟩
      · exact Or.inl (Function.update_of_ne hp _ _)

/-- Opening, whether it succeeds or not, only adds files of the given name. -/
theorem open_loop_grows : Grows fs (openLoop faults tier name create drives fds fs).2 name := by
  induction drives generalizing fds fs with
  | nil => exact Grows.refl fs name
  | cons drive rest ih =>
      rw [openLoop]
      split
      · exact ih
      · split_ifs
        · exact Grows.refl fs name
        · split
          · exact Grows.refl fs name
          · rename_i ino fs1 hopen
            exact (openat_grows hopen).1.trans ih

/-- The descriptors came from the entries of this name on exactly these drives. -/
structure Opened (fs : FileSystem) (tier : Tier) (name : FileName) (drives : List Nat)
    (fds : ObjectFiles) : Prop where
  entry : ∀ {drive ino}, fds drive = some ino → fs.dir ⟨tier, drive, name⟩ = some ino
  ne_none_iff : ∀ drive, fds drive ≠ none ↔ drive ∈ drives

theorem open_loop_entry (hentry : ∀ drive ino, fds drive = some ino →
      fs.dir ⟨tier, drive, name⟩ = some ino)
    (h : openLoop faults tier name create drives fds fs = (some fds', fs')) :
    (∀ drive ino, fds' drive = some ino → fs'.dir ⟨tier, drive, name⟩ = some ino) ∧
      ∀ drive, fds' drive ≠ none ↔ fds drive ≠ none ∨ drive ∈ drives := by
  induction drives generalizing fds fs with
  | nil =>
      simp only [openLoop, Prod.mk.injEq, Option.some.injEq] at h
      obtain ⟨rfl, rfl⟩ := h
      exact ⟨hentry, by simp⟩
  | cons drive rest ih =>
      rw [openLoop] at h
      split at h
      · rename_i ino hino
        obtain ⟨h1, h2⟩ := ih hentry h
        refine ⟨h1, fun d => ?_⟩
        rw [h2, List.mem_cons]
        by_cases hd : d = drive
        · simp [hd, hino]
        · simp [hd]
      · split_ifs at h
        · cases h
        · split at h
          · cases h
          · rename_i ino fs1 hopen
            obtain ⟨hgrows, hdir⟩ := openat_grows hopen
            have hentry' : ∀ d i, Function.update fds drive (some ino) d = some i →
                fs1.dir ⟨tier, d, name⟩ = some i := by
              intro d i hd
              by_cases hdd : d = drive
              · subst hdd
                rw [Function.update_self] at hd
                rwa [← hd]
              · rw [Function.update_of_ne hdd] at hd
                exact hgrows.dir_some (hentry d i hd)
            obtain ⟨h1, h2⟩ := ih hentry' h
            refine ⟨h1, fun d => ?_⟩
            rw [h2, List.mem_cons]
            by_cases hd : d = drive
            · simp [hd]
            · simp [hd]

/-- A successful open gives one descriptor for each drive of the extent. -/
theorem open_object_opened {pool : DrivePool} {digest : Digest} {tierBytes : Nat}
    {suffix : Option Nat}
    (h : openObject fs faults tier pool digest tierBytes create suffix = (some fds, fs')) :
    Opened fs' tier ⟨digest, suffix⟩ (pool.stripeDrives digest.bucket tierBytes) fds := by
  obtain ⟨h1, h2⟩ := open_loop_entry (by simp [ObjectFiles.none]) h
  exact ⟨fun hd => h1 _ _ hd, fun d => by simpa [ObjectFiles.none] using h2 d⟩

/-- Opening without `O_CREAT` changes nothing. -/
theorem open_loop_read : (openLoop faults tier name false drives fds fs).2 = fs := by
  induction drives generalizing fds with
  | nil => rfl
  | cons drive rest ih =>
      rw [openLoop]
      split
      · exact ih
      · split_ifs
        · rfl
        · unfold FileSystem.openat
          cases fs.dir ⟨tier, drive, name⟩ with
          | none => rfl
          | some ino => exact ih

/-- Existing files open. -/
theorem open_loop_read_some (hfaults : ∀ drive, faults.openat tier drive = false)
    (hdir : ∀ drive ∈ drives, fs.dir ⟨tier, drive, name⟩ ≠ none) :
    (openLoop faults tier name false drives fds fs).1 ≠ none := by
  induction drives generalizing fds with
  | nil => simp [openLoop]
  | cons drive rest ih =>
      rw [openLoop]
      split
      · exact ih fun d hd => hdir d (List.mem_cons_of_mem _ hd)
      · obtain ⟨ino, hino⟩ := Option.ne_none_iff_exists'.1 (hdir drive List.mem_cons_self)
        simp only [hfaults, FileSystem.openat, hino, Bool.false_eq_true, if_false]
        exact ih fun d hd => hdir d (List.mem_cons_of_mem _ hd)

/-! ## Publishing and unlinking -/

variable {digest : Digest} {suffix : Nat} {ok : Bool}

theorem publish_loop_file : (publishLoop faults tier digest suffix drives fs).2.file = fs.file ∧
    (publishLoop faults tier digest suffix drives fs).2.next = fs.next := by
  induction drives generalizing fs with
  | nil => exact ⟨rfl, rfl⟩
  | cons drive rest ih =>
      rw [publishLoop]
      split_ifs
      · exact ⟨rfl, rfl⟩
      · exact ih

/-- Only the live and the scratch entries of this version change. -/
theorem publish_loop_other (hlive : ∀ drive ∈ drives, path ≠ livePath tier digest drive)
    (hscratch : ∀ drive ∈ drives, path ≠ scratchPath tier digest suffix drive) :
    (publishLoop faults tier digest suffix drives fs).2.dir path = fs.dir path := by
  induction drives generalizing fs with
  | nil => rfl
  | cons drive rest ih =>
      rw [publishLoop]
      split_ifs
      · rfl
      · rw [ih (fun d hd => hlive d (List.mem_cons_of_mem _ hd))
            (fun d hd => hscratch d (List.mem_cons_of_mem _ hd)), FileSystem.move_dir,
          Function.update_of_ne (hlive drive List.mem_cons_self), FileSystem.unlink_dir,
          Function.update_of_ne (hscratch drive List.mem_cons_self)]

/-- Publishing gives no file a scratch name. -/
theorem publish_loop_scratch {tier' : Tier} {digest' : Digest} {suffix' drive : Nat}
    (h : (publishLoop faults tier digest suffix drives fs).2.dir
      (scratchPath tier' digest' suffix' drive) = some ino) :
    fs.dir (scratchPath tier' digest' suffix' drive) = some ino := by
  induction drives generalizing fs with
  | nil => exact h
  | cons first rest ih =>
      rw [publishLoop] at h
      split_ifs at h
      · exact h
      · have hmoved := ih h
        rw [FileSystem.move_dir, Function.update_of_ne (by simp [scratchPath, livePath]),
          FileSystem.unlink_dir] at hmoved
        by_cases hpath : scratchPath tier' digest' suffix' drive =
            scratchPath tier digest suffix first
        · rw [hpath, Function.update_self] at hmoved
          cases hmoved
        · rwa [Function.update_of_ne hpath] at hmoved

/-- A publish that succeeds moved the scratch file of every drive. -/
theorem publish_loop_ok (h : publishLoop faults tier digest suffix drives fs = (true, fs')) :
    ∀ drive ∈ drives, fs.dir (scratchPath tier digest suffix drive) ≠ none ∧
      fs'.dir (livePath tier digest drive) = fs.dir (scratchPath tier digest suffix drive) := by
  induction drives generalizing fs with
  | nil => simp
  | cons drive rest ih =>
      rw [publishLoop] at h
      split_ifs at h with hfail
      · cases h
      rw [not_or] at hfail
      have hstep := ih h
      -- the source entry is gone after the rename, so this drive is not visited again
      have hnot : drive ∉ rest := by
        intro hmem
        refine (hstep drive hmem).1 ?_
        rw [FileSystem.move_dir, Function.update_of_ne (by simp [scratchPath, livePath]),
          FileSystem.unlink_dir, Function.update_self]
      intro d hd
      by_cases hdd : d = drive
      · subst hdd
        refine ⟨hfail.2, ?_⟩
        have hother : ∀ e ∈ rest, livePath tier digest d ≠ livePath tier digest e := by
          intro e he heq
          simp only [livePath, Path.mk.injEq] at heq
          exact hnot (heq.2.1 ▸ he)
        have hlast : (publishLoop faults tier digest suffix rest _).2.dir (livePath tier digest d) =
            (fs.move (scratchPath tier digest suffix d) (livePath tier digest d)).dir _ :=
          publish_loop_other hother (by simp [scratchPath, livePath])
        rw [h] at hlast
        rw [hlast, FileSystem.move_dir, Function.update_self]
      · obtain ⟨h1, h2⟩ := hstep d ((List.mem_cons.1 hd).resolve_left hdd)
        have hsrc : (fs.move (scratchPath tier digest suffix drive)
            (livePath tier digest drive)).dir
            (scratchPath tier digest suffix d) = fs.dir (scratchPath tier digest suffix d) := by
          rw [FileSystem.move_dir, Function.update_of_ne (by simp [scratchPath, livePath]),
            FileSystem.unlink_dir, Function.update_of_ne (by simpa [scratchPath] using hdd)]
        rw [hsrc] at h1 h2
        exact ⟨h1, h2⟩

/-- A publish whose scratch files exist succeeds when no rename fails. -/
theorem publish_loop_succeeds (hfaults : ∀ drive, faults.renameat tier drive = false)
    (hnodup : drives.Nodup)
    (hdir : ∀ drive ∈ drives, fs.dir (scratchPath tier digest suffix drive) ≠ none) :
    (publishLoop faults tier digest suffix drives fs).1 = true := by
  induction drives generalizing fs with
  | nil => rfl
  | cons drive rest ih =>
      obtain ⟨hnot, hnodup⟩ := List.nodup_cons.1 hnodup
      rw [publishLoop, if_neg (by simp [hfaults, hdir drive List.mem_cons_self])]
      refine ih hnodup fun d hd => ?_
      have hne : d ≠ drive := by
        rintro rfl
        exact hnot hd
      rw [FileSystem.move_dir, Function.update_of_ne (by simp [scratchPath, livePath]),
        FileSystem.unlink_dir, Function.update_of_ne (by simpa [scratchPath] using hne)]
      exact hdir d (List.mem_cons_of_mem _ hd)

/-- Unlinking removes entries of the given name and nothing else. -/
theorem unlink_loop_spec :
    (unlinkLoop faults tier name drives fs).file = fs.file ∧
      (unlinkLoop faults tier name drives fs).next = fs.next ∧
      ∀ path, (unlinkLoop faults tier name drives fs).dir path = fs.dir path ∨
        path.tier = tier ∧ path.name = name ∧
          (unlinkLoop faults tier name drives fs).dir path = none := by
  induction drives generalizing fs with
  | nil => exact ⟨rfl, rfl, fun _ => Or.inl rfl⟩
  | cons drive rest ih =>
      rw [unlinkLoop]
      split_ifs
      · exact ih
      · obtain ⟨hfile, hnext, hdir⟩ := @ih (fs.unlink ⟨tier, drive, name⟩)
        refine ⟨hfile, hnext, fun path => ?_⟩
        rcases hdir path with hsame | hgone
        · by_cases hp : path = ⟨tier, drive, name⟩
          · subst hp
            exact Or.inr ⟨rfl, rfl, by rw [hsame, FileSystem.unlink_dir, Function.update_self]⟩
          · rw [FileSystem.unlink_dir, Function.update_of_ne hp] at hsame
            exact Or.inl hsame
        · exact Or.inr hgone

/-! ## What the operations on one object leave alone -/

/-- Only live names and scratch names with number `id` of one digest change, only files under those
scratch names are written, and only new files get such a name. -/
structure Confined (d : Digest) (id : Nat) (fs fs' : FileSystem) : Prop where
  next_le : fs.next ≤ fs'.next
  dir_other : ∀ path, path.name ≠ ⟨d, none⟩ → path.name ≠ ⟨d, some id⟩ → fs'.dir path = fs.dir path
  dir_scratch : ∀ tier drive ino, fs'.dir (scratchPath tier d id drive) = some ino →
    fs.dir (scratchPath tier d id drive) = some ino ∨ fs.next ≤ ino
  body : ∀ ino < fs.next, (∀ tier drive, fs.dir (scratchPath tier d id drive) ≠ some ino) →
    fs'.file ino = fs.file ino

theorem Confined.refl (d : Digest) (id : Nat) (fs : FileSystem) : Confined d id fs fs where
  next_le := le_rfl
  dir_other _ _ _ := rfl
  dir_scratch _ _ _ h := Or.inl h
  body _ _ _ := rfl

variable {d : Digest} {id : Nat}

theorem Confined.trans (h : Confined d id fs fs')
    (h' : Confined d id fs' fs'') : Confined d id fs fs'' where
  next_le := h.next_le.trans h'.next_le
  dir_other path hlive hscratch :=
    (h'.dir_other path hlive hscratch).trans (h.dir_other path hlive hscratch)
  dir_scratch tier drive ino hino := by
    rcases h'.dir_scratch tier drive ino hino with hold | hnew
    · exact h.dir_scratch tier drive ino hold
    · exact Or.inr (h.next_le.trans hnew)
  body ino hino hnot := by
    have hnot' : ∀ tier drive, fs'.dir (scratchPath tier d id drive) ≠ some ino := by
      intro tier drive heq
      rcases h.dir_scratch tier drive ino heq with hold | hnew
      · exact hnot tier drive hold
      · omega
    rw [h'.body ino (Nat.lt_of_lt_of_le hino h.next_le) hnot', h.body ino hino hnot]

theorem Grows.confined (h : Grows fs fs' ⟨d, some id⟩) :
    Confined d id fs fs' where
  next_le := h.next_le
  dir_other path _ hscratch := h.dir_other hscratch
  dir_scratch tier drive ino hino := by
    rcases h.dir_cases (scratchPath tier d id drive) with hsame | ⟨-, -, ino', hino', hle⟩
    · exact Or.inl (hsame ▸ hino)
    · rw [hino', Option.some.injEq] at hino
      exact Or.inr (hino ▸ hle)
  body ino hino _ := h.body_old ino hino

theorem publish_loop_confined :
    Confined digest suffix fs (publishLoop faults tier digest suffix drives fs).2 := by
  obtain ⟨hfile, hnext⟩ := @publish_loop_file fs faults tier drives digest suffix
  refine ⟨hnext.ge, fun path hlive hscratch => publish_loop_other ?_ ?_, ?_, ?_⟩
  · rintro drive - rfl
    exact hlive rfl
  · rintro drive - rfl
    exact hscratch rfl
  · intro tier' drive ino hino
    exact Or.inl (publish_loop_scratch hino)
  · intro ino _ _
    rw [hfile]

theorem unlink_loop_confined (hname : name = ⟨d, none⟩ ∨ name = ⟨d, some id⟩) :
    Confined d id fs (unlinkLoop faults tier name drives fs) := by
  obtain ⟨hfile, hnext, hdir⟩ := @unlink_loop_spec fs faults tier name drives
  refine ⟨hnext.ge, fun path hlive hscratch => ?_, fun tier' drive ino hino => ?_, ?_⟩
  · rcases hdir path with hsame | ⟨-, hpath, -⟩
    · exact hsame
    · rcases hname with rfl | rfl
      · exact absurd hpath hlive
      · exact absurd hpath hscratch
  · rcases hdir (scratchPath tier' d id drive) with hsame | ⟨-, -, hnone⟩
    · exact Or.inl (hsame ▸ hino)
    · rw [hnone] at hino
      cases hino
  · intro ino _ _
    rw [hfile]

end Pool

end GoblinStore
