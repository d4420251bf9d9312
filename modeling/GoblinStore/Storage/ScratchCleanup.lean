import GoblinStore.Storage.LiveFiles

/-!
# Who removes scratch files

`begin_store` creates its scratch files one drive at a time, first on the SSDs and then on the HDDs.
A failed `openat` closes the descriptors opened so far and returns: the files before the failing one
stay. Every other failure, and the destructor of an uncommitted handle, unlinks all the scratch
files of the store, because an open handle's layout names every drive on which it has one
(`ScratchCovered`).
-/

namespace GoblinStore

open GoblinStore.Lib GoblinStore.Core Pool

/-- No file of any drive has the suffix `.tmp.suffix`. -/
def NoScratch (fs : FileSystem) (suffix : Nat) : Prop :=
  ∀ tier digest drive, fs.dir (scratchPath tier digest suffix drive) = none

/-- The scratch files of a store, in the order in which `begin_store` creates them. -/
def Config.scratchFiles (cfg : Config) (d : Digest) (size : Nat) : List (Tier × Nat) :=
  (cfg.tierDrives .ssd d (cfg.layout size)).map (Prod.mk .ssd) ++
    (cfg.tierDrives .hdd d (cfg.layout size)).map (Prod.mk .hdd)

/-- Of opens made in this order, the first fails or none does. -/
def Faults.CleanFor (faults : Faults) : List (Tier × Nat) → Prop
  | [] => True
  | first :: rest => faults.openat first.1 first.2 = true ∨
      ∀ file ∈ first :: rest, faults.openat file.1 file.2 = false

instance (faults : Faults) : ∀ files, Decidable (faults.CleanFor files)
  | [] => inferInstanceAs (Decidable True)
  | _ :: _ => inferInstanceAs (Decidable (_ ∨ _))

/-- No `openat` of `begin_store` fails after a file was created. -/
def OpensCleanly (cfg : Config) (faults : Faults) (d : Digest) (size : Nat) : Prop :=
  faults.CleanFor (cfg.scratchFiles d size)

instance (cfg : Config) (faults : Faults) (d : Digest) (size : Nat) :
    Decidable (OpensCleanly cfg faults d size) :=
  inferInstanceAs (Decidable (faults.CleanFor _))

variable {cfg : Config} {σ : State} {fs fs' : FileSystem} {faults : Faults} {d : Digest}
  {layout : ObjectLayout} {tier : Tier} {name : FileName} {drives : List Nat} {fds : ObjectFiles}

/-! ## Opening -/

namespace Pool

/-- Creating files only adds entries on the drives of the list. -/
theorem open_loop_dir {path : Path} (hpath : ∀ drive ∈ drives, path ≠ ⟨tier, drive, name⟩) :
    (openLoop faults tier name true drives fds fs).2.dir path = fs.dir path := by
  induction drives generalizing fds fs with
  | nil => rfl
  | cons drive rest ih =>
      have hrest : ∀ drive ∈ rest, path ≠ ⟨tier, drive, name⟩ := fun d hd =>
        hpath d (List.mem_cons_of_mem _ hd)
      rw [openLoop]
      split
      · exact ih hrest
      · split_ifs
        · rfl
        · split
          · rfl
          · rename_i ino fs₁ hopen
            rw [ih hrest]
            unfold FileSystem.openat at hopen
            split at hopen
            · cases hopen
              rfl
            · rw [if_pos rfl, Option.some.injEq, Prod.mk.injEq] at hopen
              obtain ⟨-, rfl⟩ := hopen
              rw [FileSystem.create_dir, Function.update_of_ne (hpath drive List.mem_cons_self)]

/-- Files can be created on drives where `openat` does not fail. -/
theorem open_loop_ok (hfaults : ∀ drive ∈ drives, faults.openat tier drive = false) :
    (openLoop faults tier name true drives fds fs).1 ≠ none := by
  induction drives generalizing fds fs with
  | nil => simp [openLoop]
  | cons drive rest ih =>
      have hrest : ∀ drive ∈ rest, faults.openat tier drive = false := fun d hd =>
        hfaults d (List.mem_cons_of_mem _ hd)
      rw [openLoop]
      split
      · exact ih hrest
      · rw [hfaults drive List.mem_cons_self, if_neg Bool.false_ne_true]
        unfold FileSystem.openat
        cases fs.dir ⟨tier, drive, name⟩ with
        | none => exact ih hrest
        | some ino => exact ih hrest

/-- A failing `openat` on a drive without a descriptor fails the loop. -/
theorem open_loop_fails {drive : Nat} (hmem : drive ∈ drives) (hfd : fds drive = none)
    (hfault : faults.openat tier drive = true) :
    (openLoop faults tier name true drives fds fs).1 = none := by
  induction drives generalizing fds fs with
  | nil => cases hmem
  | cons first rest ih =>
      rw [openLoop]
      split
      · rename_i ino hino
        rcases List.mem_cons.1 hmem with rfl | hrest
        · cases hfd.symm.trans hino
        · exact ih hrest hfd
      · split_ifs with hfirst
        · rfl
        · have hne : drive ≠ first := by
            rintro rfl
            exact hfirst hfault
          split
          · rfl
          · exact ih ((List.mem_cons.1 hmem).resolve_left hne)
              ((Function.update_of_ne hne ..).trans hfd)

/-- The first file is there after the loop, whether or not a later one fails. -/
theorem open_loop_first {first : Nat} {rest : List Nat} (hfd : fds first = none)
    (hfault : faults.openat tier first = false) :
    (openLoop faults tier name true (first :: rest) fds fs).2.dir ⟨tier, first, name⟩ ≠ none := by
  rw [openLoop, hfd]
  dsimp only
  rw [hfault, if_neg Bool.false_ne_true]
  cases hopen : fs.openat ⟨tier, first, name⟩ true with
  | none =>
      unfold FileSystem.openat at hopen
      split at hopen <;> cases hopen
  | some found =>
      obtain ⟨ino, fs₁⟩ := found
      have hgrows := @open_loop_grows fs₁ faults tier name true rest
        (Function.update fds first (some ino))
      dsimp only
      rw [hgrows.dir_some (openat_grows hopen).2]
      exact Option.some_ne_none ino

end Pool

namespace State

/-- The opens of both tiers are two loops, over the SSDs and then over the HDDs. -/
theorem open_files_loops (cfg : Config) (fs : FileSystem) (faults : Faults) (d : Digest)
    (layout : ObjectLayout) (suffix : Option Nat) :
    ∃ a b, openLoop faults .ssd ⟨d, suffix⟩ true (cfg.tierDrives .ssd d layout)
      ObjectFiles.none fs = a ∧
      openLoop faults .hdd ⟨d, suffix⟩ true (cfg.tierDrives .hdd d layout)
      ObjectFiles.none a.2 = b ∧
      (a.1 = none ∧ openFiles cfg fs faults d layout true suffix = (none, a.2) ∨
        a.1 ≠ none ∧ b.1 = none ∧ openFiles cfg fs faults d layout true suffix = (none, b.2) ∨
        a.1 ≠ none ∧ b.1 ≠ none ∧ (openFiles cfg fs faults d layout true suffix).1 ≠ none ∧
          (openFiles cfg fs faults d layout true suffix).2 = b.2) := by
  refine ⟨_, _, rfl, rfl, ?_⟩
  have hssd : cfg.tierDrives .ssd d layout = cfg.ssd.stripeDrives d.bucket layout.ssdBytes := rfl
  rw [hssd]
  unfold openFiles openObject
  cases ha : openLoop faults .ssd ⟨d, suffix⟩ true (cfg.ssd.stripeDrives d.bucket layout.ssdBytes)
      ObjectFiles.none fs with
  | mk ssd fs₁ =>
      cases ssd with
      | none => exact Or.inl ⟨rfl, rfl⟩
      | some ssd =>
          refine Or.inr ?_
          cases hpool : cfg.hdd with
          | none =>
              have hnil : cfg.tierDrives .hdd d layout =
                  [] := by simp [Config.tierDrives, Config.pool, hpool]
              rw [hnil]
              exact Or.inr ⟨Option.some_ne_none _, Option.some_ne_none _,
                Option.some_ne_none _, rfl⟩
          | some pool =>
              have hhdd : cfg.tierDrives .hdd d layout =
                  pool.stripeDrives d.bucket layout.hddBytes := by
                simp [Config.tierDrives, Config.pool, hpool, ObjectLayout.tierBytes]
              rw [hhdd]
              dsimp only
              split_ifs with hzero
              · rw [hzero]
                exact Or.inr ⟨Option.some_ne_none _, Option.some_ne_none _,
                  Option.some_ne_none _, rfl⟩
              · cases hb : openLoop faults .hdd ⟨d, suffix⟩ true
                    (pool.stripeDrives d.bucket layout.hddBytes) ObjectFiles.none fs₁ with
                | mk hdd fs₂ =>
                    cases hdd with
                    | none => exact Or.inl ⟨Option.some_ne_none _, rfl, rfl⟩
                    | some hdd =>
                        exact Or.inr ⟨Option.some_ne_none _, Option.some_ne_none _,
                          Option.some_ne_none _, rfl⟩

variable {suffix : Option Nat}

/-- Opening to create only adds the scratch files of the store. -/
theorem open_files_dir {path : Path}
    (hpath : ∀ tier, ∀ drive ∈ cfg.tierDrives tier d layout, path ≠ ⟨tier, drive, d, suffix⟩) :
    (openFiles cfg fs faults d layout true suffix).2.dir path = fs.dir path := by
  obtain ⟨a, b, ha, hb, hends⟩ := open_files_loops cfg fs faults d layout suffix
  have hssd : a.2.dir path = fs.dir path := by
    rw [← ha]
    exact open_loop_dir (hpath .ssd)
  have hhdd : b.2.dir path = a.2.dir path := by
    rw [← hb]
    exact open_loop_dir (hpath .hdd)
  rcases hends with ⟨-, heq⟩ | ⟨-, -, heq⟩ | ⟨-, -, -, heq⟩
  · rw [heq]
    exact hssd
  · rw [heq]
    exact hhdd.trans hssd
  · rw [heq]
    exact hhdd.trans hssd

variable {size : Nat}

theorem mem_scratch_files {drive : Nat} :
    (tier, drive) ∈ cfg.scratchFiles d size ↔ drive ∈ cfg.tierDrives tier d (cfg.layout size) := by
  cases tier <;> simp [Config.scratchFiles]

/-- If no open fails after a file was created, a failed open creates no file. -/
theorem open_files_clean (hclean : OpensCleanly cfg faults d size)
    (hfail : (openFiles cfg fs faults d (cfg.layout size) true suffix).1 = none) :
    (openFiles cfg fs faults d (cfg.layout size) true suffix).2 = fs := by
  obtain ⟨a, b, ha, hb, hends⟩ := open_files_loops cfg fs faults d (cfg.layout size) suffix
  -- some open fails, so the first one does
  have hfirst : ∀ first rest, cfg.scratchFiles d size = first :: rest →
      faults.openat first.1 first.2 = true := by
    intro first rest hfiles
    rw [OpensCleanly, hfiles] at hclean
    refine hclean.resolve_right fun hnone => ?_
    have hok : ∀ tier, ∀ drive ∈ cfg.tierDrives tier d (cfg.layout size), faults.openat tier drive =
        false := by
      intro tier drive hdrive
      exact hnone (tier, drive) (hfiles ▸ mem_scratch_files.2 hdrive)
    have ha' : a.1 ≠ none := ha ▸ open_loop_ok (hok .ssd)
    have hb' : b.1 ≠ none := hb ▸ open_loop_ok (hok .hdd)
    rcases hends with ⟨hnone', -⟩ | ⟨-, hnone', -⟩ | ⟨-, -, hsome, -⟩
    · exact ha' hnone'
    · exact hb' hnone'
    · exact hsome hfail
  have hhead : ∀ tier first rest, faults.openat tier first = true →
      openLoop faults tier ⟨d, suffix⟩ true (first :: rest) ObjectFiles.none fs = (none, fs) := by
    intro tier first rest hfault
    rw [openLoop]
    simp only [ObjectFiles.none]
    rw [if_pos hfault]
  cases hssd : cfg.tierDrives .ssd d (cfg.layout size) with
  | cons first rest =>
      have hfault := hfirst (.ssd, first) _ (by rw [Config.scratchFiles, hssd]; rfl)
      rw [hssd, hhead .ssd first rest hfault] at ha
      subst ha
      rcases hends with ⟨-, heq⟩ | ⟨hsome, -⟩ | ⟨hsome, -⟩
      · rw [heq]
      · exact absurd rfl hsome
      · exact absurd rfl hsome
  | nil =>
      rw [hssd] at ha
      subst ha
      rcases hends with ⟨hnone, -⟩ | ⟨-, hnone, heq⟩ | ⟨-, -, hsome, -⟩
      · cases hnone
      · rw [heq]
        cases hhdd : cfg.tierDrives .hdd d (cfg.layout size) with
        | nil =>
            rw [hhdd] at hb
            subst hb
            rfl
        | cons first rest =>
            have hfault := hfirst (.hdd, first) _ (by rw [Config.scratchFiles, hssd, hhdd]; rfl)
            rw [hhdd] at hb
            subst hb
            exact congrArg Prod.snd (hhead .hdd first rest hfault)
      · exact absurd hfail hsome

/-- If an open fails after a file was created, the open fails and the first file stays. -/
theorem open_files_strands (hclean : ¬ OpensCleanly cfg faults d size) :
    (openFiles cfg fs faults d (cfg.layout size) true suffix).1 = none ∧
    ∃ tier drive, (openFiles cfg fs faults d (cfg.layout size) true suffix).2.dir
      ⟨tier, drive, d, suffix⟩ ≠ none := by
  obtain ⟨a, b, ha, hb, hends⟩ := open_files_loops cfg fs faults d (cfg.layout size) suffix
  cases hfiles : cfg.scratchFiles d size with
  | nil =>
      rw [OpensCleanly, hfiles] at hclean
      exact absurd trivial hclean
  | cons first rest =>
      rw [OpensCleanly, hfiles] at hclean
      obtain ⟨hfirst, hsome⟩ := not_or.1 hclean
      rw [Bool.not_eq_true] at hfirst
      push Not at hsome
      obtain ⟨⟨tier, drive⟩, hmem, hfault⟩ := hsome
      rw [← hfiles, mem_scratch_files] at hmem
      rw [ne_eq, Bool.not_eq_false] at hfault
      have hgrows : Grows a.2 b.2 ⟨d, suffix⟩ := hb ▸ open_loop_grows
      -- one of the two loops fails
      have hnone : a.1 = none ∨ b.1 = none := by
        cases tier with
        | ssd => exact Or.inl (ha ▸ open_loop_fails hmem rfl hfault)
        | hdd => exact Or.inr (hb ▸ open_loop_fails hmem rfl hfault)
      -- and the first file is there after the loop that creates it
      have hthere : a.2.dir ⟨first.1, first.2, d, suffix⟩ ≠ none ∨
          a.1 ≠ none ∧ b.2.dir ⟨first.1, first.2, d, suffix⟩ ≠ none := by
        cases hssd : cfg.tierDrives .ssd d (cfg.layout size) with
        | cons x xs =>
            rw [Config.scratchFiles, hssd, List.map_cons, List.cons_append,
              List.cons.injEq] at hfiles
            obtain ⟨rfl, -⟩ := hfiles
            rw [hssd] at ha
            exact Or.inl (ha ▸ open_loop_first rfl hfirst)
        | nil =>
            rw [Config.scratchFiles, hssd, List.map_nil, List.nil_append] at hfiles
            cases hhdd : cfg.tierDrives .hdd d (cfg.layout size) with
            | nil =>
                rw [hhdd] at hfiles
                cases hfiles
            | cons x xs =>
                rw [hhdd, List.map_cons, List.cons.injEq] at hfiles
                obtain ⟨rfl, -⟩ := hfiles
                rw [hssd] at ha
                rw [hhdd] at hb
                refine Or.inr ⟨?_, hb ▸ open_loop_first rfl hfirst⟩
                rw [← ha]
                exact Option.some_ne_none _
      rcases hends with ⟨ha', heq⟩ | ⟨-, -, heq⟩ | ⟨ha', hb', -⟩
      · rw [heq]
        refine ⟨rfl, first.1, first.2, ?_⟩
        exact hthere.resolve_right fun hboth => hboth.1 ha'
      · rw [heq]
        refine ⟨rfl, first.1, first.2, ?_⟩
        rcases hthere with hdir | ⟨-, hdir⟩
        · obtain ⟨ino, hino⟩ := Option.ne_none_iff_exists'.1 hdir
          rw [hgrows.dir_some hino]
          exact Option.some_ne_none ino
        · exact hdir
      · exact absurd hnone (not_or.2 ⟨ha', hb'⟩)

end State

/-! ## The files of open handles -/

/-- An open handle's layout names every drive on which it has a scratch file. -/
def ScratchCovered (cfg : Config) (σ : State) : Prop :=
  ∀ id h, σ.handles.lookup id = some h → ∀ tier digest drive,
    σ.fs.dir (scratchPath tier digest id drive) ≠ none →
      digest = h.digest ∧ drive ∈ cfg.tierDrives tier h.digest h.layout

/-- Unlinking creates no entry. -/
theorem State.unlink_entries {suffix : Option Nat} {path : Path}
    (h : (unlinkFiles cfg fs faults d layout suffix).dir path ≠ none) : fs.dir path ≠ none := by
  have hone : ∀ fs tier drives, (unlinkLoop faults tier ⟨d, suffix⟩ drives fs).dir path ≠ none →
      fs.dir path ≠ none := by
    intro fs tier drives hdir
    rcases (@unlink_loop_spec fs faults tier ⟨d, suffix⟩ drives).2.2 path with hsame | ⟨-, -, hnone⟩
    · rwa [hsame] at hdir
    · exact absurd hnone hdir
  unfold unlinkFiles unlinkObject at h
  split at h
  · exact hone _ _ _ h
  · exact hone _ _ _ (hone _ _ _ h)

/-- Publishing creates no scratch entry. -/
theorem State.publish_entries {id id' : Nat} {digest : Digest} {drive : Nat} {ok : Bool}
    (hpublish : publishFiles cfg fs faults d layout id = (ok, fs'))
    (h : fs'.dir (scratchPath tier digest id' drive) ≠ none) :
    fs.dir (scratchPath tier digest id' drive) ≠ none := by
  obtain ⟨ino, hino⟩ := Option.ne_none_iff_exists'.1 h
  rw [show fs' = (publishFiles cfg fs faults d layout id).2 by rw [hpublish]] at hino
  have hback : fs.dir (scratchPath tier digest id' drive) = some ino := by
    have hssd := @publish_loop_scratch fs faults .ssd
      (cfg.ssd.stripeDrives d.bucket layout.ssdBytes) ino d id tier digest id' drive
    unfold publishFiles publish at hino
    split at hino
    · rename_i heq
      rw [heq] at hssd
      exact hssd hino
    · rename_i heq
      rw [heq] at hssd
      split at hino
      · exact hssd hino
      · exact hssd (publish_loop_scratch hino)
  rw [hback]
  exact Option.some_ne_none ino

/-- A change creates no scratch file, unless it opens the files of a new store. -/
theorem Change.scratch_old {op : Op} {σ' : State} (hc : Change cfg σ op σ') {digest : Digest}
    {i : Nat} (hdir : σ'.fs.dir (scratchPath tier digest i drive) ≠ none) :
    σ.fs.dir (scratchPath tier digest i drive) ≠ none ∨
      i = σ.storeSeq ∧ ∃ d size faults, op = .beginStore d size faults ∧ digest = d ∧
        drive ∈ cfg.tierDrives tier d (cfg.layout size) := by
  have hopened : ∀ d size faults ans fs', op = .beginStore d size faults →
      State.openFiles cfg σ.fs faults d (cfg.layout size) true (some σ.storeSeq) = (ans, fs') →
      fs'.dir (scratchPath tier digest i drive) ≠ none →
      σ.fs.dir (scratchPath tier digest i drive) ≠ none ∨
        i = σ.storeSeq ∧ ∃ d size faults, op = .beginStore d size faults ∧ digest = d ∧
          drive ∈ cfg.tierDrives tier d (cfg.layout size) := by
    intro d size faults ans fs' hop hopen hdir'
    by_contra hnot
    rw [not_or, not_not] at hnot
    have hsame := @State.open_files_dir cfg σ.fs faults d (cfg.layout size) (some σ.storeSeq)
      (scratchPath tier digest i drive)
    rw [hopen] at hsame
    refine hdir' ((hsame fun tier' drive' hdrive' hpath => hnot.2 ?_).trans hnot.1)
    simp only [scratchPath, Path.mk.injEq, FileName.mk.injEq, Option.some.injEq] at hpath
    obtain ⟨rfl, rfl, rfl, rfl⟩ := hpath
    exact ⟨rfl, digest, size, faults, hop, rfl, hdrive'⟩
  cases hc with
  | quiet hop =>
      rw [(State.quiet_same cfg σ hop).fs] at hdir
      exact Or.inl hdir
  | settle => exact Or.inl hdir
  | unhead =>
      rw [State.free_head_region_eq] at hdir
      exact Or.inl hdir
  | forget => exact Or.inl (State.unlink_entries hdir)
  | retime => exact Or.inl hdir
  | opened hopen => exact hopened _ _ _ _ _ rfl hopen hdir
  | refused hopen => exact hopened _ _ _ _ _ rfl hopen (State.unlink_entries hdir)
  | started hopen => exact hopened _ _ _ _ _ rfl hopen hdir
  | put _ hput =>
      obtain ⟨w, -, hsame, -, heq⟩ := hput.same
      rw [heq] at hdir
      exact Or.inl (hsame ▸ hdir)
  | unpublished _ _ _ hpublish => exact Or.inl (State.publish_entries hpublish hdir)
  | installed _ _ _ _ hpublish =>
      rw [State.retire_head_eq] at hdir
      exact Or.inl (State.publish_entries hpublish hdir)
  | closed => exact Or.inl (State.unlink_entries hdir)

/-- No file has the number of the next store. -/
theorem ScratchInv.no_scratch (hinv : ScratchInv σ) : NoScratch σ.fs σ.storeSeq := by
  intro tier digest drive
  rw [Option.eq_none_iff_forall_ne_some]
  intro ino hino
  exact absurd (hinv.scratch.suffix_lt _ _ _ _ _ hino) (lt_irrefl _)

namespace ScratchCovered

theorem change {op : Op} {σ' : State} (h : ScratchCovered cfg σ) (hinv : ScratchInv σ)
    (hc : Change cfg σ op σ') :
    ScratchCovered cfg σ' := by
  intro i h' hh' tier digest drive hdir
  rcases hc.handle_old hh' with ⟨h₀, hh₀, hkept⟩ |
    ⟨rfl, -, d, size, faults, hop, hdigest, hlayout, -⟩
  · rcases hc.scratch_old hdir with hold | ⟨rfl, -⟩
    · rw [hkept.digest, hkept.layout]
      exact h i h₀ hh₀ tier digest drive hold
    · exact absurd (hinv.fresh.handle_lt _ h₀ hh₀) (lt_irrefl _)
  · -- the new handle: nobody had a file with its number
    rcases hc.scratch_old hdir with hold | ⟨-, d', size', faults', hop', rfl, hdrive⟩
    · exact absurd (hinv.no_scratch tier digest drive) hold
    · cases hop.symm.trans hop'
      rw [hdigest, hlayout]
      exact ⟨rfl, hdrive⟩

theorem apply (h : ScratchCovered cfg σ) (hinv : ScratchInv σ) (op : Op) :
    ScratchCovered cfg (σ.apply cfg op) := by
  refine (Change.invariant (P := fun σ' => ScratchInv σ' ∧ ScratchCovered cfg σ') ?_ ⟨hinv, h⟩).2
  rintro σ₁ σ₂ ⟨hinv₁, h₁⟩ hc
  exact ⟨hinv₁.change hc, h₁.change hinv₁ hc⟩

/-- The invariant holds in every state of a run. -/
theorem run_of (h : ScratchCovered cfg σ) (hinv : ScratchInv σ) (ops : List Op) :
    ScratchCovered cfg (run (State.apply cfg) σ ops) :=
  (invariant_run (I := fun σ => ScratchInv σ ∧ ScratchCovered cfg σ)
    (fun _ op _ h => ⟨h.1.apply op, h.2.apply h.1 op⟩) ⟨hinv, h⟩
    (allowed_true (State.apply cfg) σ ops)).2

/-- The destructor of an uncommitted handle removes all its scratch files. -/
theorem abort (h : ScratchCovered cfg σ)
    (hunlink : ∀ tier drive, faults.unlinkat tier drive = false) {id : Nat} (hid : id ∈ σ.handles) :
    NoScratch (State.abort cfg σ id faults).fs id := by
  intro tier digest drive
  have hgone : ∀ h₀ : StoreHandle, σ.handles.lookup id = some h₀ →
      (State.unlinkFiles cfg σ.fs faults h₀.digest h₀.layout (some id)).dir
        (scratchPath tier digest id drive) = none := by
    intro h₀ hh
    by_contra hdir
    obtain ⟨rfl, hdrive⟩ := h id h₀ hh tier digest drive (State.unlink_entries hdir)
    refine hdir ((State.unlink_files_dir hunlink).trans ?_)
    rw [if_pos ⟨rfl, hdrive⟩]
  rcases State.abort_cases cfg σ id faults with ⟨hnone, -⟩ | ⟨h₀, hh, ⟨-, heq⟩ | ⟨r, -, heq⟩⟩
  · exact absurd hid (Table.lookup_eq_none.1 hnone)
  · rw [heq]
    exact hgone h₀ hh
  · rw [heq]
    exact hgone h₀ hh

end ScratchCovered

theorem scratch_covered_init (cfg : Config) : ScratchCovered cfg (State.init cfg) := by
  intro id h hh
  cases hh

/-! ## `begin_store` -/

/-- A `begin_store` that fails leaves no scratch file of its own, unless an open fails after a file
was created. -/
theorem begin_store_error_clean (hinv : ScratchInv σ) {size : Nat} {e : Errc}
    (hunlink : ∀ tier drive, faults.unlinkat tier drive = false)
    (hclean : OpensCleanly cfg faults d size)
    (herr : (State.beginStore cfg σ d size faults).1 = .error e) :
    NoScratch (State.beginStore cfg σ d size faults).2.fs σ.storeSeq := by
  have hnone := hinv.no_scratch
  rcases State.begin_store_error herr with ⟨fs, hopen, heq⟩ | ⟨files, fs, hopen, ⟨-, heq⟩ |
      ⟨stage, writePool, σ₁, -, hpos, hssd, hres, heq⟩⟩
  · have hsame := @State.open_files_clean cfg σ.fs faults d (some σ.storeSeq) size hclean
      (by rw [hopen])
    rw [hopen] at hsame
    obtain rfl : fs = σ.fs := hsame
    rw [heq]
    exact hnone
  · rw [heq]
    intro tier digest drive
    refine (State.unlink_files_dir hunlink).trans ?_
    split_ifs with hmine
    · rfl
    · have hdir := @State.open_files_dir cfg σ.fs faults d (cfg.layout size) (some σ.storeSeq)
        (scratchPath tier digest σ.storeSeq drive)
      rw [hopen] at hdir
      refine (hdir fun tier' drive' hdrive' hpath => hmine ?_).trans (hnone tier digest drive)
      simp only [scratchPath, Path.mk.injEq, FileName.mk.injEq, and_true] at hpath
      obtain ⟨rfl, rfl, rfl⟩ := hpath
      exact ⟨rfl, hdrive'⟩
  · -- a RAM-only object has no files
    have hsize : size ≤ cfg.tiers.ramHead := State.ram_only_of_ssd hpos hssd
    have hfs : σ₁.fs = fs := by
      have hframe := (State.reserve_head_frame cfg
        { σ with
          storeSeq := σ.storeSeq + 1, fs := fs,
          writePool := writePool } (min size cfg.tiers.ramHead)).2
      rwa [hres] at hframe
    rw [heq]
    intro tier digest drive
    dsimp only
    rw [hfs]
    have hdir := @State.open_files_dir cfg σ.fs faults d (cfg.layout size) (some σ.storeSeq)
      (scratchPath tier digest σ.storeSeq drive)
    rw [hopen] at hdir
    refine (hdir fun tier' drive' hdrive' => ?_).trans (hnone tier digest drive)
    rw [Config.tier_drives_ram_only hsize] at hdrive'
    cases hdrive'

/-- A `begin_store` that fails leaves no file with its suffix, and a handle that it returns leaves
none when it is destroyed uncommitted, whatever happened in between. -/
def State.CleansUp (cfg : Config) (σ : State) (d : Digest) (size : Nat) (faults : Faults) : Prop :=
  (∀ e, (σ.beginStore cfg d size faults).1 = .error e →
    NoScratch (σ.beginStore cfg d size faults).2.fs σ.storeSeq) ∧
  ∀ id, (σ.beginStore cfg d size faults).1 = .ok id → ∀ (later : List Op) (faults' : Faults),
    (∀ tier drive, faults'.unlinkat tier drive = false) →
    id ∈ (run (State.apply cfg) (σ.beginStore cfg d size faults).2 later).handles →
      NoScratch ((run (State.apply cfg) (σ.beginStore cfg d size faults).2 later).abort cfg id
      faults').fs id

/-- From every reachable state `begin_store` and its handles clean up exactly when no `openat` fails
after a file was created. -/
theorem scratch_files_cleaned_up (cfg : Config) (ops : List Op) (d : Digest) (size : Nat)
    (faults : Faults) (hunlink : ∀ tier drive, faults.unlinkat tier drive = false) :
    (State.after cfg ops).CleansUp cfg d size faults ↔ OpensCleanly cfg faults d size := by
  have hinv := reachable_scratch_inv cfg ops
  have hcovered : ScratchCovered cfg (State.after cfg ops) :=
    ScratchCovered.run_of (scratch_covered_init cfg) (ScratchInv.init cfg) ops
  generalize State.after cfg ops = σ at hinv hcovered ⊢
  constructor
  · rintro ⟨hfailed, -⟩
    by_contra hclean
    obtain ⟨hnone, tier, drive, hdir⟩ :=
      @State.open_files_strands cfg σ.fs faults d (some σ.storeSeq) size hclean
    rw [State.begin_store_open_failed (Prod.ext hnone rfl)] at hfailed
    exact hdir (hfailed .ioError rfl tier d drive)
  · intro hclean
    refine ⟨fun e herr => begin_store_error_clean hinv hunlink hclean herr, ?_⟩
    intro id _ later faults' hunlink' hid
    have hlater : ScratchCovered cfg
        (run (State.apply cfg) (σ.beginStore cfg d size faults).2 later) :=
      (hcovered.apply hinv (.beginStore d size faults)).run_of
        (hinv.apply (.beginStore d size faults)) later
    exact hlater.abort hunlink' hid

/-- Both staging buffers are taken. -/
def twoOpen : List Op :=
  [.beginStore (Digest.replicate 1) 8192 Faults.never,
    .beginStore (Digest.replicate 2) 8192 Faults.never]

/-- The third store finds no staging buffer after it has created its two files; they are gone. -/
theorem scratch_files_cleaned_up_exhausted :
    ∃ e, ((State.after twoDriveConfig twoOpen).beginStore twoDriveConfig (Digest.replicate 3) 8192
        Faults.never).1 = .error e ∧
      NoScratch ((State.after twoDriveConfig twoOpen).beginStore twoDriveConfig
        (Digest.replicate 3) 8192 Faults.never).2.fs 2 := by
  have hclean := (scratch_files_cleaned_up twoDriveConfig twoOpen (Digest.replicate 3)
    8192 Faults.never
    fun _ _ => rfl).2 (by decide +kernel)
  have herr : ((State.after twoDriveConfig twoOpen).beginStore twoDriveConfig
      (Digest.replicate 3) 8192
      Faults.never).1 = .error .wouldBlock := by rfl
  exact ⟨_, herr, hclean.1 _ herr⟩

/-- `openat` fails on drive 0. -/
def driveZeroFails : Faults := { Faults.never with openat := fun _ drive => drive = 0 }

/-- The file on drive 1 is created before the open on drive 0 fails, and stays. -/
theorem failed_open_strands_scratch :
    ((State.init twoDriveConfig).beginStore twoDriveConfig (Digest.replicate 1) 8192
        driveZeroFails).1 = .error .ioError ∧
      ¬ NoScratch ((State.init twoDriveConfig).beginStore twoDriveConfig (Digest.replicate 1) 8192
        driveZeroFails).2.fs 0 := by
  refine ⟨by rfl, fun hnone => ?_⟩
  have hdir : ((State.init twoDriveConfig).beginStore twoDriveConfig (Digest.replicate 1) 8192
      driveZeroFails).2.fs.dir (scratchPath .ssd (Digest.replicate 1) 0 1) =
      some 0 := by decide +kernel
  cases (hnone .ssd (Digest.replicate 1) 1).symm.trans hdir

end GoblinStore
