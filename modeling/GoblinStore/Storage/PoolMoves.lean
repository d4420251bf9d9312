import GoblinStore.Lib.Runs
import GoblinStore.Storage.Pool
import Mathlib.Data.List.Induction

/-!
# Pools as objects that are moved

A `Pool` owns the directory descriptors of its drives and knows whether object files are opened with
`O_DIRECT`. It is built by `Pool::open` and then moved, through a `Result`, an `optional` and the
parameters of a constructor, into the `TierManager`. The two moves of `Pool` are written by hand:
they hand over the drives and the descriptors, but not the mode (`moves_keep_pool`).
-/

namespace GoblinStore

open GoblinStore.Lib

/-- The flags of an `openat` call: `O_RDWR | O_CREAT` or `O_RDONLY`, and `O_DIRECT`. -/
structure OpenFlags where
  write : Bool
  create : Bool
  direct : Bool
  deriving DecidableEq, Repr

/-- An `openat` call for an object file. -/
structure OpenCall where
  dirfd : Option Nat
  name : FileName
  flags : OpenFlags
  deriving DecidableEq

/-- A storage pool: the drives, an open descriptor of each drive's directory, and the direct-I/O
mode. -/
structure Pool where
  drives : DrivePool
  dirfds : List Nat
  directIo : Bool

/-- The directories and the stripe unit of a pool. -/
structure PoolConfig where
  dirs : List String
  stripeUnit : Nat
  stripe_unit_pos : 0 < stripeUnit
  stripe_unit_lt : stripeUnit < wrap64

namespace Pool

/-! ## Opening the files of an object -/

/-- The flags with which `open_object` opens. -/
def openFlags (pool : Pool) (create : Bool) : OpenFlags := ⟨create, create, pool.directIo⟩

/-- The call for the file on one drive. -/
def openCall (pool : Pool) (name : FileName) (create : Bool) (drive : Nat) : OpenCall :=
  ⟨pool.dirfds[drive]?, name, pool.openFlags create⟩

/-- The calls of the loop of `open_object`; `openat` decides which succeed, and the first that fails
is the last. -/
def openCallLoop (pool : Pool) (openat : OpenCall → Option Nat) (name : FileName) (create : Bool) :
    List Nat → (Nat → Option Nat) → List OpenCall
  | [], _ => []
  | drive :: rest, fds =>
      match fds drive with
      | some _ => openCallLoop pool openat name create rest fds
      | none =>
          pool.openCall name create drive ::
            match openat (pool.openCall name create drive) with
            | none => []
            | some fd =>
                openCallLoop pool openat name create rest (Function.update fds drive (some fd))

/-- The calls of `open_object`. -/
def openCalls (pool : Pool) (openat : OpenCall → Option Nat) (digest : Digest) (tierBytes : Nat)
    (create : Bool) (suffix : Option Nat) : List OpenCall :=
  pool.openCallLoop openat ⟨digest, suffix⟩ create
    (pool.drives.stripeDrives digest.bucket tierBytes) fun _ => none

/-- Every file of every object is opened with this mode. -/
def OpensWith (pool : Pool) (mode : Bool) : Prop :=
  ∀ openat digest tierBytes create suffix, ∀ call ∈
    pool.openCalls openat digest tierBytes create suffix,
    call.flags.direct = mode

variable {pool : Pool} {openat : OpenCall → Option Nat} {name : FileName} {create : Bool}

theorem mem_open_call_loop {visited : List Nat} {fds : Nat → Option Nat} {call : OpenCall}
    (h : call ∈ pool.openCallLoop openat name create visited fds) :
    ∃ drive ∈ visited, fds drive = none ∧ call = pool.openCall name create drive := by
  induction visited generalizing fds with
  | nil => cases h
  | cons drive rest ih =>
      rw [openCallLoop] at h
      split at h
      · obtain ⟨other, hmem, hnone, heq⟩ := ih h
        exact ⟨other, List.mem_cons_of_mem _ hmem, hnone, heq⟩
      · rename_i hdrive
        rcases List.mem_cons.1 h with rfl | h
        · exact ⟨drive, List.mem_cons_self, hdrive, rfl⟩
        · split at h
          · cases h
          · obtain ⟨other, hmem, hnone, heq⟩ := ih h
            have hne : other ≠ drive := by
              rintro rfl
              rw [Function.update_self] at hnone
              cases hnone
            rw [Function.update_of_ne hne] at hnone
            exact ⟨other, List.mem_cons_of_mem _ hmem, hnone, heq⟩

/-- If every call succeeds, there is one for each drive that has no descriptor yet. -/
theorem open_call_mem (hopen : ∀ call, openat call ≠ none) {visited : List Nat}
    {fds : Nat → Option Nat} {drive : Nat} (hmem : drive ∈ visited) (hnone : fds drive = none) :
    pool.openCall name create drive ∈ pool.openCallLoop openat name create visited fds := by
  induction visited generalizing fds with
  | nil => cases hmem
  | cons first rest ih =>
      rw [openCallLoop]
      by_cases hfirst : drive = first
      · subst hfirst
        simp only [hnone]
        exact List.mem_cons_self
      · have hrest : drive ∈ rest := (List.mem_cons.1 hmem).resolve_left hfirst
        split
        · exact ih hrest hnone
        · obtain ⟨fd, hfd⟩ := Option.ne_none_iff_exists'.1 (hopen (pool.openCall name create first))
          simp only [hfd]
          refine List.mem_cons_of_mem _ (ih hrest ?_)
          rwa [Function.update_of_ne hfirst]

/-- An object has descriptors for exactly the drives that the calls are made for. -/
theorem opened_iff_called {fs fs' : FileSystem} {faults : Faults} {tier : Tier} {digest : Digest}
    {tierBytes : Nat} {suffix : Option Nat} {fds : ObjectFiles}
    (h : openObject fs faults tier pool.drives digest tierBytes create suffix = (some fds, fs'))
    (hopen : ∀ call, openat call ≠ none) {call : OpenCall} :
    call ∈ pool.openCalls openat digest tierBytes create suffix ↔
      ∃ drive, fds drive ≠ none ∧ call = pool.openCall ⟨digest, suffix⟩ create drive := by
  have hopened := open_object_opened h
  constructor
  · intro hcall
    obtain ⟨drive, hmem, -, heq⟩ := mem_open_call_loop hcall
    exact ⟨drive, (hopened.ne_none_iff drive).2 hmem, heq⟩
  · rintro ⟨drive, hdrive, rfl⟩
    exact open_call_mem hopen ((hopened.ne_none_iff drive).1 hdrive) rfl

/-- A byte of an object has a file, so the mode shows. -/
theorem opens_with_iff (hunit : pool.drives.stripeUnit < wrap64) {mode : Bool} :
    pool.OpensWith mode ↔ pool.directIo = mode := by
  constructor
  · intro h
    have hused : 0 < pool.drives.filesUsed 1 := by
      have hpos := pool.drives.stripe_unit_pos
      have hdrives := pool.drives.num_drives_pos
      have hchunks : pool.drives.chunks 1 = 1 := by
        rw [DrivePool.chunks, Nat.add_sub_cancel_left, Nat.mod_eq_of_lt hunit, Nat.div_self hpos]
      rw [DrivePool.filesUsed, hchunks, if_neg one_ne_zero]
      split_ifs <;> omega
    have hdrive : pool.drives.driveOf (Digest.replicate 0).bucket (0 * pool.drives.stripeUnit) ∈
        pool.drives.stripeDrives (Digest.replicate 0).bucket 1 :=
          DrivePool.mem_stripe_drives.2 ⟨0, hused, rfl⟩
    exact h (fun _ => some 0) (Digest.replicate 0) 1 true none _
      (open_call_mem (by simp) hdrive rfl)
  · intro h openat digest tierBytes create suffix call hcall
    obtain ⟨drive, -, -, rfl⟩ := mem_open_call_loop hcall
    exact h

/-! ## Moves -/

/-- `Pool(Pool&&)`: the new pool, and what is left of the old one. -/
def moveConstruct (o : Pool) : Pool × Pool := (⟨o.drives, o.dirfds, false⟩, { o with dirfds := [] })

/-- `operator=(Pool&&)` for two pools: the descriptors that are closed, the pool assigned to, and
what is left of the other one. -/
def moveAssign (this o : Pool) : List Nat × Pool × Pool :=
  (this.dirfds, { this with drives := o.drives, dirfds := o.dirfds }, { o with dirfds := [] })

/-- A move of a pool: into a new one, or onto an existing one. -/
inductive Move where
  | construct
  | assign (target : Pool)

/-- The pool that a move fills. -/
def move (pool : Pool) : Move → Pool
  | .construct => pool.moveConstruct.1
  | .assign target => (target.moveAssign pool).2.1

/-- What a move makes of the mode. -/
def Move.mode : Move → Bool
  | .construct => false
  | .assign target => target.directIo

/-- Moves hand over the drives and the descriptors. -/
theorem moves_keep_drives (pool : Pool) (moves : List Move) :
    (run move pool moves).drives = pool.drives ∧ (run move pool moves).dirfds = pool.dirfds := by
  refine invariant_run (I := fun p : Pool => p.drives = pool.drives ∧
    p.dirfds = pool.dirfds) ?_ ⟨rfl, rfl⟩
    (allowed_true move pool moves)
  intro p m _ h
  cases m <;> exact h

/-- The mode after moves is that of the last one. -/
theorem moves_mode (pool : Pool) (moves : List Move) :
    (run move pool moves).directIo = (moves.getLast?.map Move.mode).getD pool.directIo := by
  induction moves using List.reverseRecOn with
  | nil => rfl
  | append_singleton moves last _ =>
      rw [run_append, List.getLast?_concat]
      cases last <;> rfl

/-! ## Building the pools of a store -/

/-- Open the directories of a pool; `none` if one cannot be opened. -/
def openDirs (opendir : String → Option Nat) : List String → Option (List Nat)
  | [] => some []
  | dir :: rest => (opendir dir).bind fun fd => (openDirs opendir rest).map (fd :: ·)

/-- `Pool::open`: the pool is moved into the `Result`. -/
def openPool (opendir : String → Option Nat) (cfg : PoolConfig) (directIo : Bool) :
    Except Errc Pool :=
  if h : cfg.dirs = [] then .error .invalidArgument
  else
    match openDirs opendir cfg.dirs with
    | none => .error .ioError
    | some dirfds =>
        .ok (moveConstruct
          ⟨⟨cfg.dirs.length, cfg.stripeUnit, List.length_pos_iff.2 h, cfg.stripe_unit_pos⟩,
          dirfds, directIo⟩).1

end Pool

/-- The HDD pool of `TierManager::open`, moved into an `optional`; there is none without
directories. -/
def openHdd (opendir : String → Option Nat) (hdd : PoolConfig) (directIo : Bool) :
    Except Errc (Option Pool) :=
  if hdd.dirs = [] then .ok none
  else (Pool.openPool opendir hdd directIo).map fun pool => some (pool.move .construct)

/-- The pools that `TierManager::open` builds: they go through the parameter and the member of the
constructor, and with the `TierManager` into the `Result`. -/
def openPools (opendir : String → Option Nat) (ssd hdd : PoolConfig) (directIo : Bool) :
    Except Errc (Pool × Option Pool) :=
  match Pool.openPool opendir ssd directIo with
  | .error e => .error e
  | .ok sp =>
      (openHdd opendir hdd directIo).map fun hp =>
        (run Pool.move sp (List.replicate 3 .construct),
          hp.map fun p => run Pool.move p (List.replicate 3 .construct))

variable {opendir : String → Option Nat} {cfg ssd hdd : PoolConfig} {directIo : Bool}

theorem open_pool_ok {pool : Pool} (h : Pool.openPool opendir cfg directIo = .ok pool) :
    pool.drives.numDrives = cfg.dirs.length ∧ pool.drives.stripeUnit = cfg.stripeUnit ∧
      Pool.openDirs opendir cfg.dirs = some pool.dirfds := by
  unfold Pool.openPool at h
  split_ifs at h
  split at h
  · cases h
  · rename_i dirfds hdirs
    cases h
    exact ⟨rfl, rfl, hdirs⟩

/-- Every pool of the store comes from `Pool::open` by a move construction. -/
theorem open_pools_ok {pools : Pool × Option Pool}
    (h : openPools opendir ssd hdd directIo = .ok pools) {pool : Pool}
    (hpool : pool ∈ pools.1 :: pools.2.toList) :
    ∃ cfg first, Pool.openPool opendir cfg directIo = .ok first ∧
      ∃ moves : List Pool.Move, pool = run Pool.move first (moves ++ [.construct]) := by
  unfold openPools at h
  split at h
  · cases h
  · rename_i sp hssd
    unfold openHdd at h
    split_ifs at h
    · cases h
      obtain rfl := List.mem_singleton.1 hpool
      exact ⟨ssd, sp, hssd, List.replicate 2 .construct, rfl⟩
    · cases hhdd : Pool.openPool opendir hdd directIo with
      | error e =>
          rw [hhdd] at h
          cases h
      | ok hp =>
          rw [hhdd] at h
          cases h
          rcases List.mem_cons.1 hpool with rfl | hpool
          · exact ⟨ssd, sp, hssd, List.replicate 2 .construct, rfl⟩
          · obtain rfl := List.mem_singleton.1 hpool
            exact ⟨hdd, hp, hhdd, List.replicate 3 .construct, rfl⟩

/-- The mode asked for reaches the opens of a store exactly if it is not `O_DIRECT`. A pool keeps
its drives and its descriptors in every sequence of moves, and its mode exactly if the last move
happens to give it. -/
theorem moves_keep_pool (opendir : String → Option Nat) (ssd hdd : PoolConfig) (directIo : Bool)
    (pools : Pool × Option Pool) (h : openPools opendir ssd hdd directIo = .ok pools) :
    (∀ pool ∈ pools.1 :: pools.2.toList, (pool.OpensWith directIo ↔ directIo = false)) ∧
    ∀ (pool : Pool) (moves : List Pool.Move),
      (run Pool.move pool moves).drives = pool.drives ∧
      (run Pool.move pool moves).dirfds = pool.dirfds ∧
        ((run Pool.move pool moves).directIo = pool.directIo ↔
          ∀ last, moves.getLast? = some last → last.mode = pool.directIo) := by
  constructor
  · intro pool hpool
    obtain ⟨cfg, first, hfirst, moves, rfl⟩ := open_pools_ok h hpool
    have hunit : (run Pool.move first (moves ++ [.construct])).drives.stripeUnit < wrap64 := by
      rw [(Pool.moves_keep_drives first _).1, (open_pool_ok hfirst).2.1]
      exact cfg.stripe_unit_lt
    rw [Pool.opens_with_iff hunit, Pool.moves_mode, List.getLast?_concat]
    exact eq_comm
  · intro pool moves
    obtain ⟨hdrives, hfds⟩ := Pool.moves_keep_drives pool moves
    refine ⟨hdrives, hfds, ?_⟩
    rw [Pool.moves_mode]
    cases moves.getLast? with
    | none => simp
    | some last => simp

theorem device_block_lt : kDeviceBlock < wrap64 := by decide

/-- Two SSD directories and no HDD. -/
def twoDirs : PoolConfig := ⟨["/ssd0", "/ssd1"], kDeviceBlock, device_block_pos, device_block_lt⟩

def noDirs : PoolConfig := { twoDirs with dirs := [] }

/-- Every directory opens. -/
def anyDir (_ : String) : Option Nat := some 3

theorem moves_keep_pool_buffered :
    ∃ pools, openPools anyDir twoDirs noDirs false = .ok pools ∧ pools.1.OpensWith false := by
  obtain ⟨pools, hpools⟩ : ∃ pools, openPools anyDir twoDirs noDirs false = .ok pools := ⟨_, rfl⟩
  exact ⟨pools, hpools, ((moves_keep_pool anyDir twoDirs noDirs false pools hpools).1 pools.1
    List.mem_cons_self).2 rfl⟩

/-- The pool of a store opened with `O_DIRECT`, and its calls for an object of one byte. -/
theorem direct_io_dropped :
    (openPools anyDir twoDirs noDirs true).map
        (fun pools => pools.1.openCalls (fun _ => some 7) (Digest.replicate 0) 1 true none) =
      .ok [⟨some 3, ⟨Digest.replicate 0, none⟩, ⟨true, true, false⟩⟩] := by
  rfl

end GoblinStore
