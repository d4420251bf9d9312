import GoblinStore.Common.Types
import GoblinStore.Lib.Bytes
import Mathlib.Logic.Function.Basic

/-!
# The file system below the pools

A directory maps paths to inodes, an inode has a size and a body, and an open file descriptor is
its inode: it keeps denoting the inode after a rename or an unlink. `FileSystem` carries the two
facts that hold because the pools never make hard links: inode numbers in use are below `next`,
and an inode has at most one path. Which calls fail is decided from outside, by `Faults`.
-/

namespace GoblinStore

open GoblinStore.Lib

/-- The two disk tiers. -/
inductive Tier where
  | ssd
  | hdd
  deriving DecidableEq, Repr

/-- A file name: the digest in hex, and the number of the `.tmp.N` suffix of a scratch file. -/
structure FileName where
  digest : Digest
  suffix : Option Nat
  deriving DecidableEq

/-- A file name in the directory of one drive of one pool. -/
structure Path where
  tier : Tier
  drive : Nat
  name : FileName
  deriving DecidableEq

/-- The body of an inode; positions from `size` on are beyond the end of the file. -/
structure File where
  size : Nat
  data : Nat → UInt8

/-- A new file. -/
def File.empty : File := ⟨0, fun _ => 0⟩

/-- `pwrite` of `n` bytes at `off`; a gap reads as zeros. -/
def File.pwrite (file : File) (off n : Nat) (src : Nat → UInt8) : File :=
  if n = 0 then file else ⟨max file.size (off + n), blit file.data off n src⟩

/-- The number of bytes that a read of `n` bytes at `off` finds before the end of the file. -/
def File.available (file : File) (off n : Nat) : Nat := min n (file.size - off)

/-- Which calls of one operation fail: opens, renames and unlinks by tier and drive, and for a
striped write at a tier offset the number of bytes written before the failing `pwrite`. -/
structure Faults where
  openat : Tier → Nat → Bool
  renameat : Tier → Nat → Bool
  unlinkat : Tier → Nat → Bool
  pwrite : Tier → Nat → Option Nat

/-- Every call succeeds. -/
def Faults.never : Faults := ⟨fun _ _ => false, fun _ _ => false, fun _ _ => false, fun _ _ => none⟩

/-- Directories and inodes. -/
structure FileSystem where
  dir : Path → Option Nat
  file : Nat → File
  next : Nat
  dir_lt : ∀ {path ino}, dir path = some ino → ino < next
  dir_injective : ∀ {path path' ino}, dir path = some ino → dir path' = some ino → path = path'

namespace FileSystem

/-- The wiped pools. -/
def empty : FileSystem where
  dir := fun _ => none
  file := fun _ => File.empty
  next := 0
  dir_lt h := by cases h
  dir_injective h := by cases h

variable (fs : FileSystem)

/-- Create an empty file at `path`. -/
def create (path : Path) : FileSystem where
  dir := Function.update fs.dir path (some fs.next)
  file := Function.update fs.file fs.next File.empty
  next := fs.next + 1
  dir_lt := by
    intro p ino h
    by_cases hp : p = path
    · subst hp
      simp only [Function.update_self, Option.some.injEq] at h
      omega
    · rw [Function.update_of_ne hp] at h
      have := fs.dir_lt h
      omega
  dir_injective := by
    intro p q ino hp hq
    by_cases hpp : p = path <;> by_cases hqp : q = path
    · rw [hpp, hqp]
    · rw [hpp, Function.update_self, Option.some.injEq] at hp
      rw [Function.update_of_ne hqp] at hq
      have := fs.dir_lt hq
      omega
    · rw [hqp, Function.update_self, Option.some.injEq] at hq
      rw [Function.update_of_ne hpp] at hp
      have := fs.dir_lt hp
      omega
    · rw [Function.update_of_ne hpp] at hp
      rw [Function.update_of_ne hqp] at hq
      exact fs.dir_injective hp hq

/-- Remove the entry at `path`; open descriptors keep the inode. -/
def unlink (path : Path) : FileSystem where
  dir := Function.update fs.dir path none
  file := fs.file
  next := fs.next
  dir_lt := by
    intro p ino h
    by_cases hp : p = path
    · simp [hp] at h
    · rw [Function.update_of_ne hp] at h
      exact fs.dir_lt h
  dir_injective := by
    intro p q ino hp hq
    by_cases hpp : p = path
    · simp [hpp] at hp
    · by_cases hqp : q = path
      · simp [hqp] at hq
      · rw [Function.update_of_ne hpp] at hp
        rw [Function.update_of_ne hqp] at hq
        exact fs.dir_injective hp hq

/-- Move the entry at `src` over `dst`. -/
def move (src dst : Path) : FileSystem where
  dir := Function.update (fs.unlink src).dir dst (fs.dir src)
  file := fs.file
  next := fs.next
  dir_lt := by
    intro p ino h
    by_cases hp : p = dst
    · rw [hp, Function.update_self] at h
      exact fs.dir_lt h
    · rw [Function.update_of_ne hp] at h
      exact (fs.unlink src).dir_lt h
  dir_injective := by
    -- the moved inode is no longer found under any other path
    have hmoved : ∀ {p ino}, (fs.unlink src).dir p = some ino → fs.dir src ≠ some ino := by
      intro p ino hp hsrc
      by_cases hps : p = src
      · simp [unlink, hps] at hp
      · simp only [unlink, Function.update_of_ne hps] at hp
        exact hps (fs.dir_injective hp hsrc)
    intro p q ino hp hq
    by_cases hpp : p = dst <;> by_cases hqp : q = dst
    · rw [hpp, hqp]
    · rw [hpp, Function.update_self] at hp
      rw [Function.update_of_ne hqp] at hq
      exact absurd hp (hmoved hq)
    · rw [hqp, Function.update_self] at hq
      rw [Function.update_of_ne hpp] at hp
      exact absurd hq (hmoved hp)
    · rw [Function.update_of_ne hpp] at hp
      rw [Function.update_of_ne hqp] at hq
      exact (fs.unlink src).dir_injective hp hq

/-- `openat`: the existing file, or a new one under `O_CREAT`. -/
def openat (path : Path) (create : Bool) : Option (Nat × FileSystem) :=
  match fs.dir path with
  | some ino => some (ino, fs)
  | none => if create then some (fs.next, fs.create path) else none

/-- `pwrite` through an open descriptor. -/
def pwrite (ino off n : Nat) (src : Nat → UInt8) : FileSystem :=
  { fs with file := Function.update fs.file ino ((fs.file ino).pwrite off n src) }

theorem create_dir (path : Path) :
    (fs.create path).dir = Function.update fs.dir path (some fs.next) := rfl

theorem unlink_dir (path : Path) : (fs.unlink path).dir = Function.update fs.dir path none := rfl

theorem move_dir (src dst : Path) :
    (fs.move src dst).dir = Function.update (fs.unlink src).dir dst (fs.dir src) := rfl

@[simp] theorem create_next (path : Path) :
    (fs.create path).next = fs.next + 1 := rfl

end FileSystem

/-- An object's open descriptors: an inode for each drive that holds a part of it. -/
abbrev ObjectFiles := Nat → Option Nat

/-- The empty descriptor set. -/
def ObjectFiles.none : ObjectFiles := fun _ => Option.none

/-- The bodies behind a descriptor set; a drive without a descriptor has no bytes. -/
def FileSystem.bodies (fs : FileSystem) (fds : ObjectFiles) (drive : Nat) : File :=
  match fds drive with
  | some ino => fs.file ino
  | Option.none => File.empty

end GoblinStore
