import GoblinStore.Core.BufferPool
import GoblinStore.Lib.Table

/-!
# The in-RAM object index

The shards of the index are independent maps under their own locks, and a digest always falls in
the same shard, so one table models them. A head locator is a `Region`; `kNone` is `none`.
-/

namespace GoblinStore

open GoblinStore.Lib GoblinStore.Core

/-- Per-object metadata. -/
structure ObjectMeta where
  size : Nat
  flags : Nat
  expiry : Nat
  etag : Nat
  head : Option Region
  deriving DecidableEq, Repr

/-- The object's TTL has passed; an expiry of zero means never. -/
def ObjectMeta.isExpired (m : ObjectMeta) (now : Nat) : Bool :=
  decide (m.expiry ≠ 0 ∧ m.expiry ≤ now)

theorem ObjectMeta.is_expired_iff {m : ObjectMeta} {now : Nat} :
    m.isExpired now = true ↔ m.expiry ≠ 0 ∧ m.expiry ≤ now := decide_eq_true_iff

/-- The index. -/
abbrev Index := Table Digest ObjectMeta

namespace Index

/-- Replace the head locator of an indexed object. -/
def setHead (index : Index) (d : Digest) (head : Option Region) : Index :=
  match index.lookup d with
  | some m => index.insert d { m with head := head }
  | none => index

/-- Overwrite the TTL of an indexed object. -/
def updateExpiry (index : Index) (d : Digest) (expiry : Nat) : Index :=
  match index.lookup d with
  | some m => index.insert d { m with expiry := expiry }
  | none => index

/-- The digests whose TTL has passed. -/
def expiredKeys (index : Index) (now : Nat) : List Digest :=
  index.keys.filter fun d => (index.lookup d).any (·.isExpired now)

/-- The number of indexed objects. -/
def size (index : Index) : Nat := index.keys.length

end Index

end GoblinStore
