import GoblinStore.Lib.Runs
import GoblinStore.Storage.Index
import GoblinStore.Storage.Layout
import GoblinStore.Storage.S3Fifo
import GoblinStore.Storage.StripedIo

/-!
# The tier manager

A shallow embedding of `TierManager` and `StoreHandle`. Every operation is one atomic step on
`State`: the parts of an operation that the source runs outside the storage lock touch only what
the operation owns (its scratch files, its staging buffer, its reserved head). `Op` is one step of
one thread; the clock, the reaper's two phases and the failures of system calls are part of it.
Only `touch_ttl`, which takes no lock, can also fall inside of a commit (`LockStep`).

Four fields of the state are ghosts that no operation reads back: `history` records commits and
drops for the abstract map, `ramLog` the calls of the head pool's allocator, `held` the pins
that readers hold, and a handle's `body` the bytes written to it so far.
-/

namespace GoblinStore

open GoblinStore.Lib GoblinStore.Core

/-- The part of the server configuration that the store reads, with the checks of `validate` that
the store relies on. `validate` bounds the tier sizes by 1 GiB; what matters of that bound is that
the length of a head fits the 32 bits of a `HeadLoc`. -/
structure Config where
  tiers : TierSizes
  ram_head_lt : tiers.ramHead < wrap32
  totalBytes : Nat
  blockBytes : Nat
  block_pow : ∃ k, blockBytes = 2 ^ k
  block_ge : kDeviceBlock ≤ blockBytes
  total_ge : blockBytes ≤ totalBytes
  ioChunk : Nat
  chunk_pow : ∃ k, ioChunk = 2 ^ k
  chunk_ge : kDeviceBlock ≤ ioChunk
  writeBuffers : Nat
  write_buffers_pos : 0 < writeBuffers
  ssd : DrivePool
  ssd_aligned : kDeviceBlock ∣ ssd.stripeUnit
  hdd : Option DrivePool
  hdd_aligned : ∀ pool ∈ hdd, kDeviceBlock ∣ pool.stripeUnit
  maxObjects : Nat

namespace Config

/-- There is an HDD pool. -/
def threeLayer (cfg : Config) : Bool := cfg.hdd.isSome

/-- The layout of an object of this size. -/
def layout (cfg : Config) (size : Nat) : ObjectLayout :=
  computeLayout size cfg.tiers cfg.threeLayer

/-- The expected number of resident heads. -/
def capHint (cfg : Config) : Nat :=
  if cfg.tiers.ramHead ≠ 0 then cfg.totalBytes / cfg.tiers.ramHead else 1

end Config

/-- The state of a pinned head region. -/
structure RegionPin where
  len : Nat
  refcount : Nat
  orphaned : Bool
  deriving DecidableEq, Repr

/-- The key of a region in the pin table. -/
def regionId (block offset : Nat) : Nat := block <<< 32 ||| offset

/-- An uncommitted store. Its scratch files carry the suffix `.tmp.N` of its number in the
handle table. -/
structure StoreHandle where
  digest : Digest
  layout : ObjectLayout
  ssd : ObjectFiles
  hdd : Option ObjectFiles
  head : Option Region
  stage : Nat
  stageFill : Nat
  flushed : Nat
  off : Nat
  /-- ghost: the bytes of the writes that succeeded -/
  body : ByteView
  /-- ghost: a write or a commit failed on the disk -/
  failed : Bool

/-- A committed version of an object. -/
structure Version where
  size : Nat
  flags : Nat
  etag : Nat
  body : Nat → UInt8

/-- What the abstract map sees. -/
inductive Event where
  | put (digest : Digest) (version : Version)
  | removed (digest : Digest)
  | reaped (digest : Digest)
  | evicted (digest : Digest)

/-- A call of the head pool's allocator that changed it. -/
inductive RamEvent where
  | alloc (region : Region)
  | free (region : Region)

/-- The shared state of a tier manager and of the handles and pins that its callers hold. -/
structure State where
  index : Index
  ram : BufferPool
  /-- the bytes of the head pool, by block and offset -/
  ramBytes : Nat → Nat → UInt8
  writePool : BlockPool
  /-- the bytes of the staging buffers, by buffer and offset -/
  stageBytes : Nat → Nat → UInt8
  policy : S3Fifo
  objectPolicy : S3Fifo
  fs : FileSystem
  storeSeq : Nat
  etagSeq : Nat
  anyTtl : Bool
  /-- A count is at most the number of open connections, so it never wraps. -/
  pins : Table Nat RegionPin
  handles : Table Nat StoreHandle
  /-- the digests that a reaper has collected and not yet removed -/
  reaping : List Digest
  now : Nat
  pinSeq : Nat
  held : Table Nat Region
  history : List Event
  ramLog : List RamEvent

namespace State

-- the functions below are methods: the configuration and the object come first
variable (cfg : Config) (σ : State)

/-- A tier manager just opened on wiped pools. -/
def init : State where
  index := ∅
  ram := BufferPool.create cfg.blockBytes (cfg.totalBytes / cfg.blockBytes) kDeviceBlock
  ramBytes := fun _ _ => 0
  writePool := BlockPool.create cfg.ioChunk cfg.writeBuffers
  stageBytes := fun _ _ => 0
  policy := S3Fifo.create cfg.capHint
  objectPolicy := S3Fifo.create (if cfg.maxObjects ≠ 0 then cfg.maxObjects else cfg.capHint)
  fs := FileSystem.empty
  storeSeq := 0
  etagSeq := 0
  anyTtl := false
  pins := ∅
  handles := ∅
  reaping := []
  now := 0
  pinSeq := 0
  held := ∅
  history := []
  ramLog := []

/-! ## Files of an object -/

/-- Open the SSD files and, for an object with a tail, the HDD files. An empty extent opens no
file. -/
def openFiles (fs : FileSystem) (faults : Faults) (d : Digest)
    (layout : ObjectLayout) (create : Bool) (suffix : Option Nat) :
    Option (ObjectFiles × Option ObjectFiles) × FileSystem :=
  match Pool.openObject fs faults .ssd cfg.ssd d layout.ssdBytes create suffix with
  | (none, fs) => (none, fs)
  | (some ssd, fs) =>
      match cfg.hdd with
      | none => (some (ssd, none), fs)
      | some pool =>
          if layout.hddBytes = 0 then (some (ssd, none), fs)
          else
            match Pool.openObject fs faults .hdd pool d layout.hddBytes create suffix with
            | (none, fs) => (none, fs)
            | (some hdd, fs) => (some (ssd, some hdd), fs)

/-- Rename the scratch files of both tiers over the live names. -/
def publishFiles (fs : FileSystem) (faults : Faults) (d : Digest)
    (layout : ObjectLayout) (suffix : Nat) : Bool × FileSystem :=
  match Pool.publish fs faults .ssd cfg.ssd d layout.ssdBytes suffix with
  | (false, fs) => (false, fs)
  | (true, fs) =>
      match cfg.hdd with
      | none => (true, fs)
      | some pool => Pool.publish fs faults .hdd pool d layout.hddBytes suffix

/-- Unlink the files of both tiers. -/
def unlinkFiles (fs : FileSystem) (faults : Faults) (d : Digest)
    (layout : ObjectLayout) (suffix : Option Nat) : FileSystem :=
  let fs := Pool.unlinkObject fs faults .ssd cfg.ssd d layout.ssdBytes suffix
  match cfg.hdd with
  | none => fs
  | some pool => Pool.unlinkObject fs faults .hdd pool d layout.hddBytes suffix

/-! ## Head regions -/

/-- Return a region to the head pool. -/
def deallocate (r : Region) : State :=
  { σ with ram := σ.ram.deallocate r.block r.offset r.len, ramLog := .free r :: σ.ramLog }

/-- Free a head's RAM, or orphan it when a reader has it pinned. -/
def freeHeadRegion (r : Region) : State :=
  match σ.pins.lookup (regionId r.block r.offset) with
  | some p =>
      if 0 < p.refcount then
        { σ with pins := σ.pins.insert (regionId r.block r.offset) { p with orphaned := true } }
      else σ.deallocate r
  | none => σ.deallocate r

/-- Evict the head of a victim of the head policy; a RAM-only victim goes altogether. -/
def evictHead (victim : Digest) : State :=
  match σ.index.lookup victim with
  | none => σ
  | some vm =>
      match vm.head with
      | none => σ
      | some r =>
          let σ := σ.freeHeadRegion r
          if vm.size ≤ cfg.tiers.ramHead then
            { σ with
              objectPolicy := σ.objectPolicy.remove victim
              index := σ.index.erase victim
              history := .evicted victim :: σ.history }
          else { σ with index := Index.setHead σ.index victim none }

/-- Allocate a head, evicting cold heads to make room. An iteration that does not end the loop
takes a resident from the policy. -/
def reserveLoop (cfg : Config) (headLen : Nat) : Nat → State → Option Region × State
  | 0, σ => (none, σ)
  | fuel + 1, σ =>
      match σ.ram.allocate headLen with
      | some (r, ram) => (some r, { σ with ram := ram, ramLog := .alloc r :: σ.ramLog })
      | none =>
          match σ.policy.evict with
          | (none, policy) => (none, { σ with policy := policy })
          | (some victim, policy) =>
              reserveLoop cfg headLen fuel (evictHead cfg { σ with policy := policy } victim)

/-- Reserve the RAM head of a new version, if it has one. -/
def reserveHead (cfg : Config) (σ : State) (headLen : Nat) : Option Region × State :=
  if 0 < headLen then
    reserveLoop cfg (headLen % wrap32) (σ.policy.items.keys.length + 1) σ
  else (none, σ)

/-! ## Stores -/

/-- Open a store of `size` bytes; the reply is the number of the new handle. -/
def beginStore (cfg : Config) (σ : State) (d : Digest) (size : Nat) (faults : Faults) :
    Except Errc Nat × State :=
  let layout := cfg.layout size
  let suffix := σ.storeSeq
  match openFiles cfg σ.fs faults d layout true (some suffix) with
  | (none, fs) => (.error .ioError, { σ with storeSeq := suffix + 1, fs := fs })
  | (some (ssd, hdd), fs) =>
      match σ.writePool.acquire with
      | none =>
          (.error .wouldBlock, { σ with
            storeSeq := suffix + 1
            fs := unlinkFiles cfg fs faults d layout (some suffix) })
      | some (stage, writePool) =>
          let headLen := min size cfg.tiers.ramHead
          let reserved := reserveHead cfg
            { σ with storeSeq := suffix + 1, fs := fs, writePool := writePool } headLen
          let σ := reserved.2
          if 0 < headLen ∧ layout.ssdBytes = 0 ∧ reserved.1 = none then
            (.error .wouldBlock, { σ with writePool := σ.writePool.release stage })
          else
            (.ok suffix, { σ with
              handles := σ.handles.insert suffix
                ⟨d, layout, ssd, hdd, reserved.1, stage, 0, 0, 0, ByteView.empty, false⟩ })

/-- What a write works on: the handle, its staging buffer and the file system. -/
structure Staging where
  handle : StoreHandle
  stage : Nat → UInt8
  fs : FileSystem

/-- The SSD part of `flush_block`. -/
def flushSsd (faults : Faults) (w : Staging) (n : Nat) : Bool × FileSystem :=
  let h := w.handle
  let o := h.flushed
  let ssdStop := min ((o + n) % wrap64) h.layout.ssdExtent
  if o < ssdStop then
    stripedPwrite w.fs (faults.pwrite .ssd o) cfg.ssd h.digest.bucket h.ssd o (ssdStop - o) w.stage
  else (true, w.fs)

/-- The HDD part of `flush_block`. -/
def flushHdd (faults : Faults) (w : Staging) (n : Nat) : Bool × FileSystem :=
  let h := w.handle
  let o := h.flushed
  match cfg.hdd, h.hdd with
  | some pool, some fds =>
      if h.layout.ssdBytes < (o + n) % wrap64 then
        let start := max o h.layout.ssdBytes
        stripedPwrite w.fs (faults.pwrite .hdd (start - h.layout.ssdBytes)) pool h.digest.bucket fds
          (start - h.layout.ssdBytes) ((o + n) % wrap64 - start) fun i => w.stage (start - o + i)
      else (true, w.fs)
  | _, _ => (true, w.fs)

/-- Write the first `n` staged bytes at disk offset `flushed`, split over the two tiers. -/
def flushBlock (faults : Faults) (w : Staging) (n : Nat) : Bool × Staging :=
  match flushSsd cfg faults w n with
  | (false, fs) => (false, { w with fs := fs })
  | (true, fs) =>
      match flushHdd cfg faults { w with fs := fs } n with
      | (false, fs) => (false, { w with fs := fs })
      | (true, fs) =>
          (true, { w with
            fs := fs
            handle := { w.handle with
              flushed := (w.handle.flushed + n) % wrap64, stageFill := 0 } })

/-- Copy `take` bytes of the chunk behind the staged ones. -/
def Staging.copyIn (w : Staging) (chunk : Nat → UInt8) (pos take : Nat) : Staging :=
  { w with
    stage := blit w.stage w.handle.stageFill take fun i => chunk (pos + i)
    handle := { w.handle with stageFill := w.handle.stageFill + take } }

/-- The staging loop of `write`: `remaining` bytes of the chunk from `pos` on. After the first
iteration every iteration stages at least one byte. -/
def stageLoop (cfg : Config) (faults : Faults) (chunk : Nat → UInt8) :
    Nat → Nat → Nat → Staging → Bool × Staging
  | 0, _, _, w => (false, w)
  | fuel + 1, pos, remaining, w =>
      if remaining = 0 then (true, w)
      else
        let take := min remaining (cfg.ioChunk - w.handle.stageFill)
        let w := w.copyIn chunk pos take
        if w.handle.stageFill = cfg.ioChunk then
          match flushBlock cfg faults w cfg.ioChunk with
          | (false, w) => (false, w)
          | (true, w) => stageLoop cfg faults chunk fuel (pos + take) (remaining - take) w
        else stageLoop cfg faults chunk fuel (pos + take) (remaining - take) w

/-- Record that the operation failed. -/
def Staging.spoil (w : Staging) : Staging := { w with handle := { w.handle with failed := true } }

/-- Put back what a write worked on. -/
def putStaging (id : Nat) (w : Staging) : State :=
  { σ with
    handles := σ.handles.insert id w.handle
    stageBytes := Function.update σ.stageBytes w.handle.stage w.stage
    fs := w.fs }

/-- The copy of a chunk into the reserved head. -/
def fillHead (h : StoreHandle) (chunk : ByteView) : State :=
  match h.head with
  | none => σ
  | some r =>
      let hend := min (h.off + chunk.size) r.len
      if h.off < hend then
        { σ with
          ramBytes := Function.update σ.ramBytes r.block
            (blit (σ.ramBytes r.block) (r.offset + h.off) (hend - h.off) chunk.data) }
      else σ

/-- Append the next bytes of the value. -/
def write (id : Nat) (chunk : ByteView) (faults : Faults) :
    Except Errc Unit × State :=
  match σ.handles.lookup id with
  | none => (.error .invalidArgument, σ)
  | some h =>
      if h.layout.size < h.off + chunk.size then (.error .invalidArgument, σ)
      else
        let σ := σ.fillHead h chunk
        let done (h : StoreHandle) : StoreHandle :=
          { h with off := h.off + chunk.size, body := h.body.append chunk }
        if h.layout.ssdBytes = 0 ∧ h.layout.hddBytes = 0 then
          (.ok (), { σ with handles := σ.handles.insert id (done h) })
        else
          match stageLoop cfg faults chunk.data (chunk.size + 2) 0 chunk.size
              ⟨h, σ.stageBytes h.stage, σ.fs⟩ with
          | (false, w) => (.error .ioError, σ.putStaging id w.spoil)
          | (true, w) => (.ok (), σ.putStaging id { w with handle := done w.handle })

/-- Roll back a handle that was not committed: free its head and staging buffer and delete its
scratch files. -/
def abort (id : Nat) (faults : Faults) : State :=
  match σ.handles.lookup id with
  | none => σ
  | some h =>
      let σ :=
        match h.head with
        | some r => σ.deallocate r
        | none => σ
      { σ with
        writePool := σ.writePool.release h.stage
        fs := unlinkFiles cfg σ.fs faults h.digest h.layout (some id)
        handles := σ.handles.erase id }

/-! ## Drops -/

/-- Free the head, unlink the files and forget the object; `event` says on whose behalf. -/
def dropObject (d : Digest) (faults : Faults) (event : Event) : State :=
  match σ.index.lookup d with
  | none => σ
  | some m =>
      let σ :=
        match m.head with
        | some r =>
            let σ := σ.freeHeadRegion r
            { σ with policy := σ.policy.remove d }
        | none => σ
      { σ with
        objectPolicy := σ.objectPolicy.remove d
        fs := unlinkFiles cfg σ.fs faults d (cfg.layout m.size) none
        index := σ.index.erase d
        history := event :: σ.history }

/-- Evict whole objects while there are more than the bound allows. An iteration that does not
end the loop takes a resident from the object policy. -/
def boundLoop (cfg : Config) (faults : Faults) : Nat → State → State
  | 0, σ => σ
  | fuel + 1, σ =>
      if cfg.maxObjects ≠ 0 ∧ cfg.maxObjects < Index.size σ.index then
        match σ.objectPolicy.evict with
        | (none, policy) => { σ with objectPolicy := policy }
        | (some victim, policy) =>
            boundLoop cfg faults fuel
              (dropObject cfg { σ with objectPolicy := policy } victim faults (.evicted victim))
      else σ

variable (cfg : Config) (σ : State)

/-- Evict whole objects if over the limit. -/
def enforceObjectBound (faults : Faults) : State :=
  boundLoop cfg faults (σ.objectPolicy.items.keys.length + 1) σ

/-- Remove an object on a client's request. -/
def remove (d : Digest) (faults : Faults) : Bool × State :=
  match σ.index.lookup d with
  | none => (false, σ)
  | some _ => (true, dropObject cfg σ d faults (.removed d))

/-- The first phase of `reap_expired`: collect the expired digests. -/
def reapScan : State :=
  if σ.anyTtl then { σ with reaping := σ.reaping ++ Index.expiredKeys σ.index σ.now } else σ

/-- The second phase of `reap_expired`, for one collected digest. -/
def reapNext (d : Digest) (faults : Faults) : State :=
  if d ∈ σ.reaping then
    dropObject cfg { σ with reaping := σ.reaping.erase d } d faults (.reaped d)
  else σ

/-! ## Commit -/

/-- Zero the staging buffer from the fill up to `padded`. -/
def Staging.zeroTail (w : Staging) (padded : Nat) : Staging :=
  { w with stage := blit w.stage w.handle.stageFill (padded - w.handle.stageFill) fun _ => 0 }

/-- The flush of the trailing partial block, zero-padded to the device block. -/
def flushTail (faults : Faults) (w : Staging) : Bool × Staging :=
  if 0 < w.handle.stageFill then
    let padded := alignUp w.handle.stageFill kDeviceBlock
    flushBlock cfg faults (w.zeroTail padded) padded
  else (true, w)

/-- The compare-and-swap check of `commit` against the indexed version. -/
def casMismatch (old : Option ObjectMeta) (now casExpected : Nat) : Bool :=
  decide (casExpected ≠ 0) &&
    match old with
    | none => true
    | some m => m.isExpired now || decide (m.etag ≠ casExpected)

/-- Retire the head of the version that is replaced. -/
def retireHead (d : Digest) (old : Option ObjectMeta) : State :=
  match old.bind (·.head) with
  | some r =>
      let σ := σ.freeHeadRegion r
      { σ with policy := σ.policy.remove d }
  | none => σ

/-- Index the new version and release the handle. -/
def install (id : Nat) (h : StoreHandle) (flags expiry : Nat) (isNew : Bool) : State :=
  let etag := (σ.etagSeq + 1) % wrap64
  { σ with
    etagSeq := etag
    anyTtl := σ.anyTtl || decide (expiry ≠ 0)
    index := σ.index.insert h.digest ⟨h.layout.size, flags, expiry, etag, h.head⟩
    policy := if h.head.isSome then σ.policy.insert h.digest else σ.policy
    objectPolicy := if isNew then σ.objectPolicy.insert h.digest else σ.objectPolicy
    writePool := σ.writePool.release h.stage
    handles := σ.handles.erase id
    history := .put h.digest ⟨h.layout.size, flags, etag, h.body.data⟩ :: σ.history }

/-- The part of `commit` under the exclusive lock. -/
def publishVersion (id : Nat) (h : StoreHandle)
    (flags expiry casExpected : Nat) (faults : Faults) : Except Errc Unit × State :=
  let old := σ.index.lookup h.digest
  if casMismatch old σ.now casExpected then (.error .casMismatch, σ)
  else
    match publishFiles cfg σ.fs faults h.digest h.layout id with
    | (false, fs) =>
        (.error .ioError, { σ with
          fs := fs
          handles := σ.handles.insert id { h with failed := true } })
    | (true, fs) =>
        let σ := retireHead { σ with fs := fs } h.digest old
        let σ := install σ id h flags expiry old.isNone
        (.ok (), enforceObjectBound cfg σ faults)

/-- Publish the value of a handle. -/
def commit (id flags expiry casExpected : Nat) (faults : Faults) :
    Except Errc Unit × State :=
  match σ.handles.lookup id with
  | none => (.error .invalidArgument, σ)
  | some h =>
      if h.off ≠ h.layout.size then (.error .invalidArgument, σ)
      else
        match flushTail cfg faults ⟨h, σ.stageBytes h.stage, σ.fs⟩ with
        | (false, w) => (.error .ioError, σ.putStaging id w.spoil)
        | (true, w) =>
            publishVersion cfg (σ.putStaging id w) id w.handle flags expiry casExpected faults

/-! ## Hits, pins and snapshots -/

/-- Record a cache hit. -/
def touch (d : Digest) : State :=
  { σ with policy := σ.policy.touch d, objectPolicy := σ.objectPolicy.touch d }

/-- Overwrite an object's expiry in place. -/
def touchTtl (d : Digest) (expiry : Nat) : Bool × State :=
  match σ.index.lookup d with
  | none => (false, σ)
  | some _ =>
      (true, { σ with
        index := Index.updateExpiry σ.index d expiry
        anyTtl := σ.anyTtl || decide (expiry ≠ 0) })

/-- Count a reader of a resident head; the reader's pin is number `pinSeq`. -/
def pinRegion (r : Region) : State :=
  let p := (σ.pins.lookup (regionId r.block r.offset)).getD ⟨0, 0, false⟩
  { σ with
    pins := σ.pins.insert (regionId r.block r.offset) { p with
      len := r.len, refcount := p.refcount + 1 }
    held := σ.held.insert σ.pinSeq r
    pinSeq := σ.pinSeq + 1 }

/-- Pin a resident head and record the hit. -/
def pinHead (d : Digest) : Option Region × State :=
  match σ.index.lookup d with
  | none => (none, σ)
  | some m =>
      let σ := { σ with objectPolicy := σ.objectPolicy.touch d }
      match m.head with
      | none => (none, σ)
      | some r => (some r, pinRegion { σ with policy := σ.policy.touch d } r)

/-- Give back pin number `pin`; the last pin of an orphaned region frees it. -/
def unpinHead (pin : Nat) : State :=
  match σ.held.lookup pin with
  | none => σ
  | some r =>
      let σ := { σ with held := σ.held.erase pin }
      match σ.pins.lookup (regionId r.block r.offset) with
      | none => σ
      | some p =>
          if p.refcount - 1 = 0 then
            let σ := if p.orphaned then σ.deallocate r else σ
            { σ with pins := σ.pins.erase (regionId r.block r.offset) }
          else
            { σ with
              pins := σ.pins.insert (regionId r.block r.offset)
                { p with refcount := p.refcount - 1 } }

/-- The open files of a streaming read, with the size and layout of the version. -/
structure ReadStream where
  digest : Digest
  size : Nat
  layout : ObjectLayout
  ssd : ObjectFiles
  hdd : Option ObjectFiles

/-- What `open_snapshot` captures under the lock. -/
structure Snapshot where
  info : ObjectMeta
  pin : Option Region
  rs : Option ReadStream

/-- The disk files of a snapshot, if a tail beyond the head remains: `none` is an open failure. -/
def snapshotFiles (d : Digest) (m : ObjectMeta) (faults : Faults) :
    Option (Option ReadStream) :=
  if (m.head.map (·.len)).getD 0 < m.size then
    match (openFiles cfg σ.fs faults d (cfg.layout m.size) false none).1 with
    | none => none
    | some (ssd, hdd) => some (some ⟨d, m.size, cfg.layout m.size, ssd, hdd⟩)
  else some none

/-- Capture metadata, head pin and open files of one version. -/
def openSnapshot (d : Digest) (faults : Faults) :
    Option Snapshot × State :=
  match σ.index.lookup d with
  | none => (none, σ)
  | some m =>
      if m.isExpired σ.now then (none, σ)
      else
        let σ := { σ with objectPolicy := σ.objectPolicy.touch d }
        match snapshotFiles cfg σ d m faults with
        | none => (none, σ)
        | some rs =>
            match m.head with
            | none => (some ⟨m, none, rs⟩, σ)
            | some r => (some ⟨m, some r, rs⟩, pinRegion { σ with policy := σ.policy.touch d } r)

end State

/-! ## Runs -/

/-- One atomic step of one thread. -/
inductive Op where
  | beginStore (d : Digest) (size : Nat) (faults : Faults)
  | write (id : Nat) (chunk : ByteView) (faults : Faults)
  | commit (id flags expiry casExpected : Nat) (faults : Faults)
  | abort (id : Nat) (faults : Faults)
  | remove (d : Digest) (faults : Faults)
  | reapScan
  | reapNext (d : Digest) (faults : Faults)
  | touch (d : Digest)
  | touchTtl (d : Digest) (expiry : Nat)
  | pinHead (d : Digest)
  | unpinHead (pin : Nat)
  | openSnapshot (d : Digest) (faults : Faults)
  | clock (now : Nat)

/-- The state after a step. -/
def State.apply (cfg : Config) (σ : State) : Op → State
  | .beginStore d size faults => (σ.beginStore cfg d size faults).2
  | .write id chunk faults => (σ.write cfg id chunk faults).2
  | .commit id flags expiry casExpected faults =>
      (σ.commit cfg id flags expiry casExpected faults).2
  | .abort id faults => σ.abort cfg id faults
  | .remove d faults => (σ.remove cfg d faults).2
  | .reapScan => σ.reapScan
  | .reapNext d faults => σ.reapNext cfg d faults
  | .touch d => σ.touch d
  | .touchTtl d expiry => (σ.touchTtl d expiry).2
  | .pinHead d => (σ.pinHead d).2
  | .unpinHead pin => σ.unpinHead pin
  | .openSnapshot d faults => (σ.openSnapshot cfg d faults).2
  | .clock now => { σ with now := now }

/-- The state after a run from the start of the store. -/
def State.after (cfg : Config) (ops : List Op) : State := run (State.apply cfg) (State.init cfg) ops

theorem State.after_append (cfg : Config) (before ops : List Op) :
    State.after cfg (before ++ ops) = run (State.apply cfg) (State.after cfg before) ops :=
  run_append _ _ _

end GoblinStore
