import GoblinStore.Lib.Gather
import GoblinStore.Storage.StoredObjects

/-!
# The read paths

`read` copies the resident head and opens the files under the lock, then reads the SSD part and
the HDD part without it. `plan` copies the head of the version that is indexed at that moment and
lists the disk reads of one piece against files opened earlier. Both lay the segments of
`plan_reads` out one after the other in the caller's buffer; `Placed.awaiting` says what those reads
bring when the files hold an extent.
-/

namespace GoblinStore

open GoblinStore.Lib GoblinStore.Core Pool

/-- One disk read: `len` bytes at `fileOff` of the file behind `fd`, to `outOff` of the buffer. -/
structure Seg where
  fd : Option Nat
  fileOff : Nat
  len : Nat
  outOff : Nat
  deriving DecidableEq, Repr

/-- Segments laid out one after the other in the buffer. -/
def segLoop (fds : ObjectFiles) : List ReadSegment → Nat → List Seg
  | [], _ => []
  | s :: rest, outOff =>
      ⟨fds s.drive, s.fileOffset, s.length, outOff⟩ :: segLoop fds rest (outOff + s.length)

/-- The disk reads of a tier-local range, into the buffer from `outBase` on. -/
def addDriveSegs (pool : DrivePool) (bucket : Nat) (fds : ObjectFiles)
    (tierOff len outBase : Nat) : List Seg :=
  segLoop fds (pool.planReads bucket tierOff len) outBase

/-- What a read moves: its bytes up to the end of the file. -/
def Seg.transfer (fs : FileSystem) (seg : Seg) : Transfer UInt8 :=
  match seg.fd with
  | none => ⟨seg.outOff, 0, fun _ => 0⟩
  | some ino => ⟨seg.outOff, (fs.file ino).available seg.fileOff seg.len,
      fun i => (fs.file ino).data (seg.fileOff + i)⟩

/-- The length of the resident head. -/
def ObjectMeta.headLen (m : ObjectMeta) : Nat := (m.head.map (·.len)).getD 0

/-- Copy the part of `[off, off + want)` that the resident head covers to the front of the
buffer. -/
def State.copyHead (σ : State) (m : ObjectMeta) (off want : Nat) (out : Nat → UInt8) :
    Nat → UInt8 :=
  match m.head with
  | none => out
  | some r =>
      if off < r.len then
        blit out 0 (min (off + want) r.len - off) fun i => σ.ramBytes r.block (r.offset + off + i)
      else out

/-! ## `read` -/

/-- What `read` holds when it gives the lock back. -/
structure ReadTask where
  want : Nat
  out : Nat → UInt8
  ssd : List Seg
  hdd : List Seg

namespace State

/-- The SSD reads of `read`; `none` is an open failure. The last block is read whole if the buffer
has room for it. -/
def ssdReads (cfg : Config) (σ : State) (d : Digest) (layout : ObjectLayout)
    (offset want ramEnd outLen : Nat) (faults : Faults) : Option (List Seg) :=
  let ssdBegin := max offset ramEnd
  let ssdStop := min (offset + want) layout.ssdBytes
  if ssdBegin < ssdStop then
    match (openObject σ.fs faults .ssd cfg.ssd d layout.ssdBytes false none).1 with
    | none => none
    | some fds =>
        let room := min (alignUp (ssdStop - ssdBegin) kDeviceBlock) (outLen - (ssdBegin - offset))
        some (addDriveSegs cfg.ssd d.bucket fds ssdBegin room (ssdBegin - offset))
  else some []

/-- The HDD reads of `read`. -/
def hddReads (cfg : Config) (σ : State) (d : Digest) (layout : ObjectLayout)
    (offset want outLen : Nat) (faults : Faults) : Option (List Seg) :=
  match cfg.hdd with
  | none => some []
  | some pool =>
      if 0 < layout.hddBytes ∧ layout.ssdBytes < offset + want then
        match (openObject σ.fs faults .hdd pool d layout.hddBytes false none).1 with
        | none => none
        | some fds =>
            let start := max offset layout.ssdBytes
            let room := min (alignUp (offset + want - start) kDeviceBlock)
              (outLen - (start - offset))
            some (addDriveSegs pool d.bucket fds (start - layout.ssdBytes) room (start - offset))
      else some []

/-- The part of `read` under the shared lock. -/
def readSnapshot (cfg : Config) (σ : State) (d : Digest) (offset outLen : Nat) (out : Nat → UInt8)
    (faults : Faults) : Except Errc ReadTask :=
  match σ.index.lookup d with
  | none => .error .notFound
  | some m =>
      if m.size ≤ offset then .ok ⟨0, out, [], []⟩
      else
        let layout := cfg.layout m.size
        let want := min outLen (m.size - offset)
        match ssdReads cfg σ d layout offset want m.headLen outLen faults with
        | none => .error .ioError
        | some ssd =>
            match hddReads cfg σ d layout offset want outLen faults with
            | none => .error .ioError
            | some hdd => .ok ⟨want, σ.copyHead m offset want out, ssd, hdd⟩

end State

/-- The most bytes that one call of the kernel moves. -/
def kMaxTransfer : Nat := 0x7ffff000

/-- The read that `submit_read` queues: the length is cast to 32 bits, and the kernel moves no more
than `kMaxTransfer` bytes. -/
def Seg.submitted (seg : Seg) : Seg := { seg with len := min (seg.len % wrap32) kMaxTransfer }

/-- `striped_read` when no call fails: every segment is read up to the end of its file, and the
number of bytes is not looked at. -/
def stripedRead (fs : FileSystem) : List Seg → (Nat → UInt8) → Option (Nat → UInt8)
  | [], out => some out
  | seg :: rest, out =>
      match seg.fd with
      | none => none
      | some _ => stripedRead fs rest ((seg.transfer fs).perform out)

variable {fs : FileSystem}

/-- A striped read of open files performs the transfers of its segments. -/
theorem striped_read_eq {segs : List Seg} (hopen : ∀ seg ∈ segs, seg.fd ≠ none)
    (out : Nat → UInt8) : stripedRead fs segs out =
      some ((segs.map (Seg.transfer fs)).foldl (fun buf t => t.perform buf) out) := by
  induction segs generalizing out with
  | nil => rfl
  | cons seg rest ih =>
      rw [stripedRead]
      split
      · rename_i hnone
        exact absurd hnone (hopen seg List.mem_cons_self)
      · exact ih (fun s hs => hopen s (List.mem_cons_of_mem seg hs)) _

/-- `read` with nothing happening between its locked part and its disk reads, which stop short only
where `submit_read` asks for less. -/
def State.read (cfg : Config) (σ : State) (d : Digest) (offset outLen : Nat) (out : Nat → UInt8)
    (faults : Faults) : Except Errc ByteView :=
  match State.readSnapshot cfg σ d offset outLen out faults with
  | .error e => .error e
  | .ok task =>
      match stripedRead σ.fs (task.ssd.map Seg.submitted) task.out with
      | none => .error .ioError
      | some out =>
          match stripedRead σ.fs (task.hdd.map Seg.submitted) out with
          | none => .error .ioError
          | some out => .ok ⟨task.want, out⟩

/-! ## `plan` -/

/-- The disk reads of one piece and the number of bytes the piece delivers. -/
structure Plan where
  total : Nat
  segs : List Seg

/-- The number of bytes a list of disk reads asks for. -/
def segBytes (segs : List Seg) : Nat := (segs.map (·.len)).sum

namespace State

/-- The SSD reads of a piece, from the files of the snapshot. -/
def planSsd (cfg : Config) (rs : ReadStream) (off want ramEnd : Nat) : List Seg :=
  let ssdBegin := max off ramEnd
  let ssdStop := min (off + want) rs.layout.ssdBytes
  if ssdBegin < ssdStop then
    addDriveSegs cfg.ssd rs.digest.bucket rs.ssd ssdBegin (ssdStop - ssdBegin) (ssdBegin - off)
  else []

/-- The HDD reads of a piece. -/
def planHdd (cfg : Config) (rs : ReadStream) (off want : Nat) : List Seg :=
  match cfg.hdd, rs.hdd with
  | some pool, some fds =>
      if rs.layout.ssdBytes < off + want then
        let start := max off rs.layout.ssdBytes
        addDriveSegs pool rs.digest.bucket fds (start - rs.layout.ssdBytes)
          (off + want - start) (start - off)
      else []
  | _, _ => []

/-- The length of the head that is indexed now. -/
def indexedHeadLen (σ : State) (d : Digest) : Nat :=
  ((σ.index.lookup d).map ObjectMeta.headLen).getD 0

/-- Copy what the head that is indexed now covers. -/
def copyIndexedHead (σ : State) (d : Digest) (off want : Nat) (out : Nat → UInt8) : Nat → UInt8 :=
  match σ.index.lookup d with
  | none => out
  | some m => σ.copyHead m off want out

/-- Plan the piece at `off` into a buffer of `outLen` bytes: the head of the version indexed now is
copied into the buffer, the rest is left to disk reads. -/
def plan (cfg : Config) (σ : State) (rs : ReadStream) (off outLen : Nat) (out : Nat → UInt8) :
    Plan × (Nat → UInt8) :=
  if rs.size ≤ off then (⟨0, []⟩, out)
  else
    let want := min outLen (rs.size - off)
    let ramEnd := σ.indexedHeadLen rs.digest
    let segs := planSsd cfg rs off want ramEnd ++ planHdd cfg rs off want
    (⟨min (off + want) ramEnd - off + segBytes segs, segs⟩,
      σ.copyIndexedHead rs.digest off want out)

end State

/-! ## What the disk reads bring -/

section Segments

variable {pool : DrivePool} {bucket : Nat} {fds : ObjectFiles} {fs : FileSystem} {seg : Seg}
  {tierOff len outBase : Nat}

theorem Seg.transfer_dst (fs : FileSystem) (seg : Seg) : (seg.transfer fs).dst = seg.outOff := by
  unfold Seg.transfer
  split <;> rfl

theorem Seg.transfer_len_le (fs : FileSystem) (seg : Seg) : (seg.transfer fs).len ≤ seg.len := by
  unfold Seg.transfer
  split
  · exact Nat.zero_le _
  · exact Nat.min_le_left _ _

/-- The first read of a range. -/
theorem add_drive_segs_first (hlen : 0 < len) :
    ⟨fds (pool.driveOf bucket tierOff), pool.fileOffsetOf tierOff,
      pool.segLen tierOff len, outBase⟩ ∈
      addDriveSegs pool bucket fds tierOff len outBase := by
  unfold addDriveSegs
  rw [DrivePool.plan_reads_cons hlen]
  exact List.mem_cons_self

/-- A read of the list starts at some offset `x` of the range and stays in one stripe unit. -/
theorem mem_add_drive_segs (hseg : seg ∈ addDriveSegs pool bucket fds tierOff len outBase) :
    ∃ x n, tierOff ≤ x ∧ x < tierOff + len ∧ n = tierOff + len - x ∧
      seg = ⟨fds (pool.driveOf bucket x), pool.fileOffsetOf x, pool.segLen x n,
        outBase + (x - tierOff)⟩ := by
  unfold addDriveSegs at hseg
  induction len using Nat.strongRecOn generalizing tierOff outBase with
  | ind len ih =>
      rcases Nat.eq_zero_or_pos len with rfl | hlen
      · cases hseg
      · have hpos := pool.seg_len_pos tierOff hlen
        have hle := pool.seg_len_le tierOff len
        rw [DrivePool.plan_reads_cons hlen, segLoop, List.mem_cons] at hseg
        rcases hseg with rfl | hrest
        · refine ⟨tierOff, len, le_rfl, by omega, by omega, ?_⟩
          rw [Nat.sub_self, Nat.add_zero]
        · obtain ⟨x, n, hlo, hhi, hn, heq⟩ := ih _ (by omega) hrest
          refine ⟨x, n, by omega, by omega, by omega, ?_⟩
          rw [heq, Seg.mk.injEq]
          refine ⟨rfl, rfl, rfl, ?_⟩
          dsimp only
          omega

/-- Every byte of the range is in one of the reads. -/
theorem add_drive_segs_cover {x : Nat} (hlo : tierOff ≤ x) (hhi : x < tierOff + len) :
    ∃ seg ∈ addDriveSegs pool bucket fds tierOff len outBase,
      ∃ y n, y ≤ x ∧ x < y + pool.segLen y n ∧
        seg = ⟨fds (pool.driveOf bucket y), pool.fileOffsetOf y, pool.segLen y n,
          outBase + (y - tierOff)⟩ ∧ tierOff ≤ y := by
  unfold addDriveSegs
  induction len using Nat.strongRecOn generalizing tierOff outBase with
  | ind len ih =>
      have hlen : 0 < len := by omega
      have hpos := pool.seg_len_pos tierOff hlen
      have hle := pool.seg_len_le tierOff len
      rw [DrivePool.plan_reads_cons hlen, segLoop]
      rcases Nat.lt_or_ge x (tierOff + pool.segLen tierOff len) with hfirst | hlater
      · refine ⟨_, List.mem_cons_self, tierOff, len, hlo, hfirst, ?_, le_rfl⟩
        rw [Nat.sub_self, Nat.add_zero]
      · obtain ⟨seg, hseg, y, n, hy, hend, heq, hge⟩ :=
          ih (len - pool.segLen tierOff len) (by omega) hlater (by omega)
        refine ⟨seg, List.mem_cons_of_mem _ hseg, y, n, hy, hend, ?_, by omega⟩
        rw [heq, Seg.mk.injEq]
        refine ⟨rfl, rfl, rfl, ?_⟩
        dsimp only
        omega

/-- The reads of a range stay in its part of the buffer. -/
theorem add_drive_segs_span {t : Transfer UInt8}
    (ht : t ∈ (addDriveSegs pool bucket fds tierOff len outBase).map (Seg.transfer fs)) {p : Nat}
    (hcov : t.Covers p) : outBase ≤ p ∧ p < outBase + len := by
  obtain ⟨seg, hseg, rfl⟩ := List.mem_map.1 ht
  have hlen := Seg.transfer_len_le fs seg
  obtain ⟨hlo, hhi⟩ := hcov
  rw [Seg.transfer_dst] at hlo hhi
  obtain ⟨x, n, hx, hend, rfl, rfl⟩ := mem_add_drive_segs hseg
  have hle := pool.seg_len_le x (tierOff + len - x)
  dsimp only at hlo hhi hlen
  omega

/-- Reads of no more bytes than one call moves are submitted as they are. -/
theorem add_drive_segs_submitted (h : min pool.stripeUnit len ≤ kMaxTransfer) :
    (addDriveSegs pool bucket fds tierOff len outBase).map Seg.submitted =
      addDriveSegs pool bucket fds tierOff len outBase := by
  refine (List.map_congr_left fun seg hseg => ?_).trans (List.map_id _)
  obtain ⟨x, n, hlo, -, rfl, rfl⟩ := mem_add_drive_segs hseg
  have hlen : pool.segLen x (tierOff + len - x) ≤ kMaxTransfer := by
    unfold DrivePool.segLen
    omega
  have hmod : pool.segLen x (tierOff + len - x) % wrap32 = pool.segLen x (tierOff + len - x) :=
    Nat.mod_eq_of_lt (Nat.lt_of_le_of_lt hlen (by decide))
  rw [id, Seg.submitted, hmod, Nat.min_eq_left hlen]

/-- The reads of a range ask for its bytes. -/
theorem add_drive_segs_bytes (pool : DrivePool) (bucket : Nat) (fds : ObjectFiles)
    (tierOff len outBase : Nat) : segBytes (addDriveSegs pool bucket fds tierOff len outBase) =
      len := by
  unfold addDriveSegs
  induction len using Nat.strongRecOn generalizing tierOff outBase with
  | ind len ih =>
      rcases Nat.eq_zero_or_pos len with rfl | hlen
      · rfl
      · have hpos := pool.seg_len_pos tierOff hlen
        have hle := pool.seg_len_le tierOff len
        rw [DrivePool.plan_reads_cons hlen, segLoop]
        have hrest := ih (len - pool.segLen tierOff len) (by omega)
          (tierOff + pool.segLen tierOff len)
          (outBase + pool.segLen tierOff len)
        simp only [segBytes, List.map_cons, List.sum_cons] at hrest ⊢
        omega

variable {content : Nat → UInt8}

/-- A read finds the byte of a placed position that lies in it. -/
theorem Placed.transfer_byte {lo hi : Nat}
    (h : Placed pool bucket lo hi content (fs.bodies fds)) (outBase : Nat) {x n y : Nat}
    (hlo : x ≤ y) (hhi : y < x + pool.segLen x n) (hfrom : lo ≤ y) (hto : y < hi) :
    ((⟨fds (pool.driveOf bucket x), pool.fileOffsetOf x, pool.segLen x n, outBase⟩ : Seg).transfer
        fs).Covers (outBase + (y - x)) ∧
      ((⟨fds (pool.driveOf bucket x), pool.fileOffsetOf x, pool.segLen x n, outBase⟩ : Seg).transfer
        fs).data (y - x) = content y := by
  have hj : y - x < pool.segLen x n := by omega
  have hdrive : pool.driveOf bucket y = pool.driveOf bucket x := by
    rw [show y = x + (y - x) by omega]
    exact DrivePool.drive_of_add hj
  have hplace : pool.fileOffsetOf y = pool.fileOffsetOf x + (y - x) := by
    rw [show y = x + (y - x) by omega, DrivePool.file_offset_of_add (by omega)]
    omega
  have hin := h.inside y hfrom hto
  have hbyte := h.byte y hfrom hto
  rw [hdrive, hplace] at hin hbyte
  unfold FileSystem.bodies at hin hbyte
  cases hfd : fds (pool.driveOf bucket x) with
  | none =>
      -- a drive without a descriptor holds no byte
      rw [hfd] at hin
      exact absurd hin (Nat.not_lt_zero _)
  | some ino =>
      rw [hfd] at hin hbyte
      refine ⟨⟨Nat.le_add_right _ _, ?_⟩, hbyte⟩
      show outBase + (y - x) < outBase + min (pool.segLen x n)
          ((fs.file ino).size - pool.fileOffsetOf x)
      dsimp only at hin
      omega

/-- The reads of a range bring the window's bytes, if the window meets the range only in placed
positions and every other position of it has its byte. -/
theorem Placed.awaiting {lo hi : Nat}
    (h : Placed pool bucket lo hi content (fs.bodies fds)) (hfrom : lo ≤ tierOff)
    {c buf : Nat → UInt8} {window : Nat → Prop}
    (hwindow : ∀ p, window p → outBase ≤ p → p < outBase + len →
      tierOff + (p - outBase) < hi ∧ content (tierOff + (p - outBase)) = c p)
    (hbuf : ∀ p, window p → buf p = c p ∨ outBase ≤ p ∧ p < outBase + len) :
    Awaiting c window buf
      ((addDriveSegs pool bucket fds tierOff len outBase).map (Seg.transfer fs)) := by
  refine ⟨fun t ht p hp hcov => ?_, fun p hp => ?_⟩
  · obtain ⟨seg, hseg, rfl⟩ := List.mem_map.1 ht
    obtain ⟨x, n, hlo, hhi, hn, rfl⟩ := mem_add_drive_segs hseg
    have hle := pool.seg_len_le x n
    obtain ⟨hcovlo, hcovhi⟩ := hcov
    rw [Seg.transfer_dst] at hcovlo hcovhi ⊢
    have hlen := Seg.transfer_len_le fs ⟨fds (pool.driveOf bucket x), pool.fileOffsetOf x,
      pool.segLen x n, outBase + (x - tierOff)⟩
    dsimp only at hcovlo hcovhi hlen ⊢
    obtain ⟨hext, hc⟩ := hwindow p hp (by omega) (by omega)
    have hbyte := (h.transfer_byte (outBase + (x - tierOff)) (x := x) (n := n)
      (y := tierOff + (p - outBase)) (by omega) (by omega) (by omega) hext).2
    rw [← hc, ← hbyte]
    congr 1
    omega
  · refine (hbuf p hp).imp_right ?_
    rintro ⟨hlo, hhi⟩
    obtain ⟨seg, hseg, y, n, hy, hend, rfl, hge⟩ :=
      @add_drive_segs_cover pool bucket fds tierOff len
      outBase (tierOff + (p - outBase)) (by omega) (by omega)
    obtain ⟨hext, -⟩ := hwindow p hp hlo hhi
    refine ⟨_, List.mem_map_of_mem hseg, ?_⟩
    have hcov := (h.transfer_byte (outBase + (y - tierOff)) (x := y) (n := n)
      hy hend (by omega) hext).1
    rwa [show outBase + (y - tierOff) + (tierOff + (p - outBase) - y) = p by omega] at hcov

/-- The reads of the object's bytes from `lo` on, for a buffer that starts at byte `off`, where the
tier holds the bytes from `start` on. -/
theorem Stored.awaiting_from {extent : Nat} {buf : Nat → UInt8} (start lo off room : Nat)
    (h : Stored pool bucket extent (fun x => content (start + x)) (fs.bodies fds))
    (hstart : start ≤ lo) (hoff : off ≤ lo) {window : Nat → Prop}
    (hwindow : ∀ p, window p → lo ≤ off + p → off + p < start + extent)
    (hbuf : ∀ p, window p → buf p = content (off + p) ∨ lo ≤ off + p ∧ off + p < lo + room) :
    Awaiting (fun p => content (off + p)) window buf
      ((addDriveSegs pool bucket fds (lo - start) room (lo - off)).map (Seg.transfer fs)) := by
  refine h.placed.awaiting (Nat.zero_le _) (fun p hp hlo hhi => ?_) fun p hp => ?_
  · have hin := hwindow p hp (by omega)
    refine ⟨by omega, ?_⟩
    show content (start + (lo - start + (p - (lo - off)))) = content (off + p)
    congr 1
    omega
  · exact (hbuf p hp).imp_right fun hcov => ⟨by omega, by omega⟩

/-- The reads of a stored range go to open files. -/
theorem Stored.segs_open {extent : Nat}
    (h : Stored pool bucket extent content (fs.bodies fds)) (hend : tierOff + len ≤ extent)
    (hseg : seg ∈ addDriveSegs pool bucket fds tierOff len outBase) : seg.fd ≠ none := by
  obtain ⟨x, n, -, hhi, -, rfl⟩ := mem_add_drive_segs hseg
  have hin := h.inside x (by omega)
  unfold FileSystem.bodies at hin
  intro hnone
  dsimp only at hnone
  rw [hnone] at hin
  exact absurd hin (Nat.not_lt_zero _)

end Segments

/-! ## A version that is indexed -/

/-- The index entry `m` of `d` stands for version `v`, whose bytes are in the files and the head. -/
structure Readable (cfg : Config) (σ : State) (d : Digest) (m : ObjectMeta)
    (v : Version) : Prop where
  indexed : σ.index.lookup d = some m
  size_eq : v.size = m.size
  disk : OnDisk cfg σ.fs d m.size (padded v.body m.size)
  head : ∀ r, m.head = some r → Carries σ.ramBytes r v.body v.size
  head_fits : HeadFits cfg m.size m.head

/-- The bytes of version `v`, indexed as `m`, are in the live files and the head, wherever the drive
of a byte is. -/
structure Held (cfg : Config) (σ : State) (d : Digest) (m : ObjectMeta) (v : Version) : Prop where
  indexed : σ.index.lookup d = some m
  size_eq : v.size = m.size
  size_le : m.size + kDeviceBlock ≤ wrap64
  stored : ∀ tier pool, cfg.pool tier = some pool →
    Stored pool d.bucket ((cfg.layout m.size).tierExtent tier)
      (fun x => padded v.body m.size ((cfg.layout m.size).tierStart tier + x))
      (σ.fs.bodies (liveFiles σ.fs tier d
        (pool.stripeDrives d.bucket ((cfg.layout m.size).tierBytes tier))))
  head : ∀ r, m.head = some r → Carries σ.ramBytes r v.body v.size
  head_fits : HeadFits cfg m.size m.head

variable {cfg : Config} {σ : State} {d : Digest} {m : ObjectMeta} {v : Version} {faults : Faults}

theorem Readable.held (h : Readable cfg σ d m v) : Held cfg σ d m v :=
  { h with size_le := h.disk.fits.size_le, stored := h.disk.stored }

/-- Descriptors of the live names on exactly these drives. -/
theorem opened_live {tier : Tier} {drives : List Nat} {fds : ObjectFiles}
    (hentry : ∀ drive ino, fds drive = some ino → fs.dir (livePath tier d drive) = some ino)
    (hopen : ∀ drive, fds drive ≠ none ↔ drive ∈ drives) : fds = liveFiles fs tier d drives := by
  funext drive
  unfold liveFiles
  split_ifs with hmem
  · obtain ⟨ino, hino⟩ := Option.ne_none_iff_exists'.1 ((hopen drive).2 hmem)
    rw [hino]
    exact (hentry drive ino hino).symm
  · exact not_not.1 (mt (hopen drive).1 hmem)

/-- Descriptors opened without `O_CREAT` are those of the live names. -/
theorem open_live {tier : Tier} {pool : DrivePool} {bytes : Nat} {fds : ObjectFiles}
    (h : (openObject fs faults tier pool d bytes false none).1 = some fds) :
    fds = liveFiles fs tier d (pool.stripeDrives d.bucket bytes) := by
  have hopen : openObject fs faults tier pool d bytes false none = (some fds, fs) :=
    Prod.ext h open_loop_read
  have hopened := open_object_opened hopen
  exact opened_live (fun _ _ => hopened.entry) hopened.ne_none_iff

/-- The files of an object that is on disk can be opened. -/
theorem OnDisk.can_open {size : Nat} {content : Nat → UInt8}
    (h : OnDisk cfg fs d size content) (tier : Tier) {pool : DrivePool}
    (hpool : cfg.pool tier = some pool) (hfaults : ∀ tier drive, faults.openat tier drive = false) :
    (openObject fs faults tier pool d ((cfg.layout size).tierBytes tier) false none).1 ≠ none :=
  open_loop_read_some (hfaults tier) fun drive hdrive => h.names tier pool hpool drive hdrive

/-- The bytes that the head copy brings. -/
theorem State.copy_head_byte {r : Region} {off want p : Nat} {out body : Nat → UInt8} {n : Nat}
    (hr : m.head = some r) (hcarries : Carries σ.ramBytes r body n) (hn : off + p < n)
    (hp : p < want) (hlen : off + p < r.len) : σ.copyHead m off want out p = body (off + p) := by
  have hcopied : 0 + p < 0 + (min (off + want) r.len - off) := by omega
  simp only [State.copyHead, hr, if_pos (show off < r.len by omega)]
  rw [blit_inside (Nat.zero_le p) (by omega), Nat.sub_zero, Nat.add_assoc]
  exact hcarries (off + p) hn hlen

/-- The layout of an object and the length of its head. -/
theorem Held.head_len (h : Held cfg σ d m v) :
    m.headLen ≤ cfg.tiers.ramHead ∧
      (m.size ≤ cfg.tiers.ramHead → 0 < m.size → m.headLen = m.size) := by
  unfold ObjectMeta.headLen
  cases hr : m.head with
  | none => exact ⟨Nat.zero_le _, fun hram hpos => absurd hr (h.head_fits.resident hpos hram)⟩
  | some r =>
      have hlen := h.head_fits.len_eq r hr
      simp only [Option.map_some, Option.getD_some]
      omega

/-- The head copy fills the positions below the head's end. -/
theorem Held.copied (h : Held cfg σ d m v) {off want p : Nat} {out : Nat → UInt8}
    (hp : p < want) (hsize : off + p < m.size) (hlen : off + p < m.headLen) :
    σ.copyHead m off want out p = padded v.body m.size (off + p) := by
  unfold ObjectMeta.headLen at hlen
  cases hr : m.head with
  | none =>
      rw [hr] at hlen
      exact absurd hlen (Nat.not_lt_zero _)
  | some r =>
      rw [hr] at hlen
      rw [State.copy_head_byte hr (h.head r hr) (h.size_eq ▸ hsize) hp hlen, padded, if_pos hsize]

namespace State

/-- The positions of a buffer that the head and the SSD files provide. -/
def FastPart (layout : ObjectLayout) (offset want p : Nat) : Prop :=
  p < want ∧ (layout.hddBytes = 0 ∨ offset + p < layout.ssdBytes)

variable {offset outLen : Nat} {out : Nat → UInt8}

/-- The head copy and the SSD reads of `read` fill their part of the buffer. -/
theorem ssd_reads_awaiting (h : Readable cfg σ d m v) (hoff : offset < m.size) {ssd : List Seg}
    (hssd : ssdReads cfg σ d (cfg.layout m.size) offset (min outLen (m.size - offset))
      m.headLen outLen faults = some ssd) :
    Awaiting (fun p => padded v.body m.size (offset + p))
      (FastPart (cfg.layout m.size) offset (min outLen (m.size - offset)))
      (σ.copyHead m offset (min outLen (m.size - offset)) out) (ssd.map (Seg.transfer σ.fs)) := by
  obtain ⟨hhead, hfull⟩ := h.held.head_len
  have hsize := h.disk.fits.size_le
  -- a position that neither the head nor the SSD provides belongs to an HDD tail
  have hpart : ∀ p, FastPart (cfg.layout m.size) offset (min outLen (m.size - offset)) p →
      offset + p < m.headLen ∨ offset + p < (cfg.layout m.size).ssdBytes := by
    rintro p ⟨hp, hzero | hlt⟩
    · rcases Nat.lt_or_ge cfg.tiers.ramHead m.size with hdisk | hram
      · have hsum := (cfg.layout_tiers hdisk).1
        omega
      · have := hfull hram (by omega)
        omega
    · exact Or.inr hlt
  unfold ssdReads at hssd
  dsimp only at hssd
  split_ifs at hssd with hrange
  · split at hssd
    · cases hssd
    · rename_i fds hopen
      cases hssd
      have hst := h.disk.stored .ssd cfg.ssd rfl
      have hext := (cfg.tier_extent_spec hsize .ssd).1
      rw [show (cfg.layout m.size).tierBytes .ssd =
        (cfg.layout m.size).ssdBytes from rfl] at hst hext
      rw [← open_live hopen] at hst
      refine Stored.awaiting_from 0 _ offset _ hst (Nat.zero_le _) (Nat.le_max_left _ _)
        (fun p hp hlo => ?_) fun p hp => ?_
      · have := hpart p hp
        omega
      · rcases Nat.lt_or_ge (offset + p) m.headLen with hcopied | hbeyond
        · exact Or.inl (h.held.copied hp.1 (by have := hp.1; omega) hcopied)
        · have hlt := (hpart p hp).resolve_left (Nat.not_lt.2 hbeyond)
          have hwant := hp.1
          obtain ⟨hup, -⟩ := align_up_spec (v := min (offset + min outLen (m.size - offset))
            (cfg.layout m.size).ssdBytes - max offset m.headLen) (by omega)
          refine Or.inr ⟨by omega, ?_⟩
          omega
  · cases hssd
    refine ⟨fun t ht => absurd ht List.not_mem_nil, fun p hp => Or.inl ?_⟩
    have hwant := hp.1
    have := hpart p hp
    exact h.held.copied hwant (by omega) (by omega)

/-- The HDD reads of `read` fill the rest of the buffer. -/
theorem hdd_reads_awaiting (h : Readable cfg σ d m v) (hoff : offset < m.size) {hdd : List Seg}
    (hhdd : hddReads cfg σ d (cfg.layout m.size) offset (min outLen (m.size - offset))
      outLen faults = some hdd) {buf : Nat → UInt8}
    (hbuf : ∀ p, FastPart (cfg.layout m.size) offset (min outLen (m.size - offset)) p →
      buf p = padded v.body m.size (offset + p)) :
    Awaiting (fun p => padded v.body m.size (offset + p))
      (fun p => p < min outLen (m.size - offset))
      buf (hdd.map (Seg.transfer σ.fs)) := by
  have hsize := h.disk.fits.size_le
  -- without reads there is no HDD tail in the range
  have hnone : (¬ (0 < (cfg.layout m.size).hddBytes ∧
      (cfg.layout m.size).ssdBytes < offset + min outLen (m.size - offset))) →
      Awaiting (fun p => padded v.body m.size (offset + p))
        (fun p => p < min outLen (m.size - offset)) buf [] := by
    refine fun hrange => ⟨fun t ht => absurd ht List.not_mem_nil,
      fun p hp => Or.inl (hbuf p ⟨hp, ?_⟩)⟩
    omega
  have htail : 0 < (cfg.layout m.size).hddBytes → cfg.hdd ≠ none ∧
      (cfg.layout m.size).ssdBytes + (cfg.layout m.size).hddBytes = m.size := by
    intro hpos
    have hdisk : cfg.tiers.ramHead < m.size := by
      by_contra hram
      rw [Config.layout, compute_layout_ram_only (by omega)] at hpos
      exact absurd hpos (Nat.lt_irrefl 0)
    exact ⟨((cfg.layout_tiers hdisk).2 hpos).2, (cfg.layout_tiers hdisk).1⟩
  unfold hddReads at hhdd
  split at hhdd
  · rename_i hpool
    cases hhdd
    exact hnone fun hrange => (htail hrange.1).1 hpool
  · rename_i pool hpool
    split_ifs at hhdd with hrange
    · split at hhdd
      · cases hhdd
      · rename_i fds hopen
        cases hhdd
        have hst := h.disk.stored .hdd pool hpool
        have hext := (cfg.tier_extent_spec hsize .hdd).1
        rw [show (cfg.layout m.size).tierBytes .hdd =
          (cfg.layout m.size).hddBytes from rfl] at hst hext
        rw [← open_live hopen] at hst
        have hsum := (htail hrange.1).2
        refine Stored.awaiting_from (cfg.layout m.size).ssdBytes _ offset _ hst
          (Nat.le_max_right _ _)
          (Nat.le_max_left _ _) (fun p hp hlo => ?_) fun p hp => ?_
        · omega
        · rcases Nat.lt_or_ge (offset + p) (cfg.layout m.size).ssdBytes with hfast | htail
          · exact Or.inl (hbuf p ⟨hp, Or.inr hfast⟩)
          · obtain ⟨hup, -⟩ := align_up_spec (v := offset + min outLen (m.size - offset) -
              max offset (cfg.layout m.size).ssdBytes) (by omega)
            exact Or.inr ⟨by omega, by omega⟩
    · cases hhdd
      exact hnone hrange

/-- No disk read into a buffer of this length asks for more than one call moves. -/
def Transfers (cfg : Config) (outLen : Nat) : Prop :=
  ∀ tier pool, cfg.pool tier = some pool → min pool.stripeUnit outLen ≤ kMaxTransfer

theorem Transfers.ssd_reads (h : Transfers cfg outLen) {layout : ObjectLayout} {want ramEnd : Nat}
    {ssd : List Seg} (hssd : ssdReads cfg σ d layout offset want ramEnd outLen faults = some ssd) :
    ssd.map Seg.submitted = ssd := by
  have hpool := h .ssd cfg.ssd rfl
  unfold ssdReads at hssd
  dsimp only at hssd
  split_ifs at hssd
  · split at hssd <;> cases hssd
    exact add_drive_segs_submitted (by omega)
  · cases hssd
    rfl

theorem Transfers.hdd_reads (h : Transfers cfg outLen) {layout : ObjectLayout} {want : Nat}
    {hdd : List Seg} (hhdd : hddReads cfg σ d layout offset want outLen faults = some hdd) :
    hdd.map Seg.submitted = hdd := by
  unfold hddReads at hhdd
  split at hhdd
  · cases hhdd
    rfl
  · rename_i pool heq
    have hpool := h .hdd pool heq
    split_ifs at hhdd
    · split at hhdd <;> cases hhdd
      exact add_drive_segs_submitted (by omega)
    · cases hhdd
      rfl

/-- A locked part of `read` that succeeds on an indexed object. -/
theorem read_snapshot_ok (h : Readable cfg σ d m v) (hoff : offset < m.size) {task : ReadTask}
    (hok : readSnapshot cfg σ d offset outLen out faults = .ok task) :
    task.want = min outLen (m.size - offset) ∧
      task.out = σ.copyHead m offset task.want out ∧
      ssdReads cfg σ d (cfg.layout m.size) offset task.want m.headLen outLen faults =
      some task.ssd ∧
      hddReads cfg σ d (cfg.layout m.size) offset task.want outLen faults = some task.hdd := by
  unfold readSnapshot at hok
  rw [h.indexed] at hok
  dsimp only at hok
  rw [if_neg (Nat.not_le.2 hoff)] at hok
  split at hok
  · cases hok
  · rename_i ssd hssd
    split at hok
    · cases hok
    · rename_i hdd hhdd
      cases hok
      exact ⟨rfl, rfl, hssd, hhdd⟩

end State

/-- In every state of a sound run an index entry stands for the live version. -/
theorem readable_after (hblock : cfg.blockBytes ≤ wrap32) {ops : List Op}
    (hsound : Allowed (State.apply cfg) (Sound cfg) (State.init cfg) ops)
    (hm : (State.after cfg ops).index.lookup d = some m) :
    ∃ v, liveVersion (State.after cfg ops).history d = some v ∧ v.stamp = m.stamp ∧
      Readable cfg (State.after cfg ops) d m v := by
  have hcontents := reachable_contents cfg hblock ops
  have hfiles := (FilesInv.init cfg).run hsound
  obtain ⟨v, hv, hstamp⟩ := hcontents.recorded.live hm
  refine ⟨v, hv, hstamp, hm, ?_, hfiles.disk.live d m v hm hv,
    hcontents.heads.resident d m v hm hv, ?_⟩
  · exact (Prod.ext_iff.1 hstamp).1
  · exact (reachable_head_inv cfg hblock ops).residency.indexed d m hm

end GoblinStore
