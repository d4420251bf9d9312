import GoblinStore.Storage.ReadAtomicity

/-!
# Streaming a snapshot

A reader holds a snapshot, plans pieces against its open files and completes their disk reads while
other threads go on. `plan` looks the object up again: if the snapshot has no pinned head and a
version with a head that reaches into the piece is indexed by then, the piece starts with that
version's bytes (`snapshot_mixes_versions`). Otherwise the pinned head and the pieces that follow it
are the bytes of the version that was live at the snapshot.
-/

namespace GoblinStore

open GoblinStore.Lib GoblinStore.Core Pool

/-- A planned piece: `total` bytes of a buffer of `len` bytes, with its outstanding disk reads. -/
structure Piece where
  off : Nat
  len : Nat
  total : Nat
  buf : Nat → UInt8
  pending : List Seg

/-- Disk read number `i` of the piece completes. -/
def Piece.complete (fs : FileSystem) (i : Nat) (piece : Piece) : Piece :=
  match piece.pending[i]? with
  | none => piece
  | some seg => { piece with
      buf := (seg.transfer fs).perform piece.buf
      pending := piece.pending.eraseIdx i }

theorem Piece.complete_off (fs : FileSystem) (i : Nat) (piece : Piece) :
    (piece.complete fs i).off = piece.off := by
  unfold Piece.complete
  split <;> rfl

/-- A step of another thread, a call of `plan`, or a completion of a piece's disk read. -/
inductive StreamEvent where
  | step (op : Op)
  | plan (off len : Nat) (out : Nat → UInt8)
  | complete (piece i : Nat)

/-- One event; a snapshot without open files has nothing to plan. -/
def streamStep (cfg : Config) (snap : State.Snapshot) :
    State × List Piece → StreamEvent → State × List Piece
  | (σ, pieces), .step op => (σ.apply cfg op, pieces)
  | (σ, pieces), .plan off len out =>
      match snap.rs with
      | none => (σ, pieces)
      | some rs =>
          let planned := State.plan cfg σ rs off len out
          (σ, pieces ++ [⟨off, len, planned.1.total, planned.2, planned.1.segs⟩])
  | (σ, pieces), .complete k i => (σ, pieces.modify k (Piece.complete σ.fs i))

/-- A reader without a pinned head plans no piece that the head of the indexed version reaches. -/
def NoHeadInPiece (snap : State.Snapshot) (d : Digest) : State × List Piece → StreamEvent → Prop
  | (σ, _), .plan off _ _ => snap.pin = none → σ.indexedHeadLen d ≤ off
  | _, _ => True

/-! ## What the reader delivers -/

/-- The pinned head, or nothing. -/
def State.Snapshot.head (snap : State.Snapshot) (σ : State) : ByteView :=
  match snap.pin with
  | none => ByteView.empty
  | some r => σ.pinnedBytes r

/-- The pieces follow each other from `pos` to `stop`. -/
def Consecutive : Nat → List Piece → Nat → Prop
  | pos, [], stop => pos = stop
  | pos, piece :: rest, stop => piece.off = pos ∧ Consecutive (pos + piece.total) rest stop

instance : ∀ pos pieces stop, Decidable (Consecutive pos pieces stop)
  | pos, [], stop => inferInstanceAs (Decidable (pos = stop))
  | pos, piece :: rest, stop =>
      have := instDecidableConsecutive (pos + piece.total) rest stop
      inferInstanceAs (Decidable (piece.off = pos ∧ _))

/-- The head followed by the pieces. -/
def assemble (head : ByteView) (pieces : List Piece) : ByteView :=
  pieces.foldl (fun acc piece => acc.append ⟨piece.total, piece.buf⟩) head

/-- Pieces that hold their bytes of the body extend it. -/
theorem assemble_bytes {head : ByteView} {pieces : List Piece} {body : Nat → UInt8} {stop : Nat}
    (hhead : ∀ i < head.size, head.data i = body i) (hpieces : ∀ piece ∈ pieces,
      head.size ≤ piece.off → ∀ p < piece.total, piece.buf p = body (piece.off + p))
    (hcons : Consecutive head.size pieces stop) :
    (assemble head pieces).size = stop ∧
      ∀ i < stop, (assemble head pieces).data i = body i := by
  induction pieces generalizing head with
  | nil =>
      cases hcons
      exact ⟨rfl, hhead⟩
  | cons piece rest ih =>
      obtain ⟨hoff, hrest⟩ := hcons
      refine @ih (head.append ⟨piece.total, piece.buf⟩) (fun i hi => ?_)
        (fun q hq hle => hpieces q (List.mem_cons_of_mem piece hq) ?_) hrest
      · rcases Nat.lt_or_ge i head.size with hold | hnew
        · rw [ByteView.append_left hold, hhead i hold]
        · obtain ⟨j, rfl⟩ := Nat.exists_eq_add_of_le hnew
          have hj : j < piece.total := by
            rw [ByteView.append_size] at hi
            dsimp only at hi
            omega
          rw [ByteView.append_right hj, ← hoff]
          exact hpieces piece List.mem_cons_self hoff.ge j hj
      · rw [ByteView.append_size] at hle
        omega

/-! ## Opening -/

variable {cfg : Config} {σ : State} {d : Digest} {faults : Faults} {snap : State.Snapshot}

/-- The stream reads the live files of the indexed object `m`, which goes beyond its head. -/
structure Streams (cfg : Config) (fs : FileSystem) (d : Digest) (m : ObjectMeta)
    (rs : State.ReadStream) : Prop where
  beyond : m.headLen < m.size
  digest_eq : rs.digest = d
  size_eq : rs.size = m.size
  layout_eq : rs.layout = cfg.layout m.size
  files : ∀ tier pool, cfg.pool tier = some pool → tierFiles rs.ssd rs.hdd tier =
    liveFiles fs tier d (pool.stripeDrives d.bucket ((cfg.layout m.size).tierBytes tier))

/-- A snapshot captures the index entry, its head, and a stream on the live files if they are
needed. -/
theorem State.open_snapshot_files (h : (State.openSnapshot cfg σ d faults).1 = some snap) :
    σ.index.lookup d = some snap.info ∧ snap.info.isExpired σ.now = false ∧
      snap.pin = snap.info.head ∧
      ∀ rs, snap.rs = some rs → snap.info.headLen < snap.info.size ∧
        State.openFiles cfg σ.fs faults d (cfg.layout snap.info.size) false none =
        (some (rs.ssd, rs.hdd), σ.fs) ∧
        rs = ⟨d, snap.info.size, cfg.layout snap.info.size, rs.ssd, rs.hdd⟩ := by
  unfold State.openSnapshot at h
  cases hm : σ.index.lookup d with
  | none => simp [hm] at h
  | some m =>
      simp only [hm] at h
      split_ifs at h with hexpired
      cases hfiles : State.snapshotFiles cfg
          { σ with objectPolicy := σ.objectPolicy.touch d } d m faults with
      | none => simp [hfiles] at h
      | some rs? =>
          have hsnap : snap = ⟨m, m.head, rs?⟩ := by
            cases hr : m.head with
            | none => simpa only [hfiles, hr, Option.some.injEq, eq_comm] using h
            | some r => simpa only [hfiles, hr, Option.some.injEq, eq_comm] using h
          subst hsnap
          refine ⟨rfl, Bool.eq_false_iff.2 hexpired, rfl, fun rs hrs => ?_⟩
          dsimp only at hrs ⊢
          subst hrs
          unfold State.snapshotFiles at hfiles
          split_ifs at hfiles with htail
          · split at hfiles
            · cases hfiles
            · rename_i ssd hdd hopen
              cases hfiles
              exact ⟨htail, Prod.ext hopen State.open_files_read, rfl⟩
          · cases hfiles

/-- The stream of a snapshot has the live files of the object. -/
theorem State.open_snapshot_spec (h : (State.openSnapshot cfg σ d faults).1 = some snap) :
    σ.index.lookup d = some snap.info ∧ snap.pin = snap.info.head ∧
      ∀ rs, snap.rs = some rs → Streams cfg σ.fs d snap.info rs := by
  obtain ⟨hm, -, hpin, hfiles⟩ := State.open_snapshot_files h
  refine ⟨hm, hpin, fun rs hrs => ?_⟩
  obtain ⟨htail, hopen, heq⟩ := hfiles rs hrs
  have hopened := State.open_files_opened hopen
  rw [heq]
  refine ⟨htail, rfl, rfl, rfl, fun tier pool hpool => ?_⟩
  exact opened_live (hopened.entry tier) (hopened.ne_none_iff tier pool hpool)

/-! ## Planning -/

variable {m : ObjectMeta} {v : Version} {rs : State.ReadStream}

/-- An object that goes beyond its head has disk extents. -/
theorem Streams.disk (hs : Streams cfg σ.fs d m rs) (h : Held cfg σ d m v) :
    cfg.tiers.ramHead < m.size := by
  have hbeyond := hs.beyond
  by_contra hram
  have := h.head_len.2 (by omega) (by omega)
  omega

/-- An object with an HDD tail has HDD files open. -/
theorem Streams.hdd_open (hs : Streams cfg σ.fs d m rs) (h : Held cfg σ d m v)
    (hpos : 0 < (cfg.layout m.size).hddBytes) :
    ∃ pool fds, cfg.hdd = some pool ∧ rs.hdd = some fds := by
  obtain ⟨pool, hpool⟩ := Option.ne_none_iff_exists'.1 ((cfg.layout_tiers (hs.disk h)).2 hpos).2
  refine ⟨pool, ?_⟩
  cases hfds : rs.hdd with
  | some fds => exact ⟨fds, hpool, rfl⟩
  | none =>
      -- the first byte of the tail is in an open file
      have hst := h.stored .hdd pool hpool
      rw [← hs.files .hdd pool hpool, tierFiles, hfds] at hst
      have hext := (cfg.tier_extent_spec h.size_le .hdd).1
      exact absurd (hst.inside 0 (Nat.lt_of_lt_of_le hpos hext)) (Nat.not_lt_zero _)

/-- The reads ask for `n` bytes in all, bring the bytes of one part of the window and none of the
rest of it, and go to sealed files. -/
structure Delivers (fs : FileSystem) (content : Nat → UInt8) (window part : Nat → Prop)
    (out : Nat → UInt8) (segs : List Seg) (n : Nat) : Prop where
  bytes : segBytes segs = n
  awaiting : Awaiting content part out (segs.map (Seg.transfer fs))
  only : ∀ t ∈ segs.map (Seg.transfer fs), ∀ p, window p → t.Covers p → part p
  frozen : Frozen fs segs

variable {fs : FileSystem}

/-- No reads, for an empty part. -/
theorem Delivers.nil {content out : Nat → UInt8} {window part : Nat → Prop} {n : Nat}
    (hn : n = 0) (hpart : ∀ p, ¬ part p) : Delivers fs content window part out [] n :=
  ⟨hn.symm, ⟨fun _ ht => absurd ht List.not_mem_nil, fun p hp => absurd hp (hpart p)⟩,
    fun _ ht => absurd ht List.not_mem_nil, fun _ hseg => absurd hseg List.not_mem_nil⟩

section Parts

variable (hs : Streams cfg σ.fs d m rs) (h : Readable cfg σ d m v) {off want ramEnd : Nat}
  (out : Nat → UInt8)

include hs h

/-- The SSD reads of a piece that no head reaches into. -/
theorem plan_ssd_delivers (hram : ramEnd ≤ off) :
    Delivers σ.fs (fun p => padded v.body m.size (off + p)) (fun p => p < want)
      (fun p => p < want ∧ off + p < (cfg.layout m.size).ssdBytes) out
      (State.planSsd cfg rs off want ramEnd)
      (min (off + want) (cfg.layout m.size).ssdBytes - off) := by
  unfold State.planSsd
  dsimp only
  rw [Nat.max_eq_left hram, hs.layout_eq]
  split_ifs with hrange
  · have hst := h.disk.stored .ssd cfg.ssd rfl
    have hext : (cfg.layout m.size).ssdBytes ≤ (cfg.layout m.size).tierExtent .ssd :=
      (cfg.tier_extent_spec h.disk.fits.size_le .ssd).1
    rw [← hs.files .ssd cfg.ssd rfl, ← hs.digest_eq] at hst
    refine ⟨add_drive_segs_bytes _ _ _ _ _ _, ?_, fun t ht p hp hcov => ⟨hp, ?_⟩, ?_⟩
    · refine Stored.awaiting_from 0 off off _ hst (Nat.zero_le _) le_rfl (fun p hp _ => ?_)
        fun p hp =>
        Or.inr ⟨Nat.le_add_right _ _, ?_⟩
      · have := hp.2
        omega
      · have := hp.1
        have := hp.2
        omega
    · have := add_drive_segs_span ht hcov
      omega
    · rw [show rs.ssd = tierFiles rs.ssd rs.hdd .ssd from rfl, hs.files .ssd cfg.ssd rfl]
      exact drive_segs_from fun _ _ hino => FileSystem.sealed_of_live (live_files_entry hino)
  · refine Delivers.nil (by omega) fun p hp => ?_
    have := hp.1
    have := hp.2
    omega

/-- The HDD reads of a piece. -/
theorem plan_hdd_delivers (hwant : off + want ≤ m.size) :
    Delivers σ.fs (fun p => padded v.body m.size (off + p)) (fun p => p < want)
      (fun p => p < want ∧ (cfg.layout m.size).ssdBytes ≤ off + p) out
      (State.planHdd cfg rs off want) (off + want - max off (cfg.layout m.size).ssdBytes) := by
  obtain ⟨hsum, -⟩ := cfg.layout_tiers (hs.disk h.held)
  rcases Nat.eq_zero_or_pos (cfg.layout m.size).hddBytes with hzero | hpos
  · have hempty : State.planHdd cfg rs off want = [] := by
      unfold State.planHdd
      split
      · rw [hs.layout_eq, if_neg (by omega)]
      · rfl
    rw [hempty]
    refine Delivers.nil (by omega) fun p hp => ?_
    have := hp.1
    have := hp.2
    omega
  · obtain ⟨pool, fds, hpool, hfds⟩ := hs.hdd_open h.held hpos
    have htier : fds = tierFiles rs.ssd rs.hdd .hdd := by rw [tierFiles, hfds, Option.getD_some]
    unfold State.planHdd
    simp only [hpool, hfds, hs.layout_eq]
    split_ifs with hrange
    · have hst := h.disk.stored .hdd pool hpool
      have hext : (cfg.layout m.size).hddBytes ≤ (cfg.layout m.size).tierExtent .hdd :=
        (cfg.tier_extent_spec h.disk.fits.size_le .hdd).1
      rw [← hs.files .hdd pool hpool, ← htier, ← hs.digest_eq] at hst
      refine ⟨add_drive_segs_bytes _ _ _ _ _ _, ?_, fun t ht p hp hcov => ⟨hp, ?_⟩, ?_⟩
      · refine Stored.awaiting_from (cfg.layout m.size).ssdBytes _ off _ hst (Nat.le_max_right _ _)
          (Nat.le_max_left _ _) (fun p hp _ => ?_) fun p hp => Or.inr ⟨?_, ?_⟩
        · have := hp.1
          omega
        · have := hp.2
          omega
        · have := hp.1
          omega
      · have := add_drive_segs_span ht hcov
        omega
      · rw [htier, hs.files .hdd pool hpool]
        exact drive_segs_from fun _ _ hino => FileSystem.sealed_of_live (live_files_entry hino)
    · refine Delivers.nil (by omega) fun p hp => ?_
      have := hp.1
      have := hp.2
      omega

/-- The disk reads of a piece that no head reaches into bring the whole piece. -/
theorem plan_delivers (hram : ramEnd ≤ off) (hwant : off + want ≤ m.size) :
    Delivers σ.fs (fun p => padded v.body m.size (off + p)) (fun p => p < want)
      (fun p => p < want) out
      (State.planSsd cfg rs off want ramEnd ++ State.planHdd cfg rs off want) want := by
  have hssd := @plan_ssd_delivers cfg σ d m v rs hs h off want ramEnd out hram
  have hhdd := plan_hdd_delivers hs h out hwant
  refine ⟨?_, ?_, fun _ _ _ hp _ => hp, fun seg hseg => ?_⟩
  · have hsum : ∀ a b : List Seg, segBytes (a ++ b) = segBytes a + segBytes b := fun a b => by
      simp [segBytes]
    rw [hsum, hssd.bytes, hhdd.bytes]
    omega
  · rw [List.map_append]
    exact hssd.awaiting.append hhdd.awaiting (fun p hp => by omega) hssd.only hhdd.only
  · rcases List.mem_append.1 hseg with hmem | hmem
    · exact hssd.frozen seg hmem
    · exact hhdd.frozen seg hmem

end Parts

/-! ## The pieces of a stream -/

/-- The piece has as many bytes as its buffer and the object allow, and each of them is the
version's or waits for a read of a sealed file that brings it. -/
structure PieceOf (fs : FileSystem) (v : Version) (piece : Piece) : Prop where
  total_eq : piece.total = min piece.len (v.size - piece.off)
  frozen : Frozen fs piece.pending
  awaiting : Awaiting (fun p => padded v.body v.size (piece.off + p)) (fun p => p < piece.total)
    piece.buf (piece.pending.map (Seg.transfer fs))

/-- A head that does not reach the offset brings nothing. -/
theorem State.copy_indexed_head_beyond {off want : Nat} (hlen : σ.indexedHeadLen d ≤ off)
    (out : Nat → UInt8) : σ.copyIndexedHead d off want out = out := by
  unfold State.indexedHeadLen at hlen
  unfold State.copyIndexedHead
  cases hm : σ.index.lookup d with
  | none => rfl
  | some m =>
      rw [hm, Option.map_some, Option.getD_some, ObjectMeta.headLen] at hlen
      show σ.copyHead m off want out = out
      unfold State.copyHead
      cases hr : m.head with
      | none => rfl
      | some r =>
          rw [hr] at hlen
          exact if_neg (Nat.not_lt.2 hlen)

/-- Planning in a later state, when the head indexed by then does not reach the offset. -/
theorem plan_piece (hs : Streams cfg σ.fs d m rs) (h : Readable cfg σ d m v) {σ' : State}
    {off len : Nat} (hhead : σ'.indexedHeadLen d ≤ off) (out : Nat → UInt8) :
    PieceOf σ.fs v ⟨off, len, (State.plan cfg σ' rs off len out).1.total,
      (State.plan cfg σ' rs off len out).2, (State.plan cfg σ' rs off len out).1.segs⟩ := by
  unfold State.plan
  rw [hs.size_eq, hs.digest_eq]
  split_ifs with hend
  · refine ⟨?_, fun _ hseg => absurd hseg List.not_mem_nil, fun _ ht => absurd ht List.not_mem_nil,
      fun p hp => absurd hp (Nat.not_lt_zero p)⟩
    show 0 = min len (v.size - off)
    rw [h.size_eq]
    omega
  · have hd := @plan_delivers cfg σ d m v rs hs h off (min len (m.size - off))
      _ out hhead (by omega)
    dsimp only
    rw [State.copy_indexed_head_beyond hhead, hd.bytes,
      Nat.sub_eq_zero_of_le (by omega), Nat.zero_add]
    refine ⟨?_, hd.frozen, ?_⟩
    · rw [h.size_eq]
    · rw [h.size_eq]
      exact hd.awaiting

/-- Completing a disk read, in a state where the sealed files are as they were. -/
theorem PieceOf.complete {fs' : FileSystem} {piece : Piece} (h : PieceOf fs v piece)
    (hkeeps : fs.Keeps fs') (i : Nat) : PieceOf fs v (piece.complete fs' i) := by
  unfold Piece.complete
  split
  · exact h
  · rename_i seg hseg
    have hmem : seg ∈ piece.pending := List.mem_of_getElem? hseg
    rw [Seg.transfer_keeps hkeeps (h.frozen seg hmem)]
    exact ⟨h.total_eq, fun s hs => h.frozen s (List.mem_of_mem_eraseIdx hs),
      h.awaiting.perform (map_erase_perm fs hseg)⟩

/-- A piece without outstanding reads has the bytes of the version. -/
theorem PieceOf.bytes {piece : Piece} (h : PieceOf fs v piece)
    (hdone : piece.pending = []) {p : Nat} (hp : p < piece.total) :
    piece.buf p = v.body (piece.off + p) := by
  have hawaiting := h.awaiting
  have htotal := h.total_eq
  rw [hdone] at hawaiting
  rw [hawaiting.done hp, padded, if_pos (by omega)]

/-! ## Runs -/

/-- The step of another thread in an event. -/
def StreamEvent.op : StreamEvent → Option Op
  | .step op => some op
  | _ => none

/-- The store sees only the steps of other threads. -/
theorem stream_run_state (cfg : Config) (snap : State.Snapshot) (s : State × List Piece)
    (events : List StreamEvent) : (run (streamStep cfg snap) s events).1 =
      run (State.apply cfg) s.1 (events.filterMap StreamEvent.op) := by
  induction events generalizing s with
  | nil => rfl
  | cons event rest ih =>
      rw [run_cons, ih]
      obtain ⟨σ, pieces⟩ := s
      cases event with
      | step op => rfl
      | plan off len out =>
          simp only [streamStep]
          split <;> rfl
      | complete k i => rfl

/-- What holds while a snapshot of state `σ` is streamed: sealed files are kept, and the pieces
beyond the head of the snapshot are pieces of the version. -/
structure Streaming (cfg : Config) (fs : FileSystem) (headLen : Nat) (v : Version)
    (s : State × List Piece) : Prop where
  scratch : ScratchInv s.1
  heads : HeadInv cfg s.1
  keeps : fs.Keeps s.1.fs
  pieces : ∀ piece ∈ s.2, headLen ≤ piece.off → PieceOf fs v piece

/-- A head is never longer than the configuration says. -/
theorem HeadInv.indexed_head_len_le (h : HeadInv cfg σ) (d : Digest) :
    σ.indexedHeadLen d ≤ cfg.tiers.ramHead := by
  unfold State.indexedHeadLen
  cases hm : σ.index.lookup d with
  | none => exact Nat.zero_le _
  | some m =>
      rw [Option.map_some, Option.getD_some, ObjectMeta.headLen]
      cases hr : m.head with
      | none => exact Nat.zero_le _
      | some r =>
          rw [Option.map_some, Option.getD_some, (h.residency.indexed d m hm).len_eq r hr]
          exact Nat.min_le_right _ _

theorem Streaming.step (hsnap : (State.openSnapshot cfg σ d faults).1 = some snap)
    (h : Readable cfg σ d snap.info v) {s : State × List Piece}
    (hinv : Streaming cfg σ.fs snap.info.headLen v s) {event : StreamEvent}
    (hok : NoHeadInPiece snap d s event) :
    Streaming cfg σ.fs snap.info.headLen v (streamStep cfg snap s event) := by
  obtain ⟨-, hpin, hrs⟩ := State.open_snapshot_spec hsnap
  obtain ⟨σ', pieces⟩ := s
  cases event with
  | step op =>
      exact ⟨hinv.scratch.apply op, hinv.heads.apply op,
        hinv.keeps.trans (Kept.apply hinv.scratch.scratch hinv.scratch.fresh op).keeps, hinv.pieces⟩
  | complete k i =>
      refine { hinv with pieces := fun piece hpiece hoff => ?_ }
      obtain ⟨j, hj⟩ := List.mem_iff_getElem?.1 hpiece
      rw [streamStep, List.getElem?_modify] at hj
      obtain ⟨old, hold, rfl⟩ := Option.map_eq_some_iff.1 hj
      have hmem : old ∈ pieces := List.mem_of_getElem? hold
      split_ifs at hoff ⊢ with hk
      · exact (hinv.pieces old hmem (by rwa [Piece.complete_off] at hoff)).complete hinv.keeps i
      · exact hinv.pieces old hmem hoff
  | plan off len out =>
      simp only [streamStep]
      cases hcases : snap.rs with
      | none => exact hinv
      | some rs =>
          refine { hinv with pieces := fun piece hpiece hoff => ?_ }
          rcases List.mem_append.1 hpiece with hold | hnew
          · exact hinv.pieces piece hold hoff
          · rw [List.mem_singleton] at hnew
            subst hnew
            refine plan_piece (hrs rs hcases) h ?_ out
            -- a pinned head of an object with a tail is as long as heads can be
            cases hhead : snap.pin with
            | none => exact hok hhead
            | some r =>
                have hlen : snap.info.headLen = cfg.tiers.ramHead := by
                  have hr : snap.info.head = some r := hpin ▸ hhead
                  have hdisk := (hrs rs hcases).disk h.held
                  rw [ObjectMeta.headLen, hr, Option.map_some, Option.getD_some,
                    h.head_fits.len_eq r hr]
                  omega
                exact (hinv.heads.indexed_head_len_le d).trans (hlen ▸ hoff)

/-- In every sound run of a store with blocks of at most 4 GiB: let a reader take a snapshot, use
its pinned head after `sending` and its pieces after `streaming`, planning no piece that a head
indexed meanwhile reaches into, unless the snapshot has its own. Then its pieces beyond the head are
complete, and the head followed by pieces that cover the rest is the version that was live at the
snapshot, whatever other threads do. -/
theorem snapshot_one_version (cfg : Config) (hblock : cfg.blockBytes ≤ wrap32) (before : List Op)
    (hsound : Allowed (State.apply cfg) (Sound cfg) (State.init cfg) before) (d : Digest)
    (faults : Faults) (snap : State.Snapshot)
    (hsnap : (State.openSnapshot cfg (State.after cfg before) d faults).1 = some snap)
    (sending streaming : List StreamEvent)
    (hquiet : Allowed (streamStep cfg snap) (NoHeadInPiece snap d)
      ((State.after cfg before).apply cfg (.openSnapshot d faults), []) (sending ++ streaming))
    (hpin : .step (.unpinHead (State.after cfg before).pinSeq) ∉ sending) :
    ∃ v, liveVersion (State.after cfg before).history d = some v ∧
      (∀ piece ∈ (run (streamStep cfg snap) ((State.after cfg before).apply cfg
          (.openSnapshot d faults), []) (sending ++ streaming)).2, snap.info.headLen ≤ piece.off →
        piece.total = min piece.len (v.size - piece.off)) ∧
      ∀ chosen, (∀ piece ∈ chosen, piece.pending = [] ∧
          piece ∈ (run (streamStep cfg snap) ((State.after cfg before).apply cfg
            (.openSnapshot d faults), []) (sending ++ streaming)).2) →
        Consecutive snap.info.headLen chosen v.size →
        (assemble (snap.head (run (streamStep cfg snap) ((State.after cfg before).apply cfg
            (.openSnapshot d faults), []) sending).1) chosen).size = v.size ∧
          ∀ i < v.size, (assemble (snap.head (run (streamStep cfg snap)
            ((State.after cfg before).apply cfg (.openSnapshot d faults), []) sending).1)
              chosen).data i = v.body i := by
  obtain ⟨hm, hpinned, -⟩ := State.open_snapshot_spec hsnap
  obtain ⟨v, hv, -, hreadable⟩ := readable_after hblock hsound hm
  have hheads := reachable_head_inv cfg hblock before
  have hcontents := reachable_contents cfg hblock before
  have hscratch := reachable_scratch_inv cfg before
  generalize State.after cfg before = σ at *
  have hfs : (σ.apply cfg (.openSnapshot d faults)).fs = σ.fs :=
    (State.open_snapshot_same cfg σ d faults).fs
  have hinv := invariant_run (I := Streaming cfg σ.fs snap.info.headLen v)
    (fun s event hok hs => hs.step hsnap hreadable hok)
    ⟨hscratch.apply (.openSnapshot d faults), hheads.apply (.openSnapshot d faults),
      by rw [hfs]; exact FileSystem.Keeps.refl _, fun _ hpiece => absurd hpiece List.not_mem_nil⟩
      hquiet
  have hops : .unpinHead σ.pinSeq ∉ sending.filterMap StreamEvent.op := by
    intro hmem
    obtain ⟨event, hevent, hop⟩ := List.mem_filterMap.1 hmem
    cases event with
    | step op =>
        cases hop
        exact hpin hevent
    | plan off len out => cases hop
    | complete k i => cases hop
  -- the bytes of the head, if there is one
  have hhead : (snap.head (run (streamStep cfg snap) (σ.apply cfg (.openSnapshot d faults), [])
        sending).1).size = snap.info.headLen ∧
      ∀ i < snap.info.headLen, (snap.head (run (streamStep cfg snap) (σ.apply cfg
        (.openSnapshot d faults), []) sending).1).data i = v.body i := by
    rw [stream_run_state]
    unfold State.Snapshot.head ObjectMeta.headLen
    rw [← hpinned]
    cases hr : snap.pin with
    | none => exact ⟨rfl, fun i hi => absurd hi (Nat.not_lt_zero i)⟩
    | some r =>
        refine ⟨rfl, fun i hi => ?_⟩
        obtain ⟨v', hv', -, hbytes⟩ :=
          (pin_stable hheads hcontents (.openSnapshot hsnap hr) hops).bytes
        rw [hv, Option.some.injEq] at hv'
        exact hv' ▸ hbytes i hi
  refine ⟨v, hv, fun piece hpiece hoff => (hinv.pieces piece hpiece hoff).total_eq,
    fun chosen hchosen hcons => ?_⟩
  refine assemble_bytes ?_ ?_ ?_
  · rw [hhead.1]
    exact hhead.2
  · intro piece hpiece hoff p hp
    obtain ⟨hdone, hmem⟩ := hchosen piece hpiece
    exact (hinv.pieces piece hmem (hhead.1 ▸ hoff)).bytes hdone hp
  · rw [hhead.1]
    exact hcons

/-- The snapshot of the first object after a run of the one-drive store. -/
def snapshotFirst (ops : List Op) : State.Snapshot :=
  (State.openSnapshot oneDriveConfig (State.after oneDriveConfig ops) (Digest.replicate 1)
    Faults.never).1.getD ⟨⟨0, 0, 0, 0, none⟩, none, none⟩

/-- The state and the pieces after a run, a snapshot of the first object and some events. -/
def streamFirst (ops : List Op) (events : List StreamEvent) : State × List Piece :=
  run (streamStep oneDriveConfig (snapshotFirst ops)) ((State.after oneDriveConfig ops).apply
    oneDriveConfig (.openSnapshot (Digest.replicate 1) Faults.never), []) events

theorem snapshot_first_some {ops : List Op} (h : (State.openSnapshot oneDriveConfig
      (State.after oneDriveConfig ops) (Digest.replicate 1) Faults.never).1.isSome = true) :
    (State.openSnapshot oneDriveConfig (State.after oneDriveConfig ops) (Digest.replicate 1)
      Faults.never).1 = some (snapshotFirst ops) := by
  unfold snapshotFirst
  cases hsnap : (State.openSnapshot oneDriveConfig (State.after oneDriveConfig ops)
      (Digest.replicate 1) Faults.never).1 with
  | none =>
      rw [hsnap] at h
      cases h
  | some snap => rfl

/-- The object is removed while its pinned head is sent. -/
def removeWhileSending : List StreamEvent := [.step (.remove (Digest.replicate 1) Faults.never)]

/-- Then the rest is planned as one piece, whose two disk reads complete in reverse order. -/
def streamTail : List StreamEvent := [.plan 4096 8192 (fun _ => 0), .complete 0 1, .complete 0 0]

theorem snapshot_one_version_removed :
    ∃ v, liveVersion (State.after oneDriveConfig storeTenThousand).history (Digest.replicate 1) =
        some v ∧ v.size = 10000 ∧
      ∀ i < v.size, (assemble ((snapshotFirst storeTenThousand).head
        (streamFirst storeTenThousand removeWhileSending).1)
        (streamFirst storeTenThousand (removeWhileSending ++ streamTail)).2).data i = v.body i := by
  obtain ⟨v, hv, -, hall⟩ := snapshot_one_version oneDriveConfig (by decide) storeTenThousand
    (regular_sound oneDriveConfig store_ten_thousand_regular) (Digest.replicate 1) Faults.never
    (snapshotFirst storeTenThousand) (snapshot_first_some (by decide +kernel)) removeWhileSending
    streamTail ⟨trivial, fun hnone => absurd hnone (by decide +kernel), trivial, trivial, trivial⟩
    (by simp [removeWhileSending])
  have hsize : (liveVersion (State.after oneDriveConfig storeTenThousand).history
      (Digest.replicate 1)).map (·.size) = some 10000 := by decide +kernel
  rw [hv, Option.map_some, Option.some.injEq] at hsize
  refine ⟨v, hv, hsize, (hall (streamFirst storeTenThousand (removeWhileSending ++ streamTail)).2
    (fun piece hpiece => ⟨?_, hpiece⟩) ?_).2⟩
  · have hdone : ∀ piece ∈ (streamFirst storeTenThousand (removeWhileSending ++ streamTail)).2,
        piece.pending = [] := by decide +kernel
    exact hdone piece hpiece
  · rw [hsize]
    decide +kernel

/-! ## A head that appears after the snapshot -/

/-- Store 10000 equal bytes under a digest. -/
def storeFilled (k : UInt8) (id : Nat) (byte : UInt8) : List Op :=
  [.beginStore (Digest.replicate k) 10000 Faults.never,
    .write id ⟨10000, fun _ => byte⟩ Faults.never, .commit id 0 0 0 Faults.never]

/-- Three objects for two heads: the first one's head is evicted. -/
def evictFirstHead : List Op := storeFilled 1 0 1 ++ storeFilled 2 1 3 ++ storeFilled 3 2 3

/-- The first object is replaced, and then read in two pieces. -/
def replaceThenPlan : List StreamEvent :=
  (storeFilled 1 3 2).map .step ++
    [.plan 0 4096 (fun _ => 0), .plan 4096 8192 (fun _ => 0), .complete 1 0, .complete 1 0]

theorem store_filled_regular {k : UInt8} (hk : (Digest.replicate k).bucket + 3 ≤ wrap64) (id : Nat)
    (byte : UInt8) : ∀ op ∈ storeFilled k id byte, Regular oneDriveConfig op := by
  intro op hop
  simp only [storeFilled, List.mem_cons, List.not_mem_nil, or_false] at hop
  rcases hop with rfl | rfl | rfl
  · refine ⟨rfl, fun d size faults heq => ?_⟩
    cases heq
    exact one_drive_fits hk
  · exact ⟨rfl, nofun⟩
  · exact ⟨rfl, nofun⟩

/-- The first piece of the snapshot comes from the new version's head, the second from the old
version's files. -/
theorem snapshot_mixes_versions :
    Allowed (State.apply oneDriveConfig) (Sound oneDriveConfig) (State.init oneDriveConfig)
        evictFirstHead ∧
      (State.openSnapshot oneDriveConfig (State.after oneDriveConfig evictFirstHead)
        (Digest.replicate 1) Faults.never).1 = some (snapshotFirst evictFirstHead) ∧
      (snapshotFirst evictFirstHead).pin = none ∧
      (∀ piece ∈ (streamFirst evictFirstHead replaceThenPlan).2, piece.pending = []) ∧
      Consecutive 0 (streamFirst evictFirstHead replaceThenPlan).2 10000 ∧
      (liveVersion (State.after oneDriveConfig evictFirstHead).history (Digest.replicate 1)).map
        (fun v => (v.size, v.body 0, v.body 5000)) = some (10000, 1, 1) ∧
      (assemble ByteView.empty (streamFirst evictFirstHead replaceThenPlan).2).data 0 = 2 ∧
      (assemble ByteView.empty (streamFirst evictFirstHead replaceThenPlan).2).data 5000 = 1 := by
  have hregular : ∀ op ∈ evictFirstHead, Regular oneDriveConfig op := by
    intro op hop
    simp only [evictFirstHead, List.mem_append] at hop
    rcases hop with (hop | hop) | hop
    · exact store_filled_regular (by decide) _ _ op hop
    · exact store_filled_regular (by decide) _ _ op hop
    · exact store_filled_regular (by decide) _ _ op hop
  refine ⟨regular_sound oneDriveConfig hregular, snapshot_first_some (by decide +kernel),
    by decide +kernel, by decide +kernel, by decide +kernel, by decide +kernel, by decide +kernel,
    by decide +kernel⟩

end GoblinStore
