import GoblinStore.Storage.Pool

/-!
# Striped writes and the files of a stored extent

`stripedPwrite` writes a range segment by segment. `Stored` says that the per-drive files of a
pool hold exactly the first `extent` bytes of a tier: every byte is in its place, and the files
have no other bytes. `striped_pwrite_stored` extends a stored extent by the range written next.
-/

namespace GoblinStore

open GoblinStore.Lib

/-- The write loop of `striped_pwrite`; `limit` is the number of bytes written before a failing
`pwrite`, if one fails. -/
def pwriteLoop (fds : ObjectFiles) (src : Nat → UInt8) (limit : Option Nat) :
    List ReadSegment → Nat → FileSystem → Bool × FileSystem
  | [], _, fs => (true, fs)
  | seg :: rest, dst, fs =>
      match fds seg.drive with
      | none => (false, fs)
      | some ino =>
          match limit with
          | some done =>
              if done < dst + seg.length then
                (false, fs.pwrite ino seg.fileOffset (done - dst) fun i => src (dst + i))
              else
                pwriteLoop fds src limit rest (dst + seg.length)
                  (fs.pwrite ino seg.fileOffset seg.length fun i => src (dst + i))
          | none =>
              pwriteLoop fds src limit rest (dst + seg.length)
                (fs.pwrite ino seg.fileOffset seg.length fun i => src (dst + i))

/-- Write `n` bytes of `src` at a tier-local offset, split over the drives. -/
def stripedPwrite (fs : FileSystem) (limit : Option Nat) (pool : DrivePool) (keyHash : Nat)
    (fds : ObjectFiles) (offset n : Nat) (src : Nat → UInt8) : Bool × FileSystem :=
  pwriteLoop fds src limit (pool.planReads keyHash offset n) 0 fs

/-- The files hold exactly the first `extent` bytes of `content`. -/
structure Stored (pool : DrivePool) (keyHash extent : Nat) (content : Nat → UInt8)
    (files : Nat → File) : Prop where
  inside : ∀ x < extent, pool.fileOffsetOf x < (files (pool.driveOf keyHash x)).size
  byte : ∀ x < extent, (files (pool.driveOf keyHash x)).data (pool.fileOffsetOf x) = content x
  only : ∀ drive y, y < (files drive).size →
    ∃ x < extent, pool.driveOf keyHash x = drive ∧ pool.fileOffsetOf x = y

/-- The files hold the bytes `[lo, hi)` of `content` in their places. -/
structure Placed (pool : DrivePool) (keyHash lo hi : Nat) (content : Nat → UInt8)
    (files : Nat → File) : Prop where
  inside : ∀ x, lo ≤ x → x < hi → pool.fileOffsetOf x < (files (pool.driveOf keyHash x)).size
  byte : ∀ x, lo ≤ x → x < hi →
    (files (pool.driveOf keyHash x)).data (pool.fileOffsetOf x) = content x

variable {pool : DrivePool} {keyHash extent : Nat} {content : Nat → UInt8} {files : Nat → File}

/-- A stored extent is in place. -/
theorem Stored.placed (h : Stored pool keyHash extent content files) :
    Placed pool keyHash 0 extent content files :=
  ⟨fun x _ hx => h.inside x hx, fun x _ hx => h.byte x hx⟩

/-- New files hold nothing. -/
theorem stored_empty (hempty : ∀ drive, (files drive).size = 0) :
    Stored pool keyHash 0 content files where
  inside x hx := by omega
  byte x hx := by omega
  only drive y hy := by
    rw [hempty] at hy
    omega

theorem Stored.congr (h : Stored pool keyHash extent content files) {content' : Nat → UInt8}
    (heq : ∀ x < extent, content' x = content x) : Stored pool keyHash extent content' files where
  __ := h
  byte x hx := (h.byte x hx).trans (heq x hx).symm

variable {tierBytes o : Nat}

/-- A place in the file of a written chunk's drive, before that chunk, belongs to an earlier byte
of the extent. -/
theorem exists_earlier {y : Nat} (hfits : pool.Fits keyHash tierBytes)
    (ho : o < tierBytes) (hy : y < pool.fileOffsetOf o) :
    ∃ x < o, pool.driveOf keyHash x = pool.driveOf keyHash o ∧ pool.fileOffsetOf x = y := by
  have hs := pool.stripe_unit_pos
  have hn := pool.num_drives_pos
  set s := pool.stripeUnit with hsdef
  set n := pool.numDrives with hndef
  have hc := Nat.div_add_mod (o / s) n
  have hmod := Nat.mod_lt (o / s) hn
  have hpos := Nat.mod_lt y hs
  have hrow : y / s ≤ o / s / n := by
    rw [DrivePool.fileOffsetOf, ← hsdef, ← hndef] at hy
    have hlt := Nat.mod_lt o hs
    refine Nat.lt_succ_iff.1 ((Nat.div_lt_iff_lt_mul hs).2 ?_)
    rw [Nat.succ_mul]
    omega
  -- the chunk in row `y / s` on the same drive
  set c := n * (y / s) + o / s % n with hcdef
  have hx : c * s + y % s < o := by
    have hdiv := Nat.div_add_mod o s
    have hdivy := Nat.div_add_mod y s
    rcases Nat.lt_or_ge (y / s) (o / s / n) with hlt | hge
    · have h1 : n * (y / s) + n ≤ n * (o / s / n) := by
        rw [← Nat.mul_succ]
        exact Nat.mul_le_mul_left n hlt
      have h2 : (c + 1) * s ≤ o / s * s := Nat.mul_le_mul_right s (by omega)
      rw [Nat.succ_mul, Nat.mul_comm (o / s) s] at h2
      omega
    · have heq : y / s = o / s / n := by omega
      have hco : c = o / s := by rw [hcdef, heq, hc]
      rw [DrivePool.fileOffsetOf, ← hsdef, ← hndef, ← heq] at hy
      rw [hco, Nat.mul_comm]
      rw [Nat.mul_comm] at hdivy
      omega
  have hchunk : (c * s + y % s) / s = c := by
    rw [Nat.mul_comm, Nat.mul_add_div hs, Nat.div_eq_of_lt hpos, Nat.add_zero]
  refine ⟨c * s + y % s, hx, ?_, ?_⟩
  · rw [hfits.drive_of_eq (hx.trans ho), hfits.drive_of_eq ho, ← hsdef, ← hndef, hchunk, hcdef]
    rw [Nat.add_left_comm, Nat.mul_add_mod, Nat.add_mod_mod]
  · have hin : (c * s + y % s) % s = y % s := by
      rw [Nat.mul_comm, Nat.mul_add_mod, Nat.mod_mod]
    rw [DrivePool.fileOffsetOf, ← hsdef, ← hndef, hchunk, hin, hcdef, Nat.mul_add_div hn,
      Nat.div_eq_of_lt hmod, Nat.add_zero, Nat.mul_comm, Nat.div_add_mod]

/-- Positions of a segment follow each other in the file of one drive. -/
theorem segment_place {len x : Nat} (hlo : o ≤ x) (hhi : x < o + pool.segLen o len) :
    pool.driveOf keyHash x = pool.driveOf keyHash o ∧
      pool.fileOffsetOf x = pool.fileOffsetOf o + (x - o) := by
  have hj : x - o < pool.segLen o len := by omega
  have hx : x = o + (x - o) := by omega
  refine ⟨by rw [hx]; exact DrivePool.drive_of_add hj, ?_⟩
  conv_lhs => rw [hx]
  exact DrivePool.file_offset_of_add hj

section WriteSegment

variable {limit lo o len : Nat} {src : Nat → UInt8} {files' : Nat → File}
  (hlen : 0 < len) (hsrc : ∀ j < len, src j = content (o + j))
  (hfile : files' (pool.driveOf keyHash o) = (files (pool.driveOf keyHash o)).pwrite
    (pool.fileOffsetOf o) (pool.segLen o len) src)
  (hother : ∀ drive, drive ≠ pool.driveOf keyHash o → files' drive = files drive)

include hlen hsrc hfile hother

/-- Writing the next segment extends the bytes in place. -/
theorem Placed.write_segment (hsep : pool.Separates keyHash limit) (hend : o + len ≤ limit)
    (h : Placed pool keyHash lo o content files) :
    Placed pool keyHash lo (o + pool.segLen o len) content files' := by
  have hpos := pool.seg_len_pos o hlen
  have hle := pool.seg_len_le o len
  have hsize : (files' (pool.driveOf keyHash o)).size =
      max (files (pool.driveOf keyHash o)).size (pool.fileOffsetOf o + pool.segLen o len) := by
    rw [hfile, File.pwrite, if_neg (by omega)]
  have hdata : (files' (pool.driveOf keyHash o)).data =
      blit (files (pool.driveOf keyHash o)).data (pool.fileOffsetOf o) (pool.segLen o len) src := by
    rw [hfile, File.pwrite, if_neg (by omega)]
  constructor
  · intro x hlo hx
    rcases Nat.lt_or_ge x o with hlt | hge
    · have hold := h.inside x hlo hlt
      by_cases hd : pool.driveOf keyHash x = pool.driveOf keyHash o
      · rw [hd] at hold ⊢
        rw [hsize]
        omega
      · rw [hother _ hd]
        exact hold
    · obtain ⟨hd, ho⟩ := segment_place hge hx
      rw [hd, hsize, ho]
      omega
  · intro x hlo hx
    rcases Nat.lt_or_ge x o with hlt | hge
    · have hold := h.byte x hlo hlt
      by_cases hd : pool.driveOf keyHash x = pool.driveOf keyHash o
      · rw [hd] at hold ⊢
        rw [hdata, blit_outside, hold]
        -- an overlap would put two bytes of the extent in one place
        by_contra hover
        rw [not_or, Nat.not_lt, Nat.not_le] at hover
        have hj : pool.fileOffsetOf x - pool.fileOffsetOf o < pool.segLen o len := by omega
        have hplace := DrivePool.file_offset_of_add hj
        have hdrive : pool.driveOf keyHash (o + (pool.fileOffsetOf x - pool.fileOffsetOf o)) = _ :=
          DrivePool.drive_of_add hj
        have := hsep x (o + (pool.fileOffsetOf x - pool.fileOffsetOf o)) (by omega) (by omega)
          (by rw [hd, hdrive]) (by omega)
        omega
      · rw [hother _ hd]
        exact hold
    · obtain ⟨hd, ho⟩ := segment_place hge hx
      rw [hd, hdata, ho, blit_at (by omega), hsrc _ (by omega)]
      congr 1
      omega

/-- Writing the next segment extends the stored extent. -/
theorem Stored.write_segment {tierBytes : Nat} (hfits : pool.Fits keyHash tierBytes)
    (h : Stored pool keyHash o content files) (hend : o + len ≤ tierBytes) :
    Stored pool keyHash (o + pool.segLen o len) content files' := by
  have hpos := pool.seg_len_pos o hlen
  have hle := pool.seg_len_le o len
  have hplaced := h.placed.write_segment hlen hsrc hfile hother hfits.separates hend
  refine ⟨fun x => hplaced.inside x (Nat.zero_le x), fun x => hplaced.byte x (Nat.zero_le x), ?_⟩
  intro drive y hy
  by_cases hd : drive = pool.driveOf keyHash o
  · subst hd
    rw [hfile, File.pwrite, if_neg (by omega)] at hy
    dsimp only at hy
    rcases Nat.lt_or_ge y (files (pool.driveOf keyHash o)).size with hlt | hge
    · obtain ⟨x, hx, hplace⟩ := h.only _ y hlt
      exact ⟨x, by omega, hplace⟩
    · rcases Nat.lt_or_ge y (pool.fileOffsetOf o) with hbefore | hafter
      · obtain ⟨x, hx, hplace⟩ := exists_earlier hfits (by omega) hbefore
        exact ⟨x, by omega, hplace⟩
      · have hj : y - pool.fileOffsetOf o < pool.segLen o len := by omega
        refine ⟨o + (y - pool.fileOffsetOf o), by omega, DrivePool.drive_of_add hj, ?_⟩
        rw [DrivePool.file_offset_of_add hj]
        omega
  · rw [hother _ hd] at hy
    obtain ⟨x, hx, hplace⟩ := h.only drive y hy
    exact ⟨x, by omega, hplace⟩

end WriteSegment

/-! ## The write loop -/

variable {fs : FileSystem} {fds : ObjectFiles} {src : Nat → UInt8} {limit : Option Nat}

/-- A striped write changes no directory and no inode behind other descriptors. -/
theorem pwrite_loop_frame (segs : List ReadSegment) (dst : Nat) :
    (pwriteLoop fds src limit segs dst fs).2.dir = fs.dir ∧
      (pwriteLoop fds src limit segs dst fs).2.next = fs.next ∧
      ∀ ino, (∀ drive, fds drive ≠ some ino) →
        (pwriteLoop fds src limit segs dst fs).2.file ino = fs.file ino := by
  induction segs generalizing dst fs with
  | nil => exact ⟨rfl, rfl, fun _ _ => rfl⟩
  | cons seg rest ih =>
      have hwrite : ∀ ino n (data : Nat → UInt8), fds seg.drive = some ino → ∀ ino',
          (∀ drive, fds drive ≠ some ino') →
          (fs.pwrite ino seg.fileOffset n data).file ino' = fs.file ino' := by
        intro ino n data hino ino' hne
        refine Function.update_of_ne ?_ _ _
        rintro rfl
        exact hne _ hino
      rw [pwriteLoop]
      split
      · exact ⟨rfl, rfl, fun _ _ => rfl⟩
      · rename_i ino hino
        split
        · split_ifs
          · exact ⟨rfl, rfl, hwrite _ _ _ hino⟩
          · obtain ⟨h1, h2, h3⟩ := @ih (fs.pwrite ino seg.fileOffset seg.length fun i =>
              src (dst + i))
              (dst + seg.length)
            exact ⟨h1, h2, fun i hi => (h3 i hi).trans (hwrite _ _ _ hino i hi)⟩
        · obtain ⟨h1, h2, h3⟩ := @ih (fs.pwrite ino seg.fileOffset seg.length fun i =>
            src (dst + i))
            (dst + seg.length)
          exact ⟨h1, h2, fun i hi => (h3 i hi).trans (hwrite _ _ _ hino i hi)⟩

/-- A striped write through scratch descriptors is confined to their store. -/
theorem pwrite_loop_confined {d : Digest} {id : Nat} {tier : Tier} (segs : List ReadSegment)
    (dst : Nat) (hscratch : ∀ drive ino, fds drive = some ino →
      fs.dir (scratchPath tier d id drive) = some ino) :
    Pool.Confined d id fs (pwriteLoop fds src limit segs dst fs).2 := by
  obtain ⟨hdir, hnext, hfile⟩ := @pwrite_loop_frame fs fds src limit segs dst
  refine ⟨hnext.ge, fun path _ _ => by rw [hdir], fun tier drive ino hino => ?_,
    fun ino _ hnot => hfile ino fun drive hd => hnot tier drive (hscratch drive ino hd)⟩
  rw [hdir] at hino
  exact Or.inl hino

/-- Descriptors of different drives are different inodes. -/
def ObjectFiles.Distinct (fds : ObjectFiles) : Prop :=
  ∀ d d' ino, fds d = some ino → fds d' = some ino → d = d'

variable {n : Nat}

/-- The bodies behind a descriptor set after a write through one of its descriptors. -/
theorem bodies_pwrite {ino off drive : Nat} (hinj : fds.Distinct) (hino : fds drive = some ino) :
    (fs.pwrite ino off n src).bodies fds drive = (fs.bodies fds drive).pwrite off n src ∧
      ∀ d, d ≠ drive → (fs.pwrite ino off n src).bodies fds d = fs.bodies fds d := by
  constructor
  · simp [FileSystem.bodies, hino, FileSystem.pwrite]
  · intro d hd
    unfold FileSystem.bodies
    cases hfd : fds d with
    | none => rfl
    | some i =>
        refine Function.update_of_ne ?_ _ _
        rintro rfl
        exact hd (hinj d drive i hfd hino)

/-- The step of the write loop: a failing `pwrite`, or one segment written. -/
theorem pwrite_loop_cons (seg : ReadSegment) {rest : List ReadSegment} {dst ino : Nat}
    (hino : fds seg.drive = some ino) :
    (pwriteLoop fds src limit (seg :: rest) dst fs).1 = false ∧ limit ≠ none ∨
      pwriteLoop fds src limit (seg :: rest) dst fs = pwriteLoop fds src limit rest
        (dst + seg.length) (fs.pwrite ino seg.fileOffset seg.length fun i => src (dst + i)) := by
  rw [pwriteLoop]
  simp only [hino]
  cases limit with
  | none => exact Or.inr rfl
  | some done =>
      dsimp only
      split_ifs
      · exact Or.inl ⟨rfl, by simp⟩
      · exact Or.inr rfl

/-- A striped write of the next `n` bytes extends the stored extent, unless a `pwrite` fails. -/
theorem pwrite_loop_stored (hfits : pool.Fits keyHash tierBytes) (hinj : fds.Distinct)
    (hopen : ∀ x < tierBytes, fds (pool.driveOf keyHash x) ≠ none) {dst : Nat}
    (hend : o + n ≤ tierBytes) (hsrc : ∀ j < n, src (dst + j) = content (o + j))
    (h : Stored pool keyHash o content (fs.bodies fds)) :
    (pwriteLoop fds src limit (pool.planReads keyHash o n) dst fs).1 = false ∧ limit ≠ none ∨
      (pwriteLoop fds src limit (pool.planReads keyHash o n) dst fs).1 = true ∧
      Stored pool keyHash (o + n) content
        ((pwriteLoop fds src limit (pool.planReads keyHash o n) dst fs).2.bodies fds) := by
  induction n using Nat.strongRecOn generalizing o dst fs with
  | ind n ih =>
      rcases Nat.eq_zero_or_pos n with rfl | hn
      · exact Or.inr ⟨rfl, h⟩
      · have hpos := pool.seg_len_pos o hn
        have hle := pool.seg_len_le o n
        obtain ⟨ino, hino⟩ := Option.ne_none_iff_exists'.1 (hopen o (by omega))
        rw [DrivePool.plan_reads_cons hn]
        rcases pwrite_loop_cons ⟨pool.driveOf keyHash o, pool.fileOffsetOf o, pool.segLen o n⟩ hino
          with hfail | hstep
        · exact Or.inl hfail
        · rw [hstep]
          obtain ⟨hfile, hother⟩ := bodies_pwrite hinj hino
          have hnext := h.write_segment hn (fun j hj => hsrc j hj) hfile hother hfits hend
          have hsrc' : ∀ j < n - pool.segLen o n,
              src (dst + pool.segLen o n + j) = content (o + pool.segLen o n + j) := by
            intro j hj
            rw [Nat.add_assoc dst, Nat.add_assoc o]
            exact hsrc _ (by omega)
          have hrest := ih (n - pool.segLen o n) (by omega) (by omega) hsrc' hnext
          rwa [show o + pool.segLen o n + (n - pool.segLen o n) = o + n by omega] at hrest

/-- A striped write of the next `n` bytes extends the stored extent, unless a `pwrite` fails. -/
theorem striped_pwrite_stored (hfits : pool.Fits keyHash tierBytes) (hinj : fds.Distinct)
    (hopen : ∀ x < tierBytes, fds (pool.driveOf keyHash x) ≠ none)
    (hend : o + n ≤ tierBytes) (hsrc : ∀ j < n, src j = content (o + j))
    (h : Stored pool keyHash o content (fs.bodies fds)) :
    (stripedPwrite fs limit pool keyHash fds o n src).1 = false ∧ limit ≠ none ∨
      (stripedPwrite fs limit pool keyHash fds o n src).1 = true ∧
      Stored pool keyHash (o + n) content
        ((stripedPwrite fs limit pool keyHash fds o n src).2.bodies fds) :=
  pwrite_loop_stored hfits hinj hopen hend (by simpa using hsrc) h

end GoblinStore
