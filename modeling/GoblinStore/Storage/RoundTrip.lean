import GoblinStore.Storage.LossyMap
import GoblinStore.Storage.ObjectBound

/-!
# Storing and reading back

`begin_store`, any split of a value into `write` calls, and `commit`: if all of them succeed, a
`read` gives the bytes back. `Solo` is what the calls of one store keep about their own handle,
whatever the state they start from looks like; the split into chunks appears nowhere but in the
ghost `body` of the handle.
-/

namespace GoblinStore

open GoblinStore.Lib GoblinStore.Core Pool

/-- The bytes of a list of chunks, one after the other. -/
def joinChunks (chunks : List (ByteView × Faults)) : ByteView :=
  chunks.foldl (fun value chunk => value.append chunk.1) ByteView.empty

namespace State

/-- The `write` calls of a store; `none` if one of them fails. -/
def writeAll (cfg : Config) (id : Nat) (σ : State) : List (ByteView × Faults) → Option State
  | [] => some σ
  | (chunk, faults) :: rest =>
      match σ.write cfg id chunk faults with
      | (.ok (), σ) => writeAll cfg id σ rest
      | (.error _, _) => none

/-- A whole store, made by one caller without interruption; `none` if a call fails. -/
def storeChunks (cfg : Config) (σ : State) (d : Digest) (size : Nat) (opens : Faults)
    (chunks : List (ByteView × Faults)) (flags expiry casExpected : Nat) (publish : Faults) :
    Option State :=
  match σ.beginStore cfg d size opens with
  | (.error _, _) => none
  | (.ok id, σ) =>
      match σ.writeAll cfg id chunks with
      | none => none
      | some σ =>
          match σ.commit cfg id flags expiry casExpected publish with
          | (.ok (), σ) => some σ
          | (.error _, _) => none

end State

/-- The handle of a store with the bytes written so far in its files, its staging buffer and its
head. -/
structure Solo (cfg : Config) (σ : State) (id : Nat) (h : StoreHandle) : Prop where
  opened : σ.handles.lookup id = some h
  disk : HandleDisk cfg σ.fs (σ.stageBytes h.stage) id h
  head : ∀ r, h.head = some r → Carries σ.ramBytes r h.body.data h.off
  head_fits : HeadFits cfg h.layout.size h.head

variable {cfg : Config} {σ σ' : State} {d : Digest} {id size : Nat} {h : StoreHandle}
  {faults : Faults}

/-- A store that was just opened. -/
theorem Solo.begin_store (hscratch : ScratchInv σ) (hres : Residency cfg σ)
    (hfits : cfg.FitsObject d size) (hok : σ.beginStore cfg d size faults = (.ok id, σ')) :
    ∃ h, Solo cfg σ' id h ∧ h.digest = d ∧ h.layout = cfg.layout size ∧
      h.body = ByteView.empty := by
  have hfree : ∀ tier drive, σ.fs.dir (scratchPath tier d σ.storeSeq drive) = none := by
    intro tier drive
    rw [Option.eq_none_iff_forall_ne_some]
    intro ino hino
    exact absurd (hscratch.scratch.suffix_lt _ _ _ _ _ hino) (lt_irrefl _)
  have hres' : Residency cfg σ' := by
    have := Residency.apply hres (.beginStore d size faults)
    rwa [State.apply, hok] at this
  -- head evictions touch no file
  let P : FileSystem → State → Prop := fun fs σ' => σ'.fs = fs
  rcases @State.begin_store_cases cfg
      (P (State.openFiles cfg σ.fs faults d (cfg.layout size) true (some σ.storeSeq)).2)
      (fun σ' policy hP _ => hP)
      (fun σ' victim policy hP _ => (State.evict_head_frame cfg { σ' with policy := policy }
      victim).2.1.trans hP)
      σ d size faults (fun ssd hdd fs stage writePool heq _ => by rw [heq]) with
    ⟨fs, -, heq⟩ | ⟨ssd, hdd, fs, hfs, heq | ⟨stage, writePool, -, ⟨σ₁, -, heq⟩ |
      ⟨σ₁, hP, -, heq⟩ | ⟨σ₁, r, ram, hP, -, -, heq⟩⟩⟩ <;> rw [heq] at hok <;> cases hok
  all_goals
    rw [hfs] at hP
    have hP' : σ₁.fs = fs := hP
    refine ⟨_, ⟨Table.lookup_insert_self .., ?_, ?_,
      hres'.reserved _ _ (Table.lookup_insert_self ..)⟩,
      rfl, rfl, rfl⟩
    · dsimp only
      rw [hP']
      exact DiskInv.opened_handle rfl hfits hfs hfree _ _ _
    · intro r _ i hi
      exact absurd hi (Nat.not_lt_zero i)

/-- A write that succeeds appends its chunk. -/
theorem Solo.write (hs : Solo cfg σ id h) {chunk : ByteView}
    (hok : σ.write cfg id chunk faults = (.ok (), σ')) :
    ∃ h', Solo cfg σ' id h' ∧ h'.digest = h.digest ∧ h'.layout = h.layout ∧
      h'.body = h.body.append chunk := by
  have hfill : ∀ r, h.head = some r →
      Carries (σ.fillHead h chunk).ramBytes r (h.body.append chunk).data
      (h.off + chunk.size) := fun r hr =>
      Contents.fill_head_self hr chunk hs.disk.progress.1 (hs.head r hr)
  rcases State.write_cases cfg σ id chunk faults with ⟨e, heq, -⟩ | ⟨h₀, hh, hend,
      ⟨hssd, hhdd, heq⟩ | ⟨hdisk, ok, w, hloop, hends⟩⟩
  · rw [heq] at hok
    cases hok
  · cases hs.opened.symm.trans hh
    rw [heq] at hok
    obtain ⟨-, rfl⟩ := Prod.mk.inj hok
    rw [State.fill_head_eq] at hfill ⊢
    refine ⟨State.advance h chunk,
      ⟨Table.lookup_insert_self .., ?_, hfill, hs.head_fits⟩, rfl, rfl, rfl⟩
    refine { hs.disk with progress := ⟨?_, hend⟩, disk := fun hram => ?_ }
    · simp only [State.advance, ByteView.append_size, hs.disk.progress.1]
    · exact absurd ⟨hssd, hhdd⟩ (hs.disk.disk_iff.1 hram)
  · cases hs.opened.symm.trans hh
    rcases hends with ⟨-, heq⟩ | ⟨rfl, heq⟩
    · rw [heq] at hok
      cases hok
    · rw [heq] at hok
      obtain ⟨-, rfl⟩ := Prod.mk.inj hok
      have hsame := State.stage_loop_same cfg faults chunk.data (chunk.size + 2) 0 chunk.size
        ⟨h, σ.stageBytes h.stage, σ.fs⟩
      rw [hloop] at hsame
      have hbody : w.handle.body = h.body := hsame.body
      have hoff : w.handle.off = h.off := hsame.off
      rw [State.fill_head_eq] at hfill ⊢
      refine ⟨State.advance w.handle chunk, ⟨Table.lookup_insert_self .., ?_, fun r hr => ?_, ?_⟩,
        hsame.digest, hsame.layout, ?_⟩
      · have hwritten := DiskInv.written_handle hs.disk hend (hs.disk.disk_iff.2 hdisk) hloop
        simp only [State.putStaging, State.advance, Function.update_self]
        exact hwritten
      · have hr' : h.head = some r := hsame.head.symm.trans hr
        simp only [State.putStaging, State.advance, hbody, hoff]
        exact hfill r hr'
      · show HeadFits cfg w.handle.layout.size w.handle.head
        rw [hsame.layout, hsame.head]
        exact hs.head_fits
      · show w.handle.body.append chunk = h.body.append chunk
        rw [hbody]

/-- All writes together append the chunks. -/
theorem Solo.write_all (hs : Solo cfg σ id h) {chunks : List (ByteView × Faults)}
    (hok : σ.writeAll cfg id chunks = some σ') :
    ∃ h', Solo cfg σ' id h' ∧ h'.digest = h.digest ∧ h'.layout = h.layout ∧
      h'.body = chunks.foldl (fun value chunk => value.append chunk.1) h.body := by
  induction chunks generalizing σ h with
  | nil =>
      cases hok
      exact ⟨h, hs, rfl, rfl, rfl⟩
  | cons first rest ih =>
      obtain ⟨chunk, faults⟩ := first
      rw [State.writeAll] at hok
      cases hwrite : σ.write cfg id chunk faults with
      | mk reply σ₁ =>
          rw [hwrite] at hok
          cases reply with
          | error e => cases hok
          | ok =>
              obtain ⟨h₁, hs₁, hdigest, hlayout, hbody⟩ := hs.write hwrite
              obtain ⟨h₂, hs₂, hdigest', hlayout', hbody'⟩ := ih hs₁ hok
              refine ⟨h₂, hs₂, hdigest'.trans hdigest, hlayout'.trans hlayout, ?_⟩
              rw [hbody', hbody]
              rfl

/-- Without a bound on the objects a commit drops none. -/
theorem State.enforce_object_bound_unbounded (hunbounded : cfg.maxObjects = 0) (σ : State)
    (faults : Faults) :
    State.enforceObjectBound cfg σ faults = σ := by
  rw [State.enforceObjectBound, State.boundLoop, if_neg (fun h => h.1 hunbounded)]

/-- The entry of `d`, and what it stands for, as long as it is indexed at all. -/
def ReadableUnlessDropped (cfg : Config) (d : Digest) (m : ObjectMeta) (v : Version) (σ : State) :
    Prop :=
  σ.index.lookup d = none ∨ Readable cfg σ d m v

/-- Dropping an object leaves every other version readable. -/
theorem ReadableUnlessDropped.drop_object {m : ObjectMeta} {v : Version}
    (hr : ReadableUnlessDropped cfg d m v σ) (e : Digest) (event : Event) :
    ReadableUnlessDropped cfg d m v (State.dropObject cfg σ e faults event) := by
  have hframe := State.drop_object_frame cfg σ e faults event
  rcases State.drop_object_cases cfg σ e faults event with ⟨-, heq⟩ | ⟨old, -, hends⟩
  · rw [heq]
    exact hr
  have hindex : (State.dropObject cfg σ e faults event).index = σ.index.erase e := by
    rcases hends with ⟨-, heq⟩ | ⟨r, -, heq⟩ <;> rw [heq]
  have hfs : (State.dropObject cfg σ e faults event).fs =
      State.unlinkFiles cfg σ.fs faults e (cfg.layout old.size) none := by
    rcases hends with ⟨-, heq⟩ | ⟨r, -, heq⟩ <;> rw [heq]
  unfold ReadableUnlessDropped
  rw [hindex, Table.lookup_erase]
  split_ifs with he
  · exact Or.inl rfl
  · refine hr.imp id fun hr => ?_
    have hc : Confined e 0 σ.fs (State.unlinkFiles cfg σ.fs faults e (cfg.layout old.size) none) :=
      State.unlink_files_confined (Or.inl rfl)
    refine ⟨?_, hr.size_eq, ?_, ?_, hr.head_fits⟩
    · rw [hindex, Table.lookup_erase, if_neg he]
      exact hr.indexed
    · rw [hfs]
      exact hr.disk.frame hc (hc.live_other he)
    · rw [hframe.ramBytes]
      exact hr.head

/-- A commit that succeeds makes the bytes of its handle readable, unless the object bound drops the
object again. -/
theorem Solo.commit (hs : Solo cfg σ id h) {flags expiry cas : Nat}
    (hok : σ.commit cfg id flags expiry cas faults = (.ok (), σ')) :
    h.off = h.layout.size ∧ ∃ m v, v.size = h.layout.size ∧ v.body = h.body.data ∧
      ReadableUnlessDropped cfg h.digest m v σ' ∧
      (cfg.maxObjects = 0 → σ'.index.lookup h.digest = some m) := by
  rcases State.commit_cases cfg σ id flags expiry cas faults with
    ⟨e, heq, -⟩ | ⟨h₀, ok, w, hh, hoff, hflush, ⟨-, heq⟩ | ⟨rfl, ⟨-, heq⟩ |
      ⟨-, published, fs, hpublish, ⟨-, heq⟩ | ⟨rfl, heq⟩⟩⟩⟩ <;> rw [heq] at hok
  · cases hok
  · cases hok
  · cases hok
  · cases hok
  cases hs.opened.symm.trans hh
  obtain ⟨-, rfl⟩ := Prod.mk.inj hok
  have hsame := State.flush_tail_same cfg faults ⟨h, σ.stageBytes h.stage, σ.fs⟩
  rw [hflush] at hsame
  have hdigest : w.handle.digest = h.digest := hsame.digest
  have hlayout : w.handle.layout = h.layout := hsame.layout
  have hbody : w.handle.body = h.body := hsame.body
  have hhead : w.handle.head = h.head := hsame.head
  have hdisk := DiskInv.published_object hs.disk hoff hflush hpublish
  refine ⟨hoff, ⟨h.layout.size, flags, expiry, (σ.etagSeq + 1) % wrap64, h.head⟩,
    ⟨h.layout.size, flags, (σ.etagSeq + 1) % wrap64, h.body.data⟩, rfl, rfl, ?_, ?_⟩
  · refine State.bound_loop_rule (fun σ' policy hr _ => ?_)
      (fun σ' victim policy hr _ => ?_) _ (Or.inr ?_)
    · exact hr.imp_right fun hr => { hr with }
    · refine ReadableUnlessDropped.drop_object ?_ victim _
      exact hr.imp_right fun hr => { hr with }
    · rw [State.retire_head_eq]
      refine ⟨?_, rfl, hdisk, fun r hr => ?_, hs.head_fits⟩
      · simp only [State.install, State.putStaging, hdigest, hlayout, hhead]
        exact Table.lookup_insert_self ..
      · have := hs.head r hr
        rwa [hoff] at this
  · intro hunbounded
    rw [State.enforce_object_bound_unbounded hunbounded, State.retire_head_eq]
    simp only [State.install, State.putStaging, hdigest, hlayout, hhead]
    exact Table.lookup_insert_self ..

/-- A value stored by any split into `write` calls, over any geometry and from any state the store
can reach, is read back: a read from an aligned offset gives as many bytes as the buffer and the
object have, all of them bytes of the value, where no disk read is too long for one call. Only the
object bound can drop the object in its own commit. -/
theorem store_read_round_trip (cfg : Config) (ops : List Op) (d : Digest) (size : Nat)
    (opens : Faults) (chunks : List (ByteView × Faults)) (flags expiry cas : Nat) (publish : Faults)
    (hfits : cfg.FitsObject d size)
    (hstore : (State.after cfg ops).storeChunks cfg d size opens chunks flags expiry cas publish =
      some σ') :
    (joinChunks chunks).size = size ∧ (cfg.maxObjects = 0 → σ'.index.lookup d ≠ none) ∧
      (σ'.index.lookup d ≠ none → ∀ offset outLen out faults, kDeviceBlock ∣ offset →
        State.Transfers cfg outLen → (∀ tier drive, faults.openat tier drive = false) →
        ∃ bytes, State.read cfg σ' d offset outLen out faults = .ok bytes ∧
          bytes.size = min outLen (size - offset) ∧
          ∀ p < bytes.size, bytes.data p = (joinChunks chunks).data (offset + p)) := by
  unfold State.storeChunks at hstore
  cases hbegin : (State.after cfg ops).beginStore cfg d size opens with
  | mk begun σ₁ =>
  rw [hbegin] at hstore
  cases begun with
  | error e => cases hstore
  | ok id =>
  dsimp only at hstore
  cases hwrites : σ₁.writeAll cfg id chunks with
  | none =>
      rw [hwrites] at hstore
      cases hstore
  | some σ₂ =>
  rw [hwrites] at hstore
  dsimp only at hstore
  cases hcommit : σ₂.commit cfg id flags expiry cas publish with
  | mk done σ₃ =>
  rw [hcommit] at hstore
  cases done with
  | error e => cases hstore
  | ok =>
  cases hstore
  obtain ⟨h₁, hs₁, rfl, hlayout₁, hbody₁⟩ :=
    Solo.begin_store (reachable_scratch_inv cfg ops) (reachable_bounded cfg ops).1 hfits hbegin
  obtain ⟨h₂, hs₂, hdigest, hlayout₂, hbody₂⟩ := hs₁.write_all hwrites
  obtain ⟨hoff, m, v, hsize, hbody, hreadable, hkept⟩ := hs₂.commit hcommit
  have hlen : h₂.layout.size = size := by
    rw [hlayout₂, hlayout₁, Config.layout, compute_layout_size]
  have hvalue : h₂.body = joinChunks chunks := by
    rw [hbody₂, hbody₁]
    rfl
  rw [hdigest] at hreadable hkept
  refine ⟨?_, fun hunbounded => ?_, fun hindexed offset outLen out faults haligned hmoves hopens =>
    ?_⟩
  · rw [← hvalue, hs₂.disk.progress.1, hoff, hlen]
  · rw [hkept hunbounded]
    exact Option.some_ne_none m
  · have hr := hreadable.resolve_left hindexed
    obtain ⟨bytes, hread, hbytes, hdata⟩ := State.read_exact hr haligned hmoves hopens out
    refine ⟨bytes, hread, ?_, fun p hp => ?_⟩
    · rw [hbytes, hsize, hlen]
    · rw [hdata p hp, hbody, hvalue]

/-- Ten thousand bytes in three unequal pieces. -/
def unequalChunks : List (ByteView × Faults) :=
  [(⟨1, fun p => UInt8.ofNat p⟩, Faults.never),
    (⟨5000, fun p => UInt8.ofNat (p + 1)⟩, Faults.never),
    (⟨4999, fun p => UInt8.ofNat (p + 5001)⟩, Faults.never)]

/-- After another object, ten thousand bytes are stored in unequal pieces and read from the second
block on. -/
theorem store_read_round_trip_unequal :
    ∃ σ' bytes,
      (State.after oneDriveConfig storeTenThousand).storeChunks oneDriveConfig (Digest.replicate 2)
        10000 Faults.never unequalChunks 0 0 0 Faults.never = some σ' ∧
      State.read oneDriveConfig σ' (Digest.replicate 2) 4096 65536 (fun _ => 9) Faults.never =
        .ok bytes ∧
      bytes.size = 5904 ∧ bytes.data 1000 = UInt8.ofNat 5096 := by
  have hstored : ((State.after oneDriveConfig storeTenThousand).storeChunks oneDriveConfig
      (Digest.replicate 2) 10000 Faults.never unequalChunks 0 0 0 Faults.never).isSome = true := by
    decide +kernel
  obtain ⟨σ', hσ'⟩ := Option.isSome_iff_exists.1 hstored
  obtain ⟨-, hindexed, hreads⟩ := store_read_round_trip oneDriveConfig storeTenThousand
    (Digest.replicate 2)
    10000 Faults.never unequalChunks 0 0 0 Faults.never (one_drive_fits (by decide)) hσ'
  obtain ⟨bytes, hread, hsize, hdata⟩ :=
    hreads (hindexed rfl) 4096 65536 (fun _ => 9) Faults.never ⟨1, rfl⟩
      (fun _ pool _ => (Nat.min_le_right pool.stripeUnit 65536).trans (by decide)) (fun _ _ => rfl)
  refine ⟨σ', bytes, hσ', hread, hsize, ?_⟩
  rw [hdata 1000 (by rw [hsize]; decide)]
  rfl

/-- With a bound of one object and a visited resident, a store succeeds and the new object is the
one that its commit evicts. -/
theorem round_trip_fails :
    ∃ σ', (State.after { oneDriveConfig with maxObjects := 1 }
        [.beginStore (Digest.replicate 1) 0 Faults.never, .commit 0 0 0 0 Faults.never,
          .touch (Digest.replicate 1)]).storeChunks { oneDriveConfig with maxObjects := 1 }
        (Digest.replicate 2) 0 Faults.never [] 0 0 0 Faults.never = some σ' ∧
      State.read { oneDriveConfig with maxObjects := 1 } σ' (Digest.replicate 2) 0 1 (fun _ => 0)
        Faults.never = .error .notFound :=
  ⟨_, rfl, rfl⟩

end GoblinStore
