import GoblinStore.Storage.Cas
import GoblinStore.Storage.Snapshots

/-!
# GET in blocking mode

`handle_conn` looks the object up, sends the header and then reads and sends the value chunk by
chunk, with one `read` call for each. Every call locks the storage anew, so a version that is
committed between two of them ends up behind a part of the old one (`blocking_get_mixes_versions`).
Without such a commit the chunks are those of the version in the header.
-/

namespace GoblinStore

open GoblinStore.Lib GoblinStore.Core

/-- The header of a value: flags, length and, for `gets`, the CAS. -/
structure ValueHeader where
  flags : Nat
  size : Nat
  cas : Option Nat
  deriving DecidableEq, Repr

/-- How far the reply got: the value is being sent, `CRLF END` is sent, or the connection is
closed. -/
inductive GetStatus where
  | streaming
  | completed
  | closed
  deriving DecidableEq, Repr

/-- A connection in `get` or `gets`, after the header. -/
structure GetConn where
  digest : Digest
  header : ValueHeader
  pos : Nat
  /-- the value bytes sent so far -/
  sent : ByteView
  /-- the I/O buffer -/
  chunk : Nat → UInt8
  call : Option ReadCall
  status : GetStatus

namespace GetConn

/-- The lookup and the header; `none` is a miss. -/
def start (σ : State) (d : Digest) (gets : Bool) (chunk : Nat → UInt8) : Option GetConn :=
  match σ.index.lookup d with
  | none => none
  | some m =>
      if m.isExpired σ.now then none
      else some ⟨d, ⟨m.flags, m.size, if gets then some m.etag else none⟩, 0, ByteView.empty, chunk,
        none, .streaming⟩

/-- The number of bytes of the next chunk. -/
def want (conn : GetConn) (chunkSize : Nat) : Nat := min chunkSize (conn.header.size - conn.pos)

/-- The next iteration of `stream_value`: start to read a chunk, or send the trailer. -/
def next (cfg : Config) (chunkSize : Nat) (σ : State) (conn : GetConn) (faults : Faults) :
    GetConn :=
  if conn.pos < conn.header.size then
    match State.readSnapshot cfg σ conn.digest conn.pos (conn.want chunkSize) conn.chunk faults with
    | .error _ => { conn with status := .closed }
    | .ok task => { conn with call := some task.start }
  else { conn with status := .completed }

/-- `read` returns, and the chunk is sent if it has the expected length. -/
def deliver (chunkSize : Nat) (conn : GetConn) (call : ReadCall) : GetConn :=
  if call.failed then { conn with status := .closed }
  else if call.Succeeded then
    if call.want = conn.want chunkSize then
      { conn with
        sent := conn.sent.append ⟨conn.want chunkSize, call.buf⟩
        pos := conn.pos + conn.want chunkSize
        chunk := call.buf
        call := none }
    else { conn with status := .closed }
  else conn

end GetConn

/-- What happens during a GET: a step of another thread or a completion of a disk read, an iteration
of the loop, the return of `read`, or a failing `send`. -/
inductive GetEvent where
  | disk (event : ReadEvent)
  | next (faults : Faults)
  | deliver
  | hangup

/-- One event; a connection that has finished takes no further part. -/
def getStep (cfg : Config) (chunkSize : Nat) : State × GetConn → GetEvent → State × GetConn
  | (σ, conn), .disk event =>
      match conn.call with
      | none => ((event.op.map (State.apply cfg σ)).getD σ, conn)
      | some call =>
          let s := readStep cfg (σ, call) event
          (s.1, { conn with call := some s.2 })
  | (σ, conn), .next faults =>
      match conn.status, conn.call with
      | .streaming, none => (σ, conn.next cfg chunkSize σ faults)
      | _, _ => (σ, conn)
  | (σ, conn), .deliver =>
      match conn.status, conn.call with
      | .streaming, some call => (σ, conn.deliver chunkSize call)
      | _, _ => (σ, conn)
  | (σ, conn), .hangup =>
      match conn.status with
      | .streaming => (σ, { conn with status := .closed })
      | _ => (σ, conn)

/-- Other threads take sound steps and publish no version of the key; a disk read that completes has
moved its bytes up to the end of the file. -/
def KeyUnchanged (cfg : Config) : State × GetConn → GetEvent → Prop
  | (σ, conn), .disk event =>
      (∀ op ∈ event.op, Sound cfg σ op ∧ ¬ op.Publishes cfg σ conn.digest) ∧
        ∀ call ∈ conn.call, FullRead (σ, call) event
  | _, _ => True

variable {cfg : Config} {chunkSize : Nat} {v : Version}

/-- The connection has sent a beginning of version `v`, the only one that the key can have, and a
call that is under way reads the bytes that follow. -/
structure Serving (cfg : Config) (v : Version) (s : State × GetConn) : Prop where
  sound : ∃ ops, Allowed (State.apply cfg) (Sound cfg) (State.init cfg) ops ∧
    s.1 = State.after cfg ops
  only : ∀ v', liveVersion s.1.history s.2.digest = some v' → v' = v
  size_eq : s.2.header.size = v.size
  pos_le : s.2.pos ≤ v.size
  sent_size : s.2.sent.size = s.2.pos
  sent : ∀ i < s.2.pos, s.2.sent.data i = v.body i
  call : ∀ call, s.2.call = some call →
    ∃ fs fast, Underway fs (fun p => padded v.body v.size (s.2.pos + p)) fast (s.1, call)
  done : s.2.status = .completed → s.2.pos = v.size

namespace Serving

variable {σ : State} {conn : GetConn}

/-- Steps of other threads that publish no version of the key. -/
theorem other (h : Serving cfg v (σ, conn)) {op : Op} (hsound : Sound cfg σ op)
    (hkey : ¬ op.Publishes cfg σ conn.digest) {call : Option ReadCall}
    (hcall : ∀ c, call = some c → ∃ fs fast,
      Underway fs (fun p => padded v.body v.size (conn.pos + p))
      fast (σ.apply cfg op, c)) : Serving cfg v (σ.apply cfg op, { conn with call := call }) where
  __ := h
  sound := by
    obtain ⟨ops, hops, heq⟩ := h.sound
    dsimp only at heq
    subst heq
    exact ⟨ops ++ [op], allowed_append.2 ⟨hops, hsound, trivial⟩,
      (State.after_append cfg ops [op]).symm⟩
  only v' hv' := by
    rcases apply_live hkey with hsame | hnone
    · exact h.only v' (hsame ▸ hv')
    · rw [hnone] at hv'
      cases hv'
  call := hcall

/-- The locked part of a `read` call finds version `v` or nothing. -/
theorem next (hblock : cfg.blockBytes ≤ wrap32) (h : Serving cfg v (σ, conn)) (faults : Faults) :
    Serving cfg v (σ, conn.next cfg chunkSize σ faults) := by
  unfold GetConn.next
  split_ifs with hpos
  · split
    · exact { h with done := fun hdone => by cases hdone }
    · rename_i task hok
      refine { h with call := fun call hstart => ?_ }
      cases hstart
      obtain ⟨ops, hops, heq⟩ := h.sound
      dsimp only at heq
      subst heq
      cases hm : (State.after cfg ops).index.lookup conn.digest with
      | none =>
          simp only [State.readSnapshot, hm] at hok
          cases hok
      | some m =>
          obtain ⟨v', hv', -, hreadable⟩ := readable_after hblock hops hm
          have heq : v' = v := h.only v' hv'
          subst heq
          have hsize : m.size = v'.size := hreadable.size_eq.symm
          obtain ⟨-, hgather⟩ := hreadable.gathering (by rw [hsize, ← h.size_eq]; exact hpos) hok
          rw [hsize] at hgather
          exact ⟨_, _, reachable_scratch_inv cfg ops, FileSystem.Keeps.refl _, hgather⟩
  · have hend : conn.pos = v.size := by
      have := h.pos_le
      have := h.size_eq
      dsimp only at *
      omega
    exact { h with done := fun _ => hend }

/-- A chunk that is sent extends what was sent. -/
theorem deliver (h : Serving cfg v (σ, conn)) {call : ReadCall} (hcall : conn.call = some call) :
    Serving cfg v (σ, conn.deliver chunkSize call) := by
  have hclose : Serving cfg v (σ, { conn with status := .closed }) :=
    { h with done := fun hdone => by cases hdone }
  unfold GetConn.deliver
  split_ifs with hfailed hdone hwant
  · exact hclose
  · obtain ⟨fs, fast, hunder⟩ := h.call call hcall
    have hle : conn.pos + conn.want chunkSize ≤ v.size := by
      have := h.pos_le
      have := h.size_eq
      dsimp only [GetConn.want] at *
      omega
    refine ⟨h.sound, h.only, h.size_eq, hle, ?_, fun i hi => ?_, nofun, fun hst => ?_⟩
    · dsimp only
      rw [ByteView.append_size, h.sent_size]
    · dsimp only at hi ⊢
      rcases Nat.lt_or_ge i conn.pos with hold | hnew
      · rw [ByteView.append_left (by rw [h.sent_size]; exact hold), h.sent i hold]
      · obtain ⟨j, rfl⟩ := Nat.exists_eq_add_of_le hnew
        have hj : j < conn.want chunkSize := by omega
        have hbyte := hunder.gathering.bytes hdone (hwant.symm ▸ hj)
        have happend := @ByteView.append_right j conn.sent ⟨conn.want chunkSize, call.buf⟩ hj
        rw [h.sent_size] at happend
        rw [happend]
        dsimp only at hbyte ⊢
        rw [hbyte, padded, if_pos (by omega)]
    · have hstream := h.done hst
      dsimp only [GetConn.want] at hstream ⊢
      have := h.size_eq
      dsimp only at this
      omega
  · exact hclose
  · exact h

theorem step (hblock : cfg.blockBytes ≤ wrap32) {s : State × GetConn} (h : Serving cfg v s)
    {event : GetEvent} (hkey : KeyUnchanged cfg s event) :
    Serving cfg v (getStep cfg chunkSize s event) := by
  obtain ⟨σ, conn⟩ := s
  cases event with
  | disk event =>
      obtain ⟨hops, hfull⟩ := hkey
      simp only [getStep]
      cases hcall : conn.call with
      | none =>
          dsimp only
          cases hop : event.op with
          | none => exact h
          | some op =>
              obtain ⟨hsound, hno⟩ := hops op hop
              have hnext := @other cfg v σ conn h op hsound hno none nofun
              rw [← hcall] at hnext
              exact hnext
      | some call =>
          obtain ⟨fs, fast, hunder⟩ := h.call call hcall
          have hstep := @Underway.step cfg fs _ fast (σ, call) hunder event (hfull call hcall)
          have hstate := read_step_state cfg (σ, call) event
          dsimp only
          generalize readStep cfg (σ, call) event = s at hstep hstate ⊢
          obtain ⟨σ', call'⟩ := s
          dsimp only at hstate ⊢
          subst hstate
          cases hop : event.op with
          | none =>
              rw [hop] at hstep
              exact { h with call := fun c hc => by cases hc; exact ⟨fs, fast, hstep⟩ }
          | some op =>
              obtain ⟨hsound, hno⟩ := hops op hop
              rw [hop] at hstep
              exact h.other hsound hno fun c hc => by cases hc; exact ⟨fs, fast, hstep⟩
  | next faults =>
      simp only [getStep]
      split
      · exact h.next hblock faults
      · exact h
  | deliver =>
      simp only [getStep]
      split
      · rename_i call _ hcall
        exact h.deliver hcall
      · exact h
  | hangup =>
      simp only [getStep]
      split
      · exact { h with done := fun hdone => by cases hdone }
      · exact h

end Serving

/-- In every sound run of a store with blocks of at most 4 GiB: whatever other threads do during a
GET of any chunk size, if none of them publishes a version of the key, no disk read is cut short and
the reply is completed, then header and value are those of the version that was live at the
lookup. -/
theorem blocking_get_one_version (cfg : Config) (hblock : cfg.blockBytes ≤ wrap32) (chunkSize : Nat)
    (before : List Op) (hsound : Allowed (State.apply cfg) (Sound cfg) (State.init cfg) before)
    (d : Digest) (gets : Bool) (chunk : Nat → UInt8) (conn : GetConn)
    (hstart : GetConn.start (State.after cfg before) d gets chunk = some conn)
    (events : List GetEvent)
    (hkey : Allowed (getStep cfg chunkSize) (KeyUnchanged cfg)
      (State.after cfg before, conn) events)
    (hdone : (run (getStep cfg chunkSize) (State.after cfg before, conn) events).2.status =
      .completed) :
    ∃ v, liveVersion (State.after cfg before).history d = some v ∧
      conn.header = ⟨v.flags, v.size, if gets then some v.etag else none⟩ ∧
      (run (getStep cfg chunkSize) (State.after cfg before, conn) events).2.sent.size = v.size ∧
      ∀ i < v.size,
        (run (getStep cfg chunkSize) (State.after cfg before, conn) events).2.sent.data i =
          v.body i := by
  unfold GetConn.start at hstart
  split at hstart
  · cases hstart
  · rename_i m hm
    split at hstart
    · cases hstart
    obtain rfl := Option.some.inj hstart
    obtain ⟨v, hv, hstamp, hreadable⟩ := readable_after hblock hsound hm
    obtain ⟨hsize, hflags, hetag⟩ : v.size = m.size ∧ v.flags = m.flags ∧ v.etag = m.etag := by
      simpa [Version.stamp, ObjectMeta.stamp] using hstamp
    have hserving := invariant_run (I := Serving cfg v)
      (fun s event hok h => Serving.step hblock h hok)
      ⟨⟨before, hsound, rfl⟩, fun v' hv' => ?_, hsize.symm,
        Nat.zero_le _, rfl, fun i hi => absurd hi (Nat.not_lt_zero i), fun c hc => (by cases hc),
        fun hst => (by cases hst)⟩ hkey
    · have hpos := hserving.done hdone
      refine ⟨v, hv, by rw [hsize, hflags, hetag], hserving.sent_size.trans hpos, fun i hi => ?_⟩
      exact hserving.sent i (by rw [hpos]; exact hi)
    · rw [hv] at hv'
      exact (Option.some.inj hv').symm

/-- A GET of the object of `storeFilled 1 0 1` in chunks of 4096 bytes. -/
def getFilled : GetConn :=
  (GetConn.start (State.after oneDriveConfig (storeFilled 1 0 1)) (Digest.replicate 1) true
    fun _ => 0).getD ⟨Digest.replicate 1, ⟨0, 0, none⟩, 0, ByteView.empty,
    fun _ => 0, none, .closed⟩

theorem get_filled_start : GetConn.start (State.after oneDriveConfig (storeFilled 1 0 1))
    (Digest.replicate 1) true (fun _ => 0) = some getFilled := by
  have hsome : (GetConn.start (State.after oneDriveConfig (storeFilled 1 0 1))
      (Digest.replicate 1) true
    fun _ => 0).isSome = true := by decide +kernel
  obtain ⟨conn, hconn⟩ := Option.isSome_iff_exists.1 hsome
  rw [getFilled, hconn]
  rfl

/-- The object is removed while the last chunk is read. -/
def getRemoved : List GetEvent :=
  [.next Faults.never, .deliver, .next Faults.never, .disk (.complete 0 4096), .deliver,
    .next Faults.never, .disk (.step (.remove (Digest.replicate 1) Faults.never)),
    .disk (.complete 0 4096), .deliver, .next Faults.never]

theorem blocking_get_one_version_removed :
    (run (getStep oneDriveConfig 4096) (State.after oneDriveConfig (storeFilled 1 0 1), getFilled)
        getRemoved).2.status = .completed ∧
      ∃ v,
        liveVersion (State.after oneDriveConfig (storeFilled 1 0 1)).history (Digest.replicate 1) =
          some v ∧
        getFilled.header = ⟨v.flags, v.size, if true then some v.etag else none⟩ ∧
        (run (getStep oneDriveConfig 4096)
          (State.after oneDriveConfig (storeFilled 1 0 1), getFilled) getRemoved).2.sent.size =
            v.size ∧
        ∀ i < v.size, (run (getStep oneDriveConfig 4096)
          (State.after oneDriveConfig (storeFilled 1 0 1), getFilled) getRemoved).2.sent.data i =
            v.body i := by
  have hdone : (run (getStep oneDriveConfig 4096)
      (State.after oneDriveConfig (storeFilled 1 0 1), getFilled)
      getRemoved).2.status = .completed := by decide +kernel
  refine ⟨hdone, blocking_get_one_version oneDriveConfig (by decide) 4096 (storeFilled 1 0 1)
    (regular_sound oneDriveConfig (store_filled_regular (by decide) 0 1)) (Digest.replicate 1) true
    (fun _ => 0) getFilled get_filled_start getRemoved ⟨trivial, trivial, trivial,
      ⟨nofun, by decide +kernel⟩, trivial, trivial,
      ⟨fun op hop => (by cases hop; exact ⟨trivial, id⟩), by decide +kernel⟩,
      ⟨nofun, by decide +kernel⟩, trivial, trivial, trivial⟩ hdone⟩

/-- A second version is committed after the first chunk was sent. -/
def getReplaced : List GetEvent :=
  [.next Faults.never, .deliver] ++ (storeFilled 1 1 2).map (fun op => .disk (.step op)) ++
    [.next Faults.never, .disk (.complete 0 4096), .deliver, .next Faults.never,
    .disk (.complete 0 4096), .deliver, .next Faults.never]

/-- The bytes of a version at two places. -/
def Event.bytesAt (i j : Nat) (event : Event) : Option (UInt8 × UInt8) :=
  event.version.map fun v => (v.body i, v.body j)

/-- The reply is completed with the first chunk of one version and the rest of another, which no
single committed version has. -/
theorem blocking_get_mixes_versions :
    Allowed (State.apply oneDriveConfig) (Sound oneDriveConfig) (State.init oneDriveConfig)
        (storeFilled 1 0 1) ∧
      (run (getStep oneDriveConfig 4096) (State.after oneDriveConfig (storeFilled 1 0 1), getFilled)
        getReplaced).2.status = .completed ∧
      ∀ d v, .put d v ∈ (run (getStep oneDriveConfig 4096)
          (State.after oneDriveConfig (storeFilled 1 0 1), getFilled) getReplaced).1.history →
        ¬ ((run (getStep oneDriveConfig 4096)
            (State.after oneDriveConfig (storeFilled 1 0 1), getFilled)
            getReplaced).2.sent.data 0 = v.body 0 ∧
          (run (getStep oneDriveConfig 4096)
            (State.after oneDriveConfig (storeFilled 1 0 1), getFilled)
            getReplaced).2.sent.data 4096 = v.body 4096) := by
  refine ⟨regular_sound oneDriveConfig
    (store_filled_regular (by decide) 0 1), by decide +kernel, ?_⟩
  intro d v hput
  have hversions : (run (getStep oneDriveConfig 4096)
      (State.after oneDriveConfig (storeFilled 1 0 1),
      getFilled) getReplaced).1.history.map (Event.bytesAt 0 4096) =
      [some (2, 2), some (1, 1)] := by
    decide +kernel
  have hmem := List.mem_map_of_mem (f := Event.bytesAt 0 4096) hput
  rw [hversions] at hmem
  have hfirst : (run (getStep oneDriveConfig 4096) (State.after oneDriveConfig (storeFilled 1 0 1),
      getFilled) getReplaced).2.sent.data 0 = 1 := by decide +kernel
  have hsecond : (run (getStep oneDriveConfig 4096) (State.after oneDriveConfig (storeFilled 1 0 1),
      getFilled) getReplaced).2.sent.data 4096 = 2 := by decide +kernel
  rw [hfirst, hsecond]
  rintro ⟨h0, h1⟩
  simp only [Event.bytesAt, Event.version, Option.map_some, ← h0, ← h1, List.mem_cons,
    Option.some.injEq, Prod.mk.injEq, List.not_mem_nil] at hmem
  revert hmem
  decide

end GoblinStore
