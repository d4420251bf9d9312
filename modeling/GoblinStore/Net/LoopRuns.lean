import GoblinStore.Net.PipelineEvents
import GoblinStore.Storage.ObjectBound

/-!
# Runs of a connection

Every event keeps the invariant (`Inv.step`), so it holds after any run that meets the terms.
-/

namespace GoblinStore.Net

open GoblinStore.Lib GoblinStore.Core

variable {P : Type} {A : Terms} {cfg : Config} {s : Loop P} {v : Seams P} {k : Nat} {io : Io}

/-! ## Completions -/

/-- A closing connection without outstanding operations is freed. -/
theorem Inv.retire (h : Inv A cfg s) : Inv A cfg s.retire := by
  unfold Loop.retire
  split_ifs with hdone
  · have hpending : s.c.pending = [] :=
      List.eq_nil_of_length_eq_zero (h.base.count.symm.trans hdone.2)
    have hwaits : s.c.Tidy := h.phase.elim (fun hleft => hleft.1.waits) fun hright => hright.1.waits
    have hbase := h.base.drop_get
    obtain ⟨σ, hσ, heq⟩ := drop_get_eq cfg s
    rw [heq] at hbase ⊢
    refine ⟨{ hbase with }, Or.inr ⟨⟨fun hne => absurd hpending hne, hdone.1,
        rfl, rfl, rfl, fun _ => rfl, fun io hio => ?_, hwaits.1, hwaits.2.1, fun _ => rfl⟩,
          fun _ => hpending⟩⟩
    change io ∈ s.c.pending at hio
    rw [hpending] at hio
    cases hio
  · exact h

/-- A send from `out` has completed. -/
theorem Still.on_send_out (h : Still A cfg s) (hv : v.Sound A cfg)
    (hstate : s.c.state.reading = true ∨ s.c.state = .getHeader ∨ s.c.state = .getTrailer)
    (henough : s.Enough A cfg) {res : Int} (hres : res ≤ (s.c.out.drop s.c.outSent).length) :
    Inv A cfg (Loop.onSend cfg { s with c := { s.c with
      sent := s.c.sent ++ (s.c.out.drop s.c.outSent).take res.toNat } } res v) := by
  have hhead : s.c.state ≠ .getSendHead := by
    rintro heq
    rw [heq] at hstate
    rcases hstate with hs | hs | hs <;> cases hs
  have hstream := h.state
  unfold Loop.onSend
  by_cases hpos : 0 < res
  · rw [if_neg (by omega), if_neg (by omega)]
    have hsent := h.on_out_sent hv hstate henough (show res.toNat ≤ _ by omega)
    dsimp only
    split
    · rename_i hs
      exact absurd hs hstream
    · rename_i hs
      exact absurd hs hhead
    · exact hsent
  · have hzero : res.toNat = 0 := by omega
    rw [hzero, List.take_zero, List.append_nil]
    split_ifs
    · dsimp only
      split
      · rename_i hs
        exact absurd hs hstream
      · rename_i hs
        exact absurd hs hhead
      · exact h.start_send hstate
    · exact h.close
    · exact h.close
    · omega

/-- A send of the pinned head has completed. -/
theorem Still.on_send_head (h : Still A cfg s) (hv : v.Sound A cfg) (hs : s.c.state = .getSendHead)
    (henough : s.Enough A cfg) {res : Int} (hres : res ≤ (s.c.headHi - s.c.headSent : Nat))
    {bytes : List UInt8} {stale : Bool} (hlen : bytes.length = res.toNat)
    (hstale : stale = false → s.c.stale = false ∧
      bytes = (List.range res.toNat).map fun i => s.c.object (s.c.headSent + i))
    (hnone : res ≤ 0 → stale = s.c.stale) :
    Inv A cfg (Loop.onSend cfg { s with c := { s.c with
      wire := s.c.wire ++ bytes, sent := s.c.sent ++ bytes, stale := stale } } res v) := by
  unfold Loop.onSend
  by_cases hpos : 0 < res
  · rw [if_neg (by omega), if_neg (by omega)]
    have hsent := h.on_head_sent hv hs henough (show res.toNat ≤ _ by omega) hlen hstale
    dsimp only
    split
    · rename_i hstream
      exact absurd hstream h.state
    · exact hsent
    · rename_i hne
      exact absurd hs hne
  · obtain rfl : bytes = [] := List.eq_nil_of_length_eq_zero (by omega)
    obtain rfl := hnone (Int.not_lt.1 hpos)
    rw [List.append_nil, List.append_nil]
    split_ifs
    · have howns : Owns s.c (.sendHead s.c.headSent (s.c.headHi - s.c.headSent)) := ⟨hs, rfl, rfl⟩
      dsimp only
      split
      · rename_i hstream
        exact absurd hstream h.state
      · exact h.start howns rfl trivial
      · rename_i hne
        exact absurd hs hne
    · exact h.close
    · exact h.close
    · omega

/-- A send that completes after `abort_get`: there is no lane it could be from. -/
theorem on_send_aborted (hstate : s.c.state = .getStream) (hclosing : s.c.closing = true)
    (hsend : s.c.sendLane = none) (res : Int) (v : Seams P) : ∃ undefined,
    s.onSend cfg res v = { s with c := { s.c with undefined := undefined } } := by
  have hclose : s.closeConn = { s with c := { s.c with undefined := s.c.undefined } } := by
    unfold Loop.closeConn
    rw [← hclosing]
  unfold Loop.onSend
  rw [hstate]
  dsimp only
  split_ifs
  · refine ⟨s.c.undefined, ?_⟩
    unfold Loop.startLaneSend
    rw [if_pos hclosing]
  · exact ⟨_, hclose⟩
  · exact ⟨_, hclose⟩
  · refine ⟨true, ?_⟩
    unfold Loop.onLaneSent
    split
    · rfl
    · rename_i hsome
      cases hsend.symm.trans hsome

/-- What is outstanding after `abort_get` completes without effect, but for a send that goes on. -/
theorem Aborted.complete (h : Aborted s.c) (hbase : Base A cfg s) (hroomy : ¬ A.roomy)
    (hk : s.c.pending[k]? = some io) (room : Nat) (res : Int) (data : Nat → UInt8) (v : Seams P) :
    Inv A cfg (Loop.dispatch cfg ((s.taken k room).transferred io res) io res data v) := by
  have hmem := List.mem_of_getElem? hk
  have hstate := h.state (List.ne_nil_of_mem hmem)
  have hkind := h.kinds io hmem
  have htaken := hbase.taken hk (Or.inr h.readLane) room
  have hkinds : ∀ io' ∈ (s.taken k room).c.pending, io'.onLane = true :=
    fun io' hio' => h.kinds io' (mem_of_taken room hio')
  cases io with
  | read i buf seg =>
      unfold Loop.dispatch Loop.transferred Loop.onRead
      dsimp only
      rw [show (s.taken k room).c.readLane = none from h.readLane]
      refine ⟨{ htaken with windows := fun _ _ _ j _ hready => ?_ },
        Or.inr ⟨{ h with state := fun _ => hstate, kinds := hkinds },
        fun hyes => absurd hyes hroomy⟩⟩
      cases (h.ready j).symm.trans hready
  | sendLane i buf sent n segs done =>
      obtain ⟨undefined, heq⟩ := @on_send_aborted _ cfg ((s.taken k room).wired
        ((List.range res.toNat).map fun j => s.mem buf (sent + j)))
        hstate h.closing h.sendLane res v
      show Inv A cfg (Loop.onSend cfg ((s.taken k room).wired
        ((List.range res.toNat).map fun j => s.mem buf (sent + j))) res v)
      rw [heq]
      exact ⟨{ htaken with sane := fun hyes => absurd hyes hroomy },
        Or.inr ⟨{ h with state := fun _ => hstate, kinds := hkinds },
          fun hyes => absurd hyes hroomy⟩⟩
  | _ => cases hkind

/-- A completion. -/
theorem Inv.complete (h : Inv A cfg s) (hv : v.Sound A cfg) (k : Nat) (res : Int) (room : Nat)
    (data : Nat → UInt8) (hroom : A.roomy → (room = 0 ∨ s.Roomy cfg room) ∧
      ∀ i buf seg, s.c.pending[k]? = some (.read i buf seg) →
      (s.c.lane i).reads = 1 → (s.c.lane i).err = true ∨ res ≤ 0 → s.c.closing = true ∨
      s.c.sendLane = none)
    (hwhole : A.whole → ∀ i buf seg, s.c.pending[k]? = some (.read i buf seg) → res ≤ 0 ∨
      (seg.len : Int) ≤ res)
    (hfine : A.succeed → ∀ i buf seg, s.c.pending[k]? = some (.read i buf seg) → 0 < res) :
    Inv A cfg (s.complete cfg k res room data v) := by
  unfold Loop.complete
  cases hk : s.c.pending[k]? with
  | none => exact h
  | some io =>
      refine Inv.retire ?_
      show Inv A cfg (Loop.dispatch cfg ((s.taken k room).transferred io (io.clamp res)) io
          (io.clamp res) data v)
      have henough : (s.taken k room).Enough A cfg := fun hroomy => (hroom hroomy).1
      rcases h.phase with ⟨hphase, htracked, -, hdata⟩ | ⟨haborted, hnone⟩
      · have howns := hphase.owns io (List.mem_of_getElem? hk)
        have hstill := fun hio hstate => hphase.still h.base hdata hk hio hstate room
        cases io with
        | recv => exact (hstill rfl (St.ne_stream_of_reading howns)).on_recv hv howns _ data
        | poll => exact hv.onPoll _ (hstill rfl (St.ne_stream_of_reading howns)) howns
        | sendOut bytes =>
            obtain ⟨hstate, rfl⟩ := howns
            have hne : s.c.state ≠ .getStream := by
              rcases hstate with hs | hs | hs
              · exact St.ne_stream_of_reading hs
              · exact fun heq => absurd (hs.symm.trans heq) nofun
              · exact fun heq => absurd (hs.symm.trans heq) nofun
            exact (hstill rfl hne).on_send_out hv hstate henough (min_le_right _ _)
        | sendHead sent n =>
            obtain ⟨hs, rfl, rfl⟩ := howns
            have hne : s.c.state ≠ .getStream := fun heq => absurd (hs.symm.trans heq) nofun
            refine (hstill rfl hne).on_send_head hv hs henough (min_le_right _ _) ?_
              (fun hfalse => ?_) fun hres => ?_
            · rw [List.length_map, List.length_range]
              rfl
            · obtain ⟨hold, hagrees⟩ := Bool.or_eq_false_iff.1 hfalse
              rw [Bool.not_eq_false'] at hagrees
              refine ⟨hold, List.map_congr_left fun i hi => ?_⟩
              exact of_decide_eq_true hagrees i (List.mem_range.1 hi)
            · -- no bytes, so none that differ
              have hzero : (Io.clamp res (.sendHead s.c.headSent
                  (s.c.headHi - s.c.headSent))).toNat = 0 :=
                Int.toNat_of_nonpos hres
              have hagrees : ∀ bytes off, (s.taken k room).c.agrees bytes off 0 = true :=
                fun bytes off =>
                decide_eq_true fun i hi => absurd hi (Nat.not_lt_zero i)
              rw [hzero, hagrees, Bool.not_true, Bool.or_false]
        | sendLane i buf sent n segs done =>
            obtain ⟨hstate, hsend, hheld, rfl, rfl, rfl, hsending⟩ := howns
            exact (hphase.launch h.base htracked hdata hk room).on_send hv hsending hheld henough
              (min_le_right _ _)
        | read i buf seg =>
            refine hphase.on_read h.base htracked hdata hv hk
              (fun hroomy => ⟨(hroom hroomy).1, (hroom hroomy).2 i buf seg hk⟩)
              (fun hw => hwhole hw i buf seg hk) (fun hf => hfine hf i buf seg hk) fun b hb => ?_
            exact Function.update_of_ne hb _ _
      · refine haborted.complete h.base (fun hroomy => ?_) hk room _ data v
        rw [hnone hroomy] at hk
        cases hk

/-! ## Waiters, stalls and other connections -/

/-- Nothing is outstanding for a connection that is parked. -/
theorem Phase.parked (h : Phase cfg s) (hbase : Base A cfg s) (hdata : Data A s.c)
    (hwaits : s.c.state.waits ≠ []) :
    Still A cfg s := by
  have hstate : s.c.state ≠ .getStream := by
    rintro heq
    rw [heq] at hwaits
    exact hwaits rfl
  have hreading : s.c.state.reading ≠ true := fun hread => hwaits (St.waits_of_reading hread)
  have hnot : ∀ st : St, st.waits = [] → s.c.state ≠ st := by
    rintro st hst rfl
    exact hwaits hst
  refine ⟨hbase, List.eq_nil_iff_forall_not_mem.2 fun io hio => ?_, hstate, (h.outside hstate).1,
    (h.outside hstate).2, h.rest, h.get, h.waits, hdata⟩
  have howns := h.owns io hio
  cases io with
  | recv | poll => exact hreading howns
  | sendOut bytes =>
      rcases howns.1 with hread | hheader | htrailer
      · exact hreading hread
      · exact hnot _ rfl hheader
      · exact hnot _ rfl htrailer
  | sendHead sent n => exact hnot _ rfl howns.1
  | sendLane i buf sent n segs done => exact hstate howns.1
  | read i buf seg => cases (h.outside hstate).1.symm.trans howns.1

/-- A parked connection that is not closing. -/
theorem Inv.parked (h : Inv A cfg s) (hwaits : s.c.state.waits ≠ [])
    (hopen : ¬ s.c.closing = true) :
    Still A cfg s := by
  rcases h.phase with ⟨hphase, -, -, hdata⟩ | ⟨haborted, -⟩
  · exact hphase.parked h.base hdata hwaits
  · exact absurd haborted.closing hopen

theorem Inv.wake_get (h : Inv A cfg s) (hv : v.Sound A cfg) (hsettled : ¬ A.settled)
    (framing : Framing) :
    Inv A cfg (s.wakeGet cfg framing v) := by
  unfold Loop.wakeGet Loop.drainGet
  split_ifs with hwait
  · obtain ⟨hstate, hopen⟩ := hwait
    have hwaits : s.c.state.waits ≠ [] := by
      rw [hstate]
      exact List.cons_ne_nil _ _
    have hresting : s.c.state.resting = true := by
      rw [hstate]
      rfl
    have hstill := h.parked hwaits hopen
    have hqueues : s.c.queues.erase .getWait = [] := by
      rw [hstill.waits.1, hstate]
      rfl
    have hidle : Still A cfg { s with c := { s.c with
        state := .idle, queues := s.c.queues.erase .getWait } } :=
      hstill.change hresting rfl hqueues (fun _ => hqueues)
        (fun hsh => absurd ((hstill.waits.2.1 hsh).symm.trans hstate) fun heq => by cases heq)
        _ _ _ _
    obtain ⟨hnext, -, -, hparked, hends⟩ :=
      Still.begin_get (s := { s with c := { s.c with queues := s.c.queues.erase .getWait } }) hidle
        (fun hyes => absurd hyes hsettled) framing
    split
    · rename_i s' hbegin
      rw [hbegin] at hnext hparked
      refine hnext.inv (Or.inr ?_)
      rw [hparked rfl]
      exact List.cons_ne_nil _ _
    · rename_i s' hbegin
      rw [hbegin] at hnext hends
      dsimp only at hnext hends
      rcases hends rfl with hidle | ⟨hheader, -⟩
      · rw [if_neg (by rw [hidle]; exact fun heq => by cases heq)]
        exact hv.process _ hnext (St.reading_iff.2 (Or.inl hidle))
      · rw [if_pos hheader]
        exact hnext.start_send (Or.inr (Or.inl hheader))
  · exact h

theorem Inv.wake_set (h : Inv A cfg s) (hv : v.Sound A cfg) (sh : Bool) :
    Inv A cfg (s.wakeSet sh v) := by
  unfold Loop.wakeSet Loop.drainSet
  split_ifs with hwait
  · obtain ⟨hstate, hopen⟩ := hwait
    have hwaits : s.c.state.waits ≠ [] := by
      rw [hstate]
      exact List.cons_ne_nil _ _
    have hresting : s.c.state.resting = true := by
      rw [hstate]
      rfl
    have hstill := h.parked hwaits hopen
    have hqueues : s.c.queues.erase .setWait = [] := by
      rw [hstill.waits.1, hstate]
      rfl
    exact hv.process _ (hstill.change hresting rfl hqueues (fun _ => hqueues)
      (fun _ => rfl) _ _ _ _) rfl
  · exact h

theorem Inv.sweep (h : Inv A cfg s) : Inv A cfg s.sweep := by
  unfold Loop.sweep
  split_ifs
  · rcases h.phase with ⟨hphase, -, -, hdata⟩ | ⟨haborted, hnone⟩
    · exact h.base.close hphase hdata
    · have hbase := h.base
      exact ⟨{ hbase with }, Or.inr ⟨{ haborted with closing := rfl }, hnone⟩⟩
  · exact h

variable {others : List Nat} {room : Nat}

/-- A change around the connection. -/
theorem Inv.around (h : Inv A cfg s) {σ : State} {iobufs : BlockPool} {mem : Nat → Nat → UInt8}
    {readAhead : Bool} (hres : Residency cfg σ) (hchunk : 0 < iobufs.blockBytes)
    (hbufs : Bufs iobufs.free others s.c.lane s.c.nLanes)
    (hmem : A.intact → ∀ i, (s.c.lane i).haveBuf = true →
      mem (s.c.lane i).buf = s.mem (s.c.lane i).buf)
    (haround : Around A ⟨σ, iobufs, mem, others, room, readAhead, s.c, s.proto⟩) :
    Inv A cfg ⟨σ, iobufs, mem, others, room, readAhead, s.c, s.proto⟩ := by
  have hbase := h.base
  refine ⟨{ hbase with
    residency := hres, chunk := hchunk, bufs := hbufs,
    windows := fun hintact hstale hstate i hheld hready => ?_, around := haround },
      h.phase.imp_left fun hleft => ?_⟩
  · show ∀ p < (s.c.lane i).len, mem (s.c.lane i).buf p = _
    rw [hmem hintact i hheld]
    exact hbase.windows hintact hstale hstate i hheld hready
  · obtain ⟨hphase, htracked, hbusy, hdata⟩ := hleft
    exact ⟨{ hphase with }, htracked, hbusy, hdata⟩

variable {free : List Nat} {lane : Fin 2 → Lane} {nLanes : Nat}

/-- A buffer moves from the pool to another connection. -/
theorem Bufs.take {rest : List Nat} {buf : Nat}
    (h : Bufs free others lane nLanes) (hfree : free = rest ++ [buf]) :
    Bufs rest (buf :: others) lane nLanes where
  __ := h
  nodup := by
    have hnodup := h.nodup
    rw [hfree, List.append_assoc] at hnodup
    exact hnodup

/-- A buffer moves back to the pool. -/
theorem Bufs.give {buf j : Nat} (h : Bufs free others lane nLanes) (hj : others[j]? = some buf) :
    Bufs (free ++ [buf]) (others.eraseIdx j) lane nLanes where
  __ := h
  nodup := by
    obtain ⟨hlt, rfl⟩ := List.getElem?_eq_some_iff.1 hj
    have hperm := (List.getElem_cons_eraseIdx_perm hlt).append_right (heldBufs lane)
    rw [List.append_assoc]
    exact (List.Perm.append_left free hperm).nodup_iff.2 h.nodup

/-- The buffers of other connections are not those of the lanes. -/
theorem Bufs.not_other (h : Bufs free others lane nLanes)
    {i : Fin 2} (hi : (lane i).haveBuf = true) : (lane i).buf ∉ others := fun hother =>
  (List.nodup_append.1 (List.nodup_append.1 h.nodup).2.1).2.2 _ hother _ (mem_held hi) rfl

/-- What the terms ask of an event. -/
def Terms.Meets (A : Terms) (cfg : Config) (s : Loop P) (event : LoopEvent P) : Prop :=
  (A.roomy → Careful cfg s event) ∧ (A.whole → Whole s event) ∧ (A.succeed → Reads s event) ∧ A.Open

variable {event : LoopEvent P}

/-- One event keeps the invariant. -/
theorem Inv.step (h : Inv A cfg s) (net : Transport P) (hmeets : A.Meets cfg s event) :
    Inv A cfg (s.step cfg net event) := by
  obtain ⟨hcareful, hwhole, hreads, hopen⟩ := hmeets
  have hbase := h.base
  have hv : ∀ commands : Loop P → List (Command P), (Seams.of cfg net commands).Sound A cfg :=
    fun commands =>
    Seams.of_sound cfg net fun s => hopen.calm (commands s)
  have hroom : ∀ room, Inv A cfg { s with room := room } := fun room =>
    h.around hbase.residency hbase.chunk hbase.bufs (fun _ _ _ => rfl) (hopen.around _)
  cases event with
  | complete k res room data commands =>
      exact h.complete (hv commands) k res room data hcareful hwhole hreads
  | wakeGet room framing commands => exact (hroom room).wake_get (hv commands) hopen.2 framing
  | wakeSet room sh commands => exact (hroom room).wake_set (hv commands) sh
  | stalled => exact h.sweep
  | take =>
      rw [Loop.step]
      split
      · exact h
      · rename_i buf iobufs hacquire
        obtain ⟨hfree, hbytes⟩ := acquire_some hacquire
        exact h.around hbase.residency (by rw [hbytes]; exact hbase.chunk) (hbase.bufs.take hfree)
          (fun _ _ _ => rfl) (hopen.around _)
  | give j =>
      rw [Loop.step]
      split
      · exact h
      · rename_i buf hj
        exact h.around hbase.residency hbase.chunk (hbase.bufs.give hj) (fun _ _ _ => rfl)
          (hopen.around _)
  | fill j bytes =>
      rw [Loop.step]
      split
      · exact h
      · rename_i buf hj
        refine h.around hbase.residency hbase.chunk hbase.bufs
          (fun _ i hheld => Function.update_of_ne ?_ _ _)
          (hopen.around _)
        rintro rfl
        exact hbase.bufs.not_other hheld (List.mem_of_getElem? hj)
  | disk op =>
      exact h.around (Residency.apply hbase.residency op) hbase.chunk hbase.bufs (fun _ _ _ => rfl)
        (hopen.around _)

/-- A connection just accepted, whatever the other connections hold. -/
theorem Still.create {σ : State} (hres : Residency cfg σ) {iobufs : BlockPool}
    (hchunk : 0 < iobufs.blockBytes) {mem : Nat → Nat → UInt8}
    (hnodup : (iobufs.free ++ others).Nodup) {readAhead : Bool} {p : P}
    (haround : Around A ⟨σ, iobufs, mem, others, room, readAhead, Conn.create, p⟩) :
    Still A cfg ⟨σ, iobufs, mem, others, room, readAhead, Conn.create, p⟩ := by
  refine ⟨⟨hres, hchunk, ⟨Nat.zero_le _, fun i => ?_, ?_⟩, rfl, fun _ => rfl, fun i => ?_,
    nofun, nofun, nofun,
    nofun, haround⟩, rfl, nofun, rfl, rfl, fun _ => rfl,
    nofun, Conn.tidy rfl rfl rfl fun _ => rfl,
    (data_iff_settled rfl).2 ⟨rfl, le_rfl, rfl, fun _ _ => rfl⟩⟩
  · exact ⟨nofun, fun hlt => absurd hlt (Nat.not_lt_zero _)⟩
  · show (iobufs.free ++ (others ++ [])).Nodup
    rw [List.append_nil]
    exact hnodup
  · exact ⟨nofun, nofun, nofun, nofun, nofun, fun _ => rfl⟩

theorem BlockPool.create_nodup (chunkBytes count : Nat) :
    ((BlockPool.create chunkBytes count).free ++ []).Nodup := by
  show ((List.range count).reverse ++ []).Nodup
  rw [List.append_nil, List.nodup_reverse]
  exact List.nodup_range

/-- A connection that is accepted by a loop over a store that has been in use. -/
structure Setup (P : Type) where
  cfg : Config
  ops : List Op
  chunkBytes : Nat
  chunk_pos : 0 < chunkBytes
  count : Nat
  readAhead : Bool
  room : Nat
  proto : P
  net : Transport P
  commands : Loop P → List (Command P)

variable (env : Setup P)

/-- The connection when it has been accepted. -/
def Setup.start : Loop P :=
  Loop.accept (State.after env.cfg env.ops)
    env.chunkBytes env.count env.readAhead env.room env.proto
    (Seams.of env.cfg env.net env.commands)

/-- The connection after some events. -/
def Setup.after (events : List (LoopEvent P)) : Loop P :=
  run (Loop.step env.cfg env.net) env.start events

/-- Every event of the run is permitted. -/
def Setup.Allows (ok : Loop P → LoopEvent P → Prop) (events : List (LoopEvent P)) : Prop :=
  Allowed (Loop.step env.cfg env.net) ok env.start events

theorem Setup.inv_start (hopen : A.Open) : Inv A env.cfg env.start :=
  (Seams.of_sound env.cfg env.net fun s => hopen.calm (env.commands s)).onConnection _
    (Still.create (reachable_bounded env.cfg env.ops).1 env.chunk_pos (BlockPool.create_nodup _ _)
    (hopen.around _))
    rfl

variable {events : List (LoopEvent P)}

/-- The invariant holds in every run that meets the terms. -/
theorem Setup.inv (hopen : A.Open)
    (h : env.Allows (A.Meets env.cfg) events) : Inv A env.cfg (env.after events) :=
  invariant_run (I := Inv A env.cfg) (fun _ _ hok hs => hs.step env.net hok) (env.inv_start hopen) h

/-- Reads succeed, and the submission queue is full or has room for a whole iteration of the
pump. -/
def Smooth (cfg : Config) (s : Loop P) (event : LoopEvent P) : Prop :=
  Reads s event ∧ match event with
    | .complete _ _ room _ _ => room = 0 ∨ s.Roomy cfg room
    | _ => True

/-- Where reads succeed, `abort_get` does not release a lane in use. -/
theorem Inv.careful (h : Inv A cfg s) (hsucceed : A.succeed) (hsmooth : Smooth cfg s event) :
    Careful cfg s event := by
  obtain ⟨hreads, hroom⟩ := hsmooth
  cases event with
  | complete k res room data commands =>
      refine ⟨hroom, fun i buf seg hk _ herr => ?_⟩
      have hres := hreads i buf seg hk
      rcases h.phase with ⟨hphase, -⟩ | ⟨haborted, -⟩
      · obtain ⟨hread, -⟩ := hphase.owns _ (List.mem_of_getElem? hk)
        rcases herr with herr | hneg
        · cases ((h.base.results i).fine hsucceed hread).symm.trans herr
        · omega
      · exact Or.inl haborted.closing
  | _ => trivial

/-- A smooth run is a careful one. -/
theorem Setup.careful (h : env.Allows (Smooth env.cfg) events) :
    env.Allows (fun s event => Careful env.cfg s event ∧ Reads s event) events := by
  let A : Terms := { Terms.bare with succeed := True }
  have hopen : A.Open := ⟨rfl, id⟩
  refine Allowed.strengthen (I := Inv A env.cfg) (fun s event hs hok => ?_) (env.inv_start hopen) h
  exact ⟨⟨hs.careful trivial hok, hok.1⟩,
    hs.step env.net ⟨fun hno => hno.elim, fun hno => hno.elim, fun _ => hok.1, hopen⟩⟩

/-! ## Lanes in use -/

/-- The buffer of an operation on a lane is the lane's, and the pool does not have it. -/
def Io.Held (s : Loop P) : Io → Prop
  | .read i buf _ | .sendLane i buf _ _ _ _ =>
      (s.c.lane i).haveBuf = true ∧ (s.c.lane i).buf = buf ∧ buf ∉ s.iobufs.free
  | _ => True

instance (s : Loop P) : ∀ io : Io, Decidable (io.Held s)
  | .read i buf _ | .sendLane i buf _ _ _ _ =>
      inferInstanceAs (Decidable ((s.c.lane i).haveBuf = true ∧ (s.c.lane i).buf = buf ∧
        buf ∉ s.iobufs.free))
  | .recv | .poll | .sendOut _ | .sendHead _ _ => instDecidableTrue

/-- `on_send` is the handler of the operation. -/
def Io.isSend : Io → Bool
  | .sendOut _ | .sendHead _ _ | .sendLane _ _ _ _ _ _ => true
  | _ => false

/-- Whatever completes in whatever order: if the submission queue is full or has room for a whole
iteration of the pump, and no batch of reads ends with an error while a send from the other lane is
outstanding, then each outstanding operation on a lane has the lane's buffer, which the connection
holds; and when a send completes in the stream, it is from a lane. -/
theorem in_flight_io_keeps_lane (env : Setup P) (events : List (LoopEvent P))
    (h : env.Allows (Careful env.cfg) events) :
    (∀ io ∈ (env.after events).c.pending, io.Held (env.after events)) ∧
      (∀ io ∈ (env.after events).c.pending, io.isSend = true →
        (env.after events).c.state = .getStream → (env.after events).c.sendLane ≠ none) ∧
      (env.after events).c.undefined = false := by
  let A : Terms := { Terms.bare with roomy := True }
  have hopen : A.Open := ⟨rfl, id⟩
  have hinv := env.inv hopen
    (h.mono fun s event hok => ⟨fun _ => hok, fun hno => hno.elim, fun hno => hno.elim, hopen⟩)
  revert hinv
  generalize env.after events = s
  intro hinv
  refine ⟨fun io hio => ?_, fun io hio hsend hstate => ?_, hinv.base.sane trivial⟩
  · rcases hinv.phase with ⟨hphase, -⟩ | ⟨-, hnone⟩
    · have howns := hphase.owns io hio
      cases io with
      | read i buf seg =>
          obtain ⟨-, hheld, rfl⟩ := howns
          exact ⟨hheld, rfl, hinv.base.bufs.not_free hheld⟩
      | sendLane i buf sent n segs done =>
          obtain ⟨-, -, hheld, rfl, -⟩ := howns
          exact ⟨hheld, rfl, hinv.base.bufs.not_free hheld⟩
      | _ => trivial
    · rw [hnone trivial] at hio
      cases hio
  · rcases hinv.phase with ⟨hphase, -⟩ | ⟨-, hnone⟩
    · have howns := hphase.owns io hio
      have hlane := hphase.on_lane hstate io hio
      cases io with
      | sendLane i buf sent n segs done =>
          rw [howns.2.1]
          exact nofun
      | read i buf seg => cases hsend
      | _ => cases hlane
    · rw [hnone trivial] at hio
      cases hio

/-- Two lanes over a store with an object of 10000 bytes, of which 4096 are resident. -/
def twoLanes : Setup Unit where
  cfg := oneDriveConfig
  ops := storeTenThousand
  chunkBytes := 4096
  chunk_pos := device_block_pos
  count := 2
  readAhead := true
  room := 256
  proto := ()
  net := ⟨false, fun _ _ => ()⟩
  commands := fun _ => []

/-- A protocol with headers of one byte and without trailers. -/
def bareFraming : Framing where
  header := fun _ => [1]
  header_ne := fun _ => List.cons_ne_nil _ _
  trailer := none
  miss := []
  unmodified := fun _ => false
  faults := Faults.never
  object := fun _ i => UInt8.ofNat i

/-- A completion for which `process` finds nothing. -/
def completes (k : Nat) (res : Int) (room : Nat) : LoopEvent Unit :=
  .complete k res room (fun _ => 0) fun _ => []

/-- A GET of a range of the object is received, and its header is sent. -/
def requestRange (reqRange : Option ByteRange) (room : Nat) : List (LoopEvent Unit) :=
  [.complete 0 1 room (fun _ => 0) (fun _ => [.get (Digest.replicate 1) reqRange bareFraming]),
    completes 0 1 room]

/-- The first piece is sent from lane 0 while the second piece is read into lane 1. -/
def overlapped : List (LoopEvent Unit) :=
  requestRange none 256 ++ [completes 0 4096 256, completes 0 4096 256]

/-- The read fails: `abort_get` gives both buffers back, and the send completes without a lane. -/
theorem send_completes_without_lane :
    ((twoLanes.after overlapped).c.pending.map fun io => (io.isSend, io.isRead)) =
        [(true, false), (false, true)] ∧
      (¬ ∀ io ∈ (twoLanes.after (overlapped ++ [completes 1 (-5) 256])).c.pending,
        io.Held (twoLanes.after (overlapped ++ [completes 1 (-5) 256]))) ∧
      ((twoLanes.after (overlapped ++ [completes 1 (-5) 256])).c.pending.map Io.isSend) = [true] ∧
      (twoLanes.after (overlapped ++ [completes 1 (-5) 256])).c.state = .getStream ∧
      (twoLanes.after (overlapped ++ [completes 1 (-5) 256])).c.sendLane = none ∧
      (twoLanes.after (overlapped ++ [completes 1 (-5) 256, completes 0 4096 256])).c.undefined =
        true := by
  decide +kernel

/-- Each read of a piece asks for bytes. -/
theorem plan_segs_pos {rs : State.ReadStream} {off want ramEnd : Nat} :
    ∀ seg ∈ State.planSsd cfg rs off want ramEnd ++ State.planHdd cfg rs off want, 0 < seg.len := by
  have hdrive : ∀ {pool : DrivePool} {bucket : Nat} {fds : ObjectFiles} {tierOff len outBase : Nat},
      ∀ seg ∈ addDriveSegs pool bucket fds tierOff len outBase, 0 < seg.len := by
    intro pool bucket fds tierOff len outBase seg hseg
    obtain ⟨x, n, -, hlt, rfl, rfl⟩ := mem_add_drive_segs hseg
    exact pool.seg_len_pos x (by omega)
  intro seg hseg
  rcases List.mem_append.1 hseg with hssd | hhdd
  · unfold State.planSsd at hssd
    dsimp only at hssd
    split_ifs at hssd
    · exact hdrive seg hssd
    · cases hssd
  · unfold State.planHdd at hhdd
    split at hhdd
    · split_ifs at hhdd
      · exact hdrive seg hhdd
      · cases hhdd
    · cases hhdd

/-- A piece does not have more reads than bytes. -/
theorem plan_segs_le (cfg : Config) (σ : State) (rs : State.ReadStream) (off outLen : Nat)
    (out : Nat → UInt8) :
    (State.plan cfg σ rs off outLen out).1.segs.length ≤
      (State.plan cfg σ rs off outLen out).1.total := by
  unfold State.plan
  split_ifs
  · exact le_rfl
  · dsimp only
    refine Nat.le_trans ?_ (Nat.le_add_left _ _)
    rw [segBytes, ← List.length_map Seg.len]
    refine List.length_le_sum_of_one_le _ fun n hn => ?_
    obtain ⟨seg, hseg, rfl⟩ := List.mem_map.1 hn
    exact plan_segs_pos seg hseg

/-- A queue with an entry for every byte of a lane has room for the reads of any piece. -/
theorem Loop.roomy_of_chunk (cfg : Config) (s : Loop P) (h : s.iobufs.blockBytes < room) :
    s.Roomy cfg room := by
  refine ⟨Nat.lt_of_le_of_lt (Nat.zero_le _) h,
    fun rs _ pos buf piece hpiece => Nat.lt_of_le_of_lt ?_ h⟩
  unfold planPiece at hpiece
  dsimp only at hpiece
  split_ifs at hpiece with htotal
  cases hpiece
  rw [ne_eq, not_not] at htotal
  have hle := plan_segs_le cfg s.σ rs pos (min s.iobufs.blockBytes (s.c.getSize - pos)) buf
  rw [htotal] at hle
  exact Nat.le_trans hle (Nat.min_le_left _ _)

/-- The queue has an entry for every byte of a lane, and reads succeed. -/
def Ample (s : Loop P) : LoopEvent P → Prop
  | .complete k res room _ _ => s.iobufs.blockBytes < room ∧
      ∀ io ∈ s.c.pending[k]?, io.isRead = true → 0 < res
  | _ => True

instance (s : Loop P) : ∀ event : LoopEvent P, Decidable (Ample s event)
  | .complete k res room _ _ => inferInstanceAs (Decidable (s.iobufs.blockBytes < room ∧
      ∀ io ∈ s.c.pending[k]?, io.isRead = true → 0 < res))
  | .wakeGet _ _ _ | .wakeSet _ _ _ | .stalled | .take | .give _ | .fill _ _ | .disk _ =>
      instDecidableTrue

theorem Ample.smooth (h : Ample s event) : Smooth cfg s event := by
  cases event with
  | complete k res room data commands =>
      exact ⟨fun i buf seg hk => h.2 _ hk rfl, Or.inr (s.roomy_of_chunk cfg h.1)⟩
  | _ => exact ⟨trivial, trivial⟩

theorem Setup.smooth_of_ample (h : env.Allows Ample events) : env.Allows (Smooth env.cfg) events :=
  h.mono fun _ _ hok => hok.smooth

/-- The overlap with a queue that has room for everything. -/
def roomyOverlap : List (LoopEvent Unit) :=
  requestRange none 8192 ++ [completes 0 4096 8192, completes 0 4096 8192]

theorem in_flight_io_keeps_lane_overlap :
    ((twoLanes.after roomyOverlap).c.pending.map fun io => (io.isSend, io.isRead)) =
        [(true, false), (false, true)] ∧
      (∀ io ∈ (twoLanes.after roomyOverlap).c.pending, io.Held (twoLanes.after roomyOverlap)) ∧
      (∀ io ∈ (twoLanes.after roomyOverlap).c.pending, io.isSend = true →
        (twoLanes.after roomyOverlap).c.state = .getStream →
        (twoLanes.after roomyOverlap).c.sendLane ≠ none) ∧
      (twoLanes.after roomyOverlap).c.undefined = false := by
  have hample : twoLanes.Allows Ample roomyOverlap := by
    unfold Setup.Allows
    decide +kernel
  refine ⟨by decide +kernel, in_flight_io_keeps_lane twoLanes roomyOverlap ?_⟩
  exact (twoLanes.careful (twoLanes.smooth_of_ample hample)).mono fun _ _ hok => hok.1

/-! ## The bytes of a value -/

/-- Whatever completes in whatever order, while reads succeed: no lane index and no modulus is
undefined; as long as the stream is not closing, it waits for a read or a send. If all pieces that
were completed held the bytes of the object, then each value that was handed over to `on_value_sent`
was sent as its window, in order; on a connection that is not closing each hit but the current one
was handed over once, and what was sent of the current one is the front of its window. -/
theorem pipeline_streams_window (env : Setup P) (events : List (LoopEvent P))
    (h : env.Allows (Smooth env.cfg) events) :
    (env.after events).c.undefined = false ∧
      ((env.after events).c.state = .getStream → (env.after events).c.closing = false →
        ∃ io ∈ (env.after events).c.pending, io.onLane = true) ∧
      ((env.after events).c.stale = false →
        (env.after events).c.Truthful ∧ ((env.after events).c.closing = false →
          (env.after events).c.served.length +
              (if (env.after events).c.state.valuing then 1 else 0) = (env.after events).c.hits ∧
          ((env.after events).c.state.valuing = true →
            (env.after events).c.wire = window (env.after events).c.object
              (env.after events).c.first (env.after events).c.cursor))) := by
  let A : Terms := { Terms.bare with roomy := True, succeed := True, intact := True }
  have hterms : A.Open := ⟨rfl, id⟩
  have hinv := env.inv hterms ((env.careful h).mono fun s event hok =>
    ⟨fun _ => hok.1, fun hno => hno.elim, fun _ => hok.2, hterms⟩)
  revert hinv
  generalize env.after events = s
  intro hinv
  have hopen : s.c.closing = false → Phase env.cfg s ∧ Busy s.c ∧ Data A s.c := by
    intro hopen
    rcases hinv.phase with ⟨hphase, -, hbusy, hdata⟩ | ⟨haborted, -⟩
    · exact ⟨hphase, hbusy, hdata⟩
    · cases haborted.closing.symm.trans hopen
  refine ⟨hinv.base.sane trivial, fun hstate hclosing => ?_, fun hstale =>
    ⟨hinv.base.served trivial hstale, fun hclosing => ?_⟩⟩
  · obtain ⟨hphase, hbusy, -⟩ := hopen hclosing
    obtain ⟨io, hio⟩ := List.exists_mem_of_ne_nil _ (hbusy hclosing (by rw [hstate]; rfl))
    exact ⟨io, hio, hphase.on_lane hstate io hio⟩
  · obtain ⟨-, -, hplaced, -, hexact⟩ := hopen hclosing
    exact ⟨hplaced.1, (hexact trivial hstale).1⟩

/-- The bytes 4090 to 4108: the end of the head, and a piece in two sends. -/
def rangeBehindHead : List (LoopEvent Unit) :=
  requestRange (some ⟨.closed, 4090, 4108⟩) 8192 ++
    [completes 0 6 8192, completes 0 13 8192, completes 0 5 8192, completes 0 8 8192]

theorem pipeline_streams_window_range :
    (twoLanes.after rangeBehindHead).c.stale = false ∧ (twoLanes.after rangeBehindHead).c.hits = 1 ∧
      (twoLanes.after rangeBehindHead).c.state = .idle ∧
      (twoLanes.after rangeBehindHead).c.Truthful ∧
      (twoLanes.after rangeBehindHead).c.served.length = 1 := by
  have hample : twoLanes.Allows Ample rangeBehindHead := by
    unfold Setup.Allows
    decide +kernel
  have hstale : (twoLanes.after rangeBehindHead).c.stale = false := by decide +kernel
  obtain ⟨-, -, hbytes⟩ := pipeline_streams_window twoLanes rangeBehindHead
    (twoLanes.smooth_of_ample hample)
  exact ⟨hstale, by decide +kernel, by decide +kernel, (hbytes hstale).1, by decide +kernel⟩

/-- The first piece has been read when the submission queue has one free entry. -/
def tightRun : List (LoopEvent Unit) :=
  requestRange none 256 ++ [completes 0 4096 256, completes 0 4096 1, completes 0 4096 256]

/-- All reads and sends succeed. The send of the first piece takes the last entry, the read of the
second one is refused, and `abort_get` gives the lanes back: the send completes with `send_lane` -1
and `n_lanes` 0, by which `on_send` divides. -/
theorem refused_read_divides_by_zero :
    twoLanes.Allows Reads tightRun ∧
      ((twoLanes.after (tightRun.take 4)).c.pending.map Io.isSend) = [true] ∧
      (twoLanes.after (tightRun.take 4)).c.state = .getStream ∧
      (twoLanes.after (tightRun.take 4)).c.sendLane = none ∧
      (twoLanes.after (tightRun.take 4)).c.nLanes = 0 ∧
      (twoLanes.after tightRun).c.undefined = true := by
  refine ⟨?_, by decide +kernel⟩
  exact ⟨fun _ _ _ _ => by decide, fun _ _ _ _ => by decide, fun _ _ _ _ => by decide,
    fun _ _ _ _ => by decide, fun _ _ _ _ => by decide, trivial⟩

end GoblinStore.Net
