import GoblinStore.Net.LoopRuns
import GoblinStore.Storage.TierRead

/-!
# Short reads

The stream takes every read with a positive result for a whole one, and `TierManager::read` every
read that does not fail. The lanes' buffers are recycled, so what is sent after a short read is what
an earlier value has left there (`short_read_served`).
-/

namespace GoblinStore.Net

open GoblinStore.Lib GoblinStore.Core

variable {P : Type}

/-- Each byte that is sent from a lane was brought by the read that is responsible for it. -/
def Io.Brought : Io → Prop
  | .sendLane _ _ sent n segs done => ∀ p < sent + n, sent ≤ p → ∀ seg ∈ segs, seg.outOff ≤ p →
      p < seg.outOff + seg.len → ∃ e ∈ done, e.1 = seg ∧ ((p - seg.outOff : Nat) : Int) < e.2
  | _ => True

instance : ∀ io : Io, Decidable io.Brought
  | .sendLane _ _ sent n segs done =>
      inferInstanceAs (Decidable (∀ p < sent + n, sent ≤ p → ∀ seg ∈ segs,
      seg.outOff ≤ p → p < seg.outOff + seg.len → ∃ e ∈ done, e.1 = seg ∧
      ((p - seg.outOff : Nat) : Int) < e.2))
  | .recv | .poll | .sendOut _ | .sendHead _ _ | .read _ _ _ => instDecidableTrue

theorem Io.Covered.brought {io : Io} (h : io.Covered) : io.Brought := by
  cases io with
  | sendLane i buf sent n segs done =>
      intro p _ _ seg hseg hlo hhi
      obtain ⟨res, hdone, hlen⟩ := h seg hseg
      exact ⟨_, hdone, rfl, by show ((p - seg.outOff : Nat) : Int) < res; omega⟩
  | _ => trivial

/-- Whatever completes in whatever order: if each read fails or brings all that is needed from it,
each byte that is sent from a lane was brought by the read that is responsible for it. If the
`striped_read` calls of `TierManager::read` also leave their ring clean, the same holds of each byte
that it delivers. -/
theorem short_read_never_served (env : Setup P) (events : List (LoopEvent P))
    (h : env.Allows Whole events) (entries : Nat) (reads : List TierReadEvent)
    (hreads : Allowed TierRead.step TierRead.Whole (TierRead.init entries) reads) :
    (∀ io ∈ (env.after events).c.pending, io.Brought) ∧
      ∀ n, (TierRead.after entries reads).stage = .done (.ok n) →
        ∀ seg ∈ (TierRead.after entries reads).task.ssd ++ (TierRead.after entries reads).task.hdd,
          ∀ p < n, seg.outOff ≤ p → p < seg.outOff + seg.len →
            ∃ res, (seg, res) ∈ (TierRead.after entries reads).log ∧
              ((p - seg.outOff : Nat) : Int) < res := by
  let A : Terms := { Terms.bare with whole := True }
  have hopen : A.Open := ⟨rfl, id⟩
  have hinv := env.inv hopen
    (h.mono fun s event hok => ⟨fun hno => hno.elim, fun _ => hok, fun hno => hno.elim, hopen⟩)
  refine ⟨fun io hio => (hinv.base.sends trivial io hio).brought,
    fun n hdone seg hseg p hp hlo hhi => ?_⟩
  exact TierRead.whole_read_counted hreads hdone hseg hlo hhi hp

/-- The bytes that are needed from a read. -/
def Io.asks : Io → Nat
  | .read _ _ seg => seg.len
  | _ => 0

theorem asks_read {o : Option Io} {n : Nat} (h : ∀ io ∈ o, io.asks ≤ n) {i : Fin 2} {buf : Nat}
    {seg : Seg} (ho : o = some (.read i buf seg)) : (seg.len : Int) ≤ n :=
  Int.ofNat_le.2 (h _ ho)

/-- A GET of eight bytes beyond the head, with this result of its read. -/
def readEight (res : Int) : List (LoopEvent Unit) :=
  requestRange (some ⟨.closed, 4096, 4103⟩) 256 ++ [completes 0 res 256]

/-- A `read` of the whole object, whose two disk reads have these results. -/
def readTwo (first second : Int) : List TierReadEvent :=
  [.read readWhole, .ring (.queue 0), .ring (.queue 0), .ring (.wait 2), .ring (.finish 0 first),
    .ring (.finish 0 second), .ring .reap]

/-- A `read` of 100 bytes in one disk read, which brings a whole block. -/
def readBlock : List TierReadEvent :=
  [.read ⟨100, fun _ => 0, [⟨some 0, 0, 4096, 0⟩], []⟩, .ring (.queue 0), .ring (.wait 1),
    .ring (.finish 0 4096), .ring .reap]

theorem short_read_never_served_whole :
    ((twoLanes.after (readEight 8)).c.pending.map Io.isSend) = [true] ∧
      (∀ io ∈ (twoLanes.after (readEight 8)).c.pending, io.Brought) ∧
      (TierRead.after 256 readBlock).stage = .done (.ok 100) ∧
      ∃ res, ((⟨some 0, 0, 4096, 0⟩ : Seg), res) ∈ (TierRead.after 256 readBlock).log ∧
        ((99 : Nat) : Int) < res := by
  have hevents : twoLanes.Allows Whole (readEight 8) := by
    refine ⟨fun i buf seg hk => Or.inr ?_, fun i buf seg hk => Or.inr ?_,
      fun i buf seg hk => Or.inr ?_, trivial⟩
    · exact asks_read (by decide +kernel) hk
    · exact asks_read (by decide +kernel) hk
    · exact asks_read (by decide +kernel) hk
  have hreads : Allowed TierRead.step TierRead.Whole (TierRead.init 256) readBlock := by
    refine ⟨trivial, ⟨Or.inl rfl, trivial⟩, ⟨trivial, trivial⟩,
      ⟨trivial, fun request hrequest seg hseg => ?_⟩, ⟨fun hneg => ?_, trivial⟩, trivial⟩
    · cases hrequest
      cases hseg
      exact Or.inr (by decide)
    · obtain ⟨c, hc, hlt⟩ := hneg
      cases List.mem_singleton.1 hc
      exact absurd hlt (by decide)
  obtain ⟨hsent, hcounted⟩ := short_read_never_served twoLanes (readEight 8)
    hevents 256 readBlock hreads
  exact ⟨by decide +kernel, hsent, rfl,
    hcounted 100 rfl _ (List.mem_singleton_self _) 99 (by decide) (by decide) (by decide)⟩

/-- The read brings one byte, and eight are sent; the disk reads of `read` bring nothing, and it
delivers 10000 bytes. -/
theorem short_read_served :
    ((twoLanes.after (readEight 1)).c.pending.map Io.isSend) = [true] ∧
      (¬ ∀ io ∈ (twoLanes.after (readEight 1)).c.pending, io.Brought) ∧
      (match (TierRead.after 256 (readTwo 0 0)).stage with
        | .done (.ok n) => n == 10000
        | _ => false) = true ∧
      ((TierRead.after 256 (readTwo 0 0)).log.map fun e => (e.1.outOff, e.1.len, e.2)) =
        [(4096, 4096, 0), (8192, 4096, 0)] := by
  decide +kernel

end GoblinStore.Net
