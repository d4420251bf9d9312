import GoblinStore.Storage.HeadCache
import GoblinStore.Storage.Ledger

/-!
# The history of commits and drops

The index holds exactly the live versions of the history (`Recorded`), and resident heads carry
their first bytes (`HeadContents`). Both hold in every reachable state.
-/

namespace GoblinStore

open GoblinStore.Lib GoblinStore.Core HeadView

/-- The bytes of the version that the store has for a digest. -/
def State.storedBytes (σ : State) (d : Digest) : Nat → UInt8 :=
  ((liveVersion σ.history d).map Version.body).getD fun _ => 0

/-- The indexed version, unless it is expired. -/
def State.present (σ : State) (d : Digest) : Option ObjectMeta :=
  (σ.index.lookup d).filter fun m => !m.isExpired σ.now

/-- A property of every indexed object and its live version. -/
def ForLive (index : Index) (history : List Event) (Q : Digest → ObjectMeta → Version → Prop) :
    Prop :=
  ∀ d m v, index.lookup d = some m → liveVersion history d = some v → Q d m v

namespace ForLive

variable {index : Index} {history : List Event} {d : Digest}
  {Q Q' : Digest → ObjectMeta → Version → Prop}

theorem mono (h : ForLive index history Q) (himp : ∀ d m v, Q d m v → Q' d m v) :
    ForLive index history Q' :=
  fun d m v hm hv => himp d m v (h d m v hm hv)

/-- Rewriting the entry of an object. -/
theorem rewrite (h : ForLive index history Q) {m m' : ObjectMeta} (hm : index.lookup d = some m)
    (himp : ∀ v, Q d m v → Q d m' v) : ForLive (index.insert d m') history Q := by
  intro e n v hn hv
  rcases Table.lookup_insert_some hn with ⟨rfl, rfl⟩ | ⟨-, hold⟩
  · exact himp v (h e m v hm hv)
  · exact h e n v hold hv

/-- Forgetting an object; the others may change. -/
theorem drop (h : ForLive index history Q) {event : Event} (hd : event.digest = d)
    (himp : ∀ e m v, e ≠ d → Q e m v → Q' e m v) :
    ForLive (index.erase d) (event :: history) Q' := by
  intro e n v hn hv
  obtain ⟨he, hold⟩ := Table.lookup_erase_some hn
  rw [liveVersion, if_neg (by rw [hd]; exact Ne.symm he)] at hv
  exact himp e n v he (h e n v hold hv)

/-- Committing a version; the other objects may change. -/
theorem put (h : ForLive index history Q) {m : ObjectMeta} {v : Version} (hnew : Q' d m v)
    (himp : ∀ e m v, e ≠ d → Q e m v → Q' e m v) :
    ForLive (index.insert d m) (.put d v :: history) Q' := by
  intro e n w hn hw
  rw [live_version_put] at hw
  rcases Table.lookup_insert_some hn with ⟨rfl, rfl⟩ | ⟨he, hold⟩
  · rw [if_pos rfl] at hw
    cases hw
    exact hnew
  · rw [if_neg he.symm] at hw
    exact himp e n w he (h e n w hold hw)

end ForLive

/-- The region carries the first bytes of a body. -/
def Carries (bytes : Nat → Nat → UInt8) (r : Region) (body : Nat → UInt8) (n : Nat) : Prop :=
  ∀ i, i < n → i < r.len → bytes r.block (r.offset + i) = body i

/-- Resident heads carry the bytes of their version, reserved heads what was written so far. -/
structure HeadContents (index : Index) (history : List Event) (handles : Table Nat StoreHandle)
    (bytes : Nat → Nat → UInt8) : Prop where
  resident : ForLive index history fun _ m v => ∀ r, m.head = some r → Carries bytes r v.body v.size
  reserved : ∀ id h r, handles.lookup id = some h → h.head = some r →
    Carries bytes r h.body.data h.off
  progress : ∀ id h, handles.lookup id = some h → h.body.size = h.off ∧ h.off ≤ h.layout.size

namespace HeadContents

variable {index : Index} {history : List Event} {handles : Table Nat StoreHandle}
  {bytes : Nat → Nat → UInt8} {d : Digest}

/-- Changing metadata other than the head, or giving the head up. -/
theorem rewrite (h : HeadContents index history handles bytes) {m m' : ObjectMeta}
    (hm : index.lookup d = some m) (hhead : m'.head = m.head ∨ m'.head = none) :
    HeadContents (index.insert d m') history handles bytes := by
  refine ⟨h.resident.rewrite hm fun v hq r hr => ?_, h.reserved, h.progress⟩
  rcases hhead with heq | heq
  · exact hq r (heq ▸ hr)
  · rw [heq] at hr
    cases hr

theorem drop (h : HeadContents index history handles bytes) {event : Event}
    (hd : event.digest = d) : HeadContents (index.erase d) (event :: history) handles bytes :=
  ⟨h.resident.drop hd fun _ _ _ _ hq => hq, h.reserved, h.progress⟩

theorem erase_handle (h : HeadContents index history handles bytes) (id : Nat) :
    HeadContents index history (handles.erase id) bytes where
  resident := h.resident
  reserved i h₀ r hh := h.reserved i h₀ r (Table.lookup_erase_some hh).2
  progress i h₀ hh := h.progress i h₀ (Table.lookup_erase_some hh).2

theorem insert_handle (h : HeadContents index history handles bytes) {id : Nat} {h₀ : StoreHandle}
    (hres : ∀ r, h₀.head = some r → Carries bytes r h₀.body.data h₀.off)
    (hprog : h₀.body.size = h₀.off ∧ h₀.off ≤ h₀.layout.size) :
    HeadContents index history (handles.insert id h₀) bytes where
  resident := h.resident
  reserved i h₁ r hh hr := by
    rcases Table.lookup_insert_some hh with ⟨-, rfl⟩ | ⟨-, hold⟩
    · exact hres r hr
    · exact h.reserved i h₁ r hold hr
  progress i h₁ hh := by
    rcases Table.lookup_insert_some hh with ⟨-, rfl⟩ | ⟨-, hold⟩
    · exact hprog
    · exact h.progress i h₁ hold

theorem put (h : HeadContents index history handles bytes) {m : ObjectMeta} {v : Version}
    (hres : ∀ r, m.head = some r → Carries bytes r v.body v.size) :
    HeadContents (index.insert d m) (.put d v :: history) handles bytes :=
  ⟨h.resident.put hres fun _ _ _ _ hq => hq, h.reserved, h.progress⟩

end HeadContents

/-! ## The operations -/

/-- The index is the replay of the history, and heads carry their bytes. -/
structure Contents (σ : State) : Prop where
  recorded : Recorded σ.index σ.history
  heads : HeadContents σ.index σ.history σ.handles σ.ramBytes

namespace Contents

variable {cfg : Config} {σ σ' : State} {op : Op} {faults : Faults}

variable {id : Nat} {h₀ : StoreHandle}

/-- Filling the head of a handle leaves every other head alone. -/
theorem fill_head_other {own : Region → Option Owner} (how : Owned σ.headView own)
    (hh : σ.handles.lookup id = some h₀) (chunk : ByteView) {q : Region}
    (hq : own q ≠ none) (hne : own q ≠ some (.handle id)) {body : Nat → UInt8} {n : Nat}
    (hc : Carries σ.ramBytes q body n) : Carries (σ.fillHead h₀ chunk).ramBytes q body n := by
  intro i hi hlen
  rw [← hc i hi hlen]
  unfold State.fillHead
  split
  · rfl
  · rename_i r hr
    have hown := (how.handle_iff r id).2 (reserved_of_eq_some.2 ⟨h₀, hh, hr⟩)
    have hrne : own r ≠ none := by simp [hown]
    have hapart := how.pool.apart (how.live hq) (how.live hrne) (fun heq => hne (heq ▸ hown))
    dsimp only
    split_ifs with hlt
    · simp only [Function.update_apply]
      split_ifs with hblock
      · rw [← hblock]
        refine blit_outside ?_
        rcases hapart with hne' | hbefore | hafter
        · exact absurd hblock hne'
        · omega
        · omega
      · rfl
    · rfl

/-- Filling a head appends the chunk to the bytes it carries. -/
theorem fill_head_self {r : Region} (hr : h₀.head = some r) (chunk : ByteView)
    (hsize : h₀.body.size = h₀.off) (hc : Carries σ.ramBytes r h₀.body.data h₀.off) :
    Carries (σ.fillHead h₀ chunk).ramBytes r (h₀.body.append chunk).data (h₀.off + chunk.size) := by
  intro i hi hlen
  unfold State.fillHead
  simp only [hr]
  rcases Nat.lt_or_ge i h₀.off with hbefore | hafter
  · rw [ByteView.append_left (by omega), ← hc i hbefore hlen]
    split_ifs
    · simp only [Function.update_self]
      exact blit_outside (by omega)
    · rfl
  · have hdata : (h₀.body.append chunk).data i = chunk.data (i - h₀.off) := by
      have := @ByteView.append_right (i - h₀.off) h₀.body chunk (by omega)
      rwa [hsize, Nat.add_sub_cancel' hafter] at this
    rw [if_pos (by omega), hdata]
    simp only [Function.update_self]
    rw [blit_inside (by omega) (by omega)]
    congr 1
    omega

/-- The contents after a write: the handle took the chunk, or only filled its head. -/
theorem after_fill (h : Contents σ) {own : Region → Option Owner} (how : Owned σ.headView own)
    {h₁ : StoreHandle} (hh : σ.handles.lookup id = some h₀) (chunk : ByteView)
    (hfits : h₀.off + chunk.size ≤ h₀.layout.size) (hhead : h₁.head = h₀.head)
    (hlayout : h₁.layout = h₀.layout) (hprogress : h₁.off = h₀.off ∧ h₁.body = h₀.body ∨
      h₁.off = h₀.off + chunk.size ∧ h₁.body = h₀.body.append chunk) :
    HeadContents σ.index σ.history (σ.handles.insert id h₁) (σ.fillHead h₀ chunk).ramBytes := by
  obtain ⟨hsize, hle⟩ := h.heads.progress id h₀ hh
  have hself : ∀ r, h₁.head = some r →
      Carries (σ.fillHead h₀ chunk).ramBytes r h₁.body.data h₁.off := by
    intro r hr
    rw [hhead] at hr
    have hfull := fill_head_self hr chunk hsize (h.heads.reserved id h₀ r hh hr)
    rcases hprogress with ⟨hoff, hbody⟩ | ⟨hoff, hbody⟩
    · intro i hi hlen
      rw [hfull i (by omega) hlen, hbody, ByteView.append_left (by omega)]
    · rw [hoff, hbody]
      exact hfull
  refine ⟨fun d m v hm hv r hr => ?_, fun i h' r hh' hr => ?_, fun i h' hh' => ?_⟩
  · have hown := (how.object_iff r d).2 (heads_of_eq_some.2 ⟨m, hm, hr⟩)
    exact fill_head_other how hh chunk (by simp [hown]) (by simp [hown])
      (h.heads.resident d m v hm hv r hr)
  · rcases Table.lookup_insert_some hh' with ⟨-, rfl⟩ | ⟨hi, hold⟩
    · exact hself r hr
    · have hown := (how.handle_iff r i).2 (reserved_of_eq_some.2 ⟨h', hold, hr⟩)
      exact fill_head_other how hh chunk (by simp [hown]) (by simpa [hown] using hi)
        (h.heads.reserved i h' r hold hr)
  · rcases Table.lookup_insert_some hh' with ⟨-, rfl⟩ | ⟨-, hold⟩
    · rcases hprogress with ⟨hoff, hbody⟩ | ⟨hoff, hbody⟩
      · rw [hoff, hbody, hlayout]
        exact ⟨hsize, hle⟩
      · rw [hoff, hbody, hlayout, ByteView.append_size, hsize]
        exact ⟨rfl, hfits⟩
    · exact h.heads.progress i h' hold

/-- Flushing changes no byte that a head carries. -/
theorem put_staging (h : Contents σ)
    (hh : σ.handles.lookup id = some h₀) {w : State.Staging}
    (hsame : State.SameHandle h₀ w.handle) :
    Contents (σ.putStaging id w) := by
  refine ⟨h.recorded, h.heads.insert_handle (fun r hr => ?_) ?_⟩
  · rw [hsame.body, hsame.off]
    exact h.heads.reserved id h₀ r hh (hsame.head ▸ hr)
  · rw [hsame.body, hsame.off, hsame.layout]
    exact h.heads.progress id h₀ hh

theorem of_same (h : Contents σ) (hsame : State.SameStore σ σ') : Contents σ' := by
  refine ⟨?_, ?_⟩
  · rw [hsame.index, hsame.history]
    exact h.recorded
  · rw [hsame.index, hsame.history, hsame.handles, hsame.ramBytes]
    exact h.heads

theorem init (cfg : Config) : Contents (State.init cfg) :=
  ⟨fun d => by simp [State.init, liveVersion], ⟨by simp [ForLive, State.init],
    by simp [State.init], by simp [State.init]⟩⟩

theorem put_back (h : Contents σ) (how : ∃ own, Owned σ.headView own)
    (hh : σ.handles.lookup id = some h₀) (hput : Put cfg σ id h₀ op σ') : Contents σ' := by
  obtain ⟨own, how⟩ := how
  cases hput with
  | @wrote chunk faults w hend hw =>
      have hsame := hw.keeps.same
      rw [State.fill_head_eq]
      refine ⟨h.recorded, h.after_fill how hh chunk hend hsame.head hsame.layout (Or.inr ⟨?_, ?_⟩)⟩
      · exact congrArg (· + chunk.size) hsame.off
      · exact congrArg (·.append chunk) hsame.body
  | @unwritten chunk faults w hend hw =>
      have hsame := hw.keeps.same
      rw [State.fill_head_eq]
      exact ⟨h.recorded, h.after_fill how hh chunk hend hsame.head hsame.layout
        (Or.inl ⟨hsame.off, hsame.body⟩)⟩
  | flushed _ hflush => exact h.put_staging hh (State.flush_tail_keeps hflush).same
  | unflushed _ hflush => exact h.put_staging hh (State.flush_tail_keeps hflush).same.spoil

theorem change (h : Contents σ) (how : ∃ own, Owned σ.headView own) (hc : Change cfg σ op σ') :
    Contents σ' := by
  cases hc with
  | quiet hop => exact h.of_same (State.quiet_same cfg σ hop)
  | settle => exact ⟨h.recorded, h.heads⟩
  | unhead _ hm =>
      rw [State.free_head_region_eq]
      exact ⟨h.recorded.restamp hm rfl, h.heads.rewrite hm (Or.inr rfl)⟩
  | forget _ hd hv =>
      rw [State.free_head_eq]
      exact ⟨h.recorded.drop hd hv, h.heads.drop hd⟩
  | retime hm => exact ⟨h.recorded.restamp hm rfl, h.heads.rewrite hm (Or.inl rfl)⟩
  | opened => exact ⟨h.recorded, h.heads⟩
  | refused => exact ⟨h.recorded, h.heads⟩
  | started =>
      exact ⟨h.recorded, h.heads.insert_handle (fun q _ i hi => absurd hi (Nat.not_lt_zero i))
        ⟨rfl, Nat.zero_le _⟩⟩
  | put hh hput => exact h.put_back how hh hput
  | unpublished hh =>
      have hcarries := fun r hr => h.heads.reserved _ _ r hh hr
      have hprogress := h.heads.progress _ _ hh
      exact ⟨h.recorded, h.heads.insert_handle hcarries hprogress⟩
  | installed hh hoff =>
      rw [State.retire_head_eq]
      refine ⟨h.recorded.put rfl, (h.heads.erase_handle _).put fun r hr => ?_⟩
      have hcarries := h.heads.reserved _ _ r hh hr
      rw [hoff] at hcarries
      exact hcarries
  | closed =>
      rw [State.give_back_eq]
      exact ⟨h.recorded, h.heads.erase_handle _⟩

theorem apply (h : Contents σ) (hinv : HeadInv cfg σ) (op : Op) : Contents (σ.apply cfg op) := by
  cases hop : op.pins with
  | true =>
      refine h.of_same (State.quiet_same cfg σ ?_)
      cases op <;> trivial
  | false =>
      refine (Change.invariant (P := fun σ' => HeadInv cfg σ' ∧ Contents σ') ?_ ⟨hinv, h⟩).2
      rintro σ₁ σ₂ ⟨hinv₁, h₁⟩ hc
      exact ⟨hinv₁.change hop hc, h₁.change hinv₁.owned hc⟩

end Contents

/-- In every reachable state the index is the replay of the history. -/
theorem reachable_contents (cfg : Config) (hblock : cfg.blockBytes ≤ wrap32) (ops : List Op) :
    Contents (State.after cfg ops) := by
  have hinv := invariant_run (I := fun σ => HeadInv cfg σ ∧ Contents σ)
    (fun σ op _ h => ⟨h.1.apply op, h.2.apply h.1 op⟩)
    ⟨HeadInv.init cfg hblock, Contents.init cfg⟩
    (allowed_true (State.apply cfg) (State.init cfg) ops)
  exact hinv.2

end GoblinStore
