import GoblinStore.Http.EntityTags
import GoblinStore.Http.Heads
import GoblinStore.Storage.Cas
import GoblinStore.Storage.LossyMap

/-!
# Conditional requests

A client repeats the tag of an earlier response in If-None-Match. The tag is the size and the store
generation of a version; the generation counter starts again with every start of the server. Between
two starts a tag names one version, so 304 says that the client has the current bytes.
-/

namespace GoblinStore.Http

open GoblinStore.Lib GoblinStore.Core GoblinStore.Net

/-! ## Servers that are restarted -/

/-- What happens to a server: a step of the store, or a restart, perhaps with another configuration.
The drives are wiped at the start; content that is preloaded is stored by further steps. -/
inductive Happening where
  | step (op : Op)
  | restart (cfg : Config)

structure Server where
  cfg : Config
  store : State

namespace Server

def start (cfg : Config) : Server := ⟨cfg, State.init cfg⟩

def apply (s : Server) : Happening → Server
  | .step op => { s with store := s.store.apply s.cfg op }
  | .restart cfg => start cfg

def after (cfg : Config) (happenings : List Happening) : Server := run apply (start cfg) happenings

end Server

/-- No head is handed out twice, placements do not wrap, renames succeed and a store that has failed
is given up. -/
def Happening.Sound (s : Server) : Happening → Prop
  | .step op => GoblinStore.Sound s.cfg s.store op
  | .restart cfg => cfg.blockBytes ≤ wrap32

/-- The store is in a state that a sound run reaches. -/
def Server.Reached (s : Server) : Prop :=
  s.cfg.blockBytes ≤ wrap32 ∧ ∃ ops, s.store = State.after s.cfg ops ∧
    Allowed (State.apply s.cfg) (GoblinStore.Sound s.cfg) (State.init s.cfg) ops

variable {site : Site} {s : Server} {p : Session} {m m' : ObjectMeta} {key tag : List UInt8}

/-- The head of the response to a GET. -/
def getHead (site : Site) (s : Server) (faults : Faults) (p : Session) : List UInt8 :=
  match (State.openSnapshot s.cfg s.store (site.hashKey p.getKey) faults).1 with
  | none => notFound p.keepAlive
  | some snap => frameGetHit p snap.info

/-- `read` of the whole object gives these bytes. -/
def Reads (s : Server) (d : Digest) (body : ByteView) : Prop :=
  ∀ out, ∃ bytes, State.read s.cfg s.store d 0 body.size out Faults.never = .ok bytes ∧
    bytes.size = body.size ∧
    ∀ i < body.size, bytes.data i = body.data i

/-- A GET for the key returned the whole object, the bytes that are read at that moment, and this
tag. -/
def Returned (site : Site) (s : Server) (key tag : List UInt8) (body : ByteView) : Prop :=
  ∃ p faults snap, p.getKey = key ∧ p.reqRange = none ∧
    (State.openSnapshot s.cfg s.store (site.hashKey key) faults).1 = some snap ∧
    unmodified p snap.info = false ∧ tag = makeEtag snap.info ∧
    body.size = snap.info.size ∧ Reads s (site.hashKey key) body

/-- The field lists this tag only, perhaps as a weak one. -/
def OnlyTag (inm tag : List UInt8) : Prop := inm = tag ∨ inm = text "W/" ++ tag

/-- The response has this status. -/
def HasStatus (status : String) (response : List UInt8) : Prop :=
  text "HTTP/1.1 " ++ text status <+: response

/-- A conditional GET or HEAD with this tag is answered by 304. -/
def Unmodified (site : Site) (s : Server) (key tag : List UInt8) : Prop :=
  ∃ p faults, p.getKey = key ∧ OnlyTag p.inm tag ∧ (HasStatus "304" (getHead site s faults p) ∨
    HasStatus "304" (headReply p key (s.store.present (site.hashKey key))))

/-- A response that differs in the first digit of its status is not 304. -/
theorem not_304 {start rest : List UInt8} {c : UInt8} (hc : start[9]? = some c)
    (hne : c ≠ ascii '3') :
    ¬ HasStatus "304" (start ++ rest) := by
  rintro ⟨tail, heq⟩
  have hlen : 9 < start.length := (List.getElem?_eq_some_iff.1 hc).1
  have hdigit : (start ++ rest)[9]? = some (ascii '3') := by
    rw [← heq]
    rfl
  rw [List.getElem?_append_left hlen, hc] at hdigit
  exact hne (Option.some.inj hdigit)

/-- Of the responses to a GET that hits only the one to an unmodified object is 304. -/
theorem frame_get_hit_unmodified (h : HasStatus "304" (frameGetHit p m)) :
    unmodified p m = true := by
  by_contra hmodified
  unfold frameGetHit at h
  rw [if_neg hmodified] at h
  split at h
  · simp only [appendHead, List.append_assoc] at h
    rw [← List.append_assoc] at h
    exact not_304 (c := ascii '2') (by decide) (by decide) h
  · split at h
    · simp only [rangeNotSatisfiable, List.append_assoc] at h
      exact not_304 (c := ascii '4') (by decide) (by decide) h
    · simp only [partialContent, List.append_assoc] at h
      exact not_304 (c := ascii '2') (by decide) (by decide) h

theorem not_found_not_304 (keepAlive : Bool) : ¬ HasStatus "304" (notFound keepAlive) := by
  simp only [notFound, appendHead, List.append_assoc]
  rw [← List.append_assoc]
  exact not_304 (c := ascii '4') (by decide) (by decide)

/-- Behind a 304 there is an indexed version whose tag matches. -/
theorem Unmodified.indexed (h : Unmodified site s key tag) :
    ∃ p m, OnlyTag p.inm tag ∧ s.store.index.lookup (site.hashKey key) = some m ∧
      unmodified p m = true := by
  obtain ⟨p, faults, rfl, honly, hget | hhead⟩ := h
  · unfold getHead at hget
    split at hget
    · exact absurd hget (not_found_not_304 p.keepAlive)
    · rename_i snap hsnap
      exact ⟨p, snap.info, honly, (State.open_snapshot_spec hsnap).1, frame_get_hit_unmodified hget⟩
  · unfold headReply at hhead
    split at hhead
    · exact absurd hhead (not_found_not_304 p.keepAlive)
    · rename_i m hm
      refine ⟨p, m, honly, (Option.filter_eq_some_iff.1 hm).1, ?_⟩
      by_contra hmodified
      rw [if_neg hmodified] at hhead
      simp only [appendHead, List.append_assoc] at hhead
      rw [← List.append_assoc] at hhead
      exact not_304 (c := ascii '2') (by decide) (by decide) hhead

/-! ## Tags -/

/-- An indexed object is a version of the history, and its bytes are read. -/
theorem Server.Reached.indexed {d : Digest} (h : s.Reached) (hm : s.store.index.lookup d = some m)
    (hmoves : State.Transfers s.cfg m.size) :
    ∃ v, .put d v ∈ s.store.history ∧ v.etag = m.etag ∧ Reads s d ⟨m.size, v.body⟩ := by
  obtain ⟨hblock, ops, hops, hallowed⟩ := h
  rw [hops] at hm
  obtain ⟨v, hv, hstamp, hreadable⟩ := readable_after hblock hallowed hm
  rw [hops]
  refine ⟨v, put_of_live hv, congrArg (fun stamp => stamp.2.2) hstamp, fun out => ?_⟩
  obtain ⟨bytes, hread, hsize, hdata⟩ :=
    State.read_exact hreadable (Nat.dvd_zero _) hmoves
      (fun _ _ => (rfl : Faults.never.openat _ _ = false)) out
  rw [hreadable.size_eq, Nat.sub_zero, Nat.min_self] at hsize
  rw [← hops] at hread
  refine ⟨bytes, hread, hsize, fun i hi => ?_⟩
  rw [hdata i (hsize ▸ hi), Nat.zero_add]

/-- What is read at one moment is one value. -/
theorem Reads.unique {d : Digest} {body body' : ByteView} (h : Reads s d body)
    (h' : Reads s d body') (hsize : body'.size = body.size) {i : Nat} (hi : i < body.size) :
    body'.data i = body.data i := by
  obtain ⟨bytes, hread, -, hdata⟩ := h fun _ => 0
  obtain ⟨bytes', hread', -, hdata'⟩ := h' fun _ => 0
  rw [hsize, hread, Except.ok.injEq] at hread'
  rw [← hdata i hi, ← hdata' i (hsize ▸ hi), hread']

/-- A request for the key "/a" with this If-None-Match. -/
def asks (inm : List UInt8) : Session := { Session.create with getKey := text "/a", inm := inm }

/-- The tag of the first four bytes that a server stores. -/
def firstTag : List UInt8 := text "\"4-1\""

/-- The key "/a" is indexed with the first generation and four bytes. -/
def FirstFour (s : Server) : Prop :=
  ((State.openSnapshot s.cfg s.store (Digest.replicate 0) Faults.never).1.map
    fun snap => (snap.info.size, snap.info.etag)) = some (4, 1)

theorem FirstFour.snapshot (h : FirstFour s) :
    ∃ snap, (State.openSnapshot s.cfg s.store (Digest.replicate 0) Faults.never).1 = some snap ∧
      snap.info.size = 4 ∧ makeEtag snap.info = firstTag := by
  obtain ⟨snap, hsnap, hinfo⟩ := Option.map_eq_some_iff.1 h
  obtain ⟨hsize, hetag⟩ := Prod.mk.inj hinfo
  refine ⟨snap, hsnap, hsize, ?_⟩
  rw [makeEtag, hsize, hetag]
  rfl

theorem FirstFour.returned (h : FirstFour s) {bytes : Nat → UInt8}
    (hreads : Reads s (Digest.replicate 0) ⟨4, bytes⟩) :
    Returned plainSite s (text "/a") firstTag ⟨4, bytes⟩ := by
  obtain ⟨snap, hsnap, hsize, htag⟩ := h.snapshot
  exact ⟨asks [], Faults.never, snap, rfl, rfl, hsnap, rfl, htag.symm, hsize.symm, hreads⟩

end GoblinStore.Http
