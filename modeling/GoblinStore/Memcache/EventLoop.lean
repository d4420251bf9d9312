import GoblinStore.Memcache.Protocol
import GoblinStore.Net.Protocols
import GoblinStore.Storage.History

/-!
# The memcache loop

`EventLoop::process` and the memcache framing of a GET. An iteration of `process` is a `Turn`:
`bodyTurn` receives the data block of a store, `metaTurn` and `classicTurn` answer a command line.
An iteration looks at the store and at the connection's own fields only (`Session`), so it is a
function of these.
-/

namespace GoblinStore.Memcache

open GoblinStore.Lib GoblinStore.Core GoblinStore.Net

/-- The bound on a command line. -/
def kMaxLine : Nat := 8 * 1024

/-- The return flags of a meta command. -/
structure MetaRf where
  f : Bool
  s : Bool
  t : Bool
  c : Bool
  k : Bool
  deriving DecidableEq, Repr

/-- What the memcache protocol keeps for a connection. -/
structure Session where
  input : List UInt8
  getKey : List UInt8
  getWithCas : Bool
  isMeta : Bool
  metaRflags : MetaRf
  metaQuiet : Bool
  metaOpaqueToken : List UInt8
  metaKey : List UInt8
  metaExpiry : Nat
  /-- the number of the open store handle -/
  handle : Option Nat
  setDigest : Digest
  setRemaining : Nat
  setFlags : Nat
  setExptime : Nat
  setCas : Nat
  setReply : List UInt8
  setNoreply : Bool
  setReject : Bool
  setFailed : Bool
  /-- ghost: more than a line without its end was behind a complete command, or as much behind
  `quit` -/
  overrun : Bool

/-- The fields of a connection just accepted. -/
def Session.create : Session where
  input := []
  getKey := []
  getWithCas := false
  isMeta := false
  metaRflags := ⟨false, false, false, false, false⟩
  metaQuiet := false
  metaOpaqueToken := []
  metaKey := []
  metaExpiry := 0
  handle := none
  setDigest := Digest.replicate 0
  setRemaining := 0
  setFlags := 0
  setExptime := 0
  setCas := 0
  setReply := []
  setNoreply := false
  setReject := false
  setFailed := false
  overrun := false

/-- What an iteration takes from outside: the text of `stats` and the failures of system calls. -/
structure Oracle where
  stats : List UInt8
  faults : Faults

/-- The same with the hash of keys. -/
structure Env extends Oracle where
  hashKey : List UInt8 → Digest

/-! ## The framing of a GET -/

/-- The rest of a hit's line, with the values that were asked for. -/
def metaRflagsStr (rf : MetaRf) (m : ObjectMeta) (key opaqueToken : List UInt8)
    (now : Nat) : List UInt8 :=
  (if rf.f then text " f" ++ decimal m.flags else []) ++
  (if rf.s then text " s" ++ decimal m.size else []) ++
  (if rf.t then text " t" ++ (if m.expiry = 0 then text "-1" else decimal (m.expiry - now)) else
  []) ++ (if rf.c then text " c" ++ decimal m.etag else []) ++
  (if rf.k then text " k" ++ key else []) ++
  (if opaqueToken ≠ [] then text " O" ++ opaqueToken else [])

def frameGetHit (p : Session) (now : Nat) (m : ObjectMeta) : List UInt8 :=
  if p.isMeta then
    text "VA " ++ decimal m.size ++ metaRflagsStr p.metaRflags m p.getKey p.metaOpaqueToken now ++
      crlf
  else if p.getWithCas then valueHeaderCas p.getKey m.flags m.size m.etag
  else valueHeader p.getKey m.flags m.size

def frameGetMiss (p : Session) : List UInt8 :=
  if p.isMeta then if p.metaQuiet then [] else kMetaMiss else kEnd

/-- What `on_value_sent` queues. -/
def valueEnd (p : Session) : List UInt8 := crlf ++ if p.isMeta then [] else kEnd

theorem frame_get_hit_ne (p : Session) (now : Nat) (m : ObjectMeta) : frameGetHit p now m ≠ [] := by
  unfold frameGetHit valueHeaderCas valueHeader
  split_ifs <;> simp [crlf]

section

variable (cfg : Config) (env : Env) (σ : State) (p : Session)

/-- The framing of the GET that the connection asks for. -/
def framing : Framing where
  header := frameGetHit p σ.now
  header_ne := frame_get_hit_ne p σ.now
  trailer := some (valueEnd p)
  miss := frameGetMiss p
  unmodified := fun _ => false
  faults := env.faults
  object := fun _ => σ.storedBytes (env.hashKey p.getKey)

/-! ## The data block of a store -/

/-- The handle takes the part of the data block that has arrived: the operation, and whether it
fails. -/
def ingest : List Op × Bool :=
  let take := min p.input.length p.setRemaining
  match p.handle with
  | none => ([], p.setFailed)
  | some id =>
      if p.setFailed = true ∨ take = 0 then ([], p.setFailed)
      else
        let chunk : ByteView := ⟨take, fun i => p.input.getD i 0⟩
        ([.write id chunk env.faults], match (σ.write cfg id chunk env.faults).1 with
          | .ok _ => false
          | .error _ => true)

/-- The connection without that part. -/
def Session.taken (p : Session) (failed : Bool) : Session :=
  let take := min p.input.length p.setRemaining
  { p with input := p.input.drop take, setRemaining := p.setRemaining - take, setFailed := failed }

/-- The handle is given up; a handle that was committed is not open any more. -/
def reset (env : Env) (p : Session) : List Op :=
  (p.handle.map fun id => .abort id env.faults).toList

/-- The reply to a store that succeeded; the new CAS is looked up. -/
def storedReply (σ : State) (p : Session) : List UInt8 :=
  if p.isMeta then
    if p.metaQuiet then []
    else
      text "HD" ++
      (if p.metaRflags.c then
        text " c" ++ decimal (((σ.index.lookup p.setDigest).map ObjectMeta.etag).getD 0) else []) ++
      (if p.metaRflags.k then text " k" ++ p.metaKey else []) ++
      (if p.metaOpaqueToken ≠ [] then text " O" ++ p.metaOpaqueToken else []) ++ crlf
  else if p.setNoreply then [] else kStored

/-- The reply to a store that failed: errors are always sent for meta commands. -/
def failedReply (p : Session) (reply : List UInt8) : List UInt8 :=
  if p.isMeta = true ∨ p.setNoreply = false then reply else []

/-- The expiry of a store, computed when the block is complete. -/
def Session.expiry (p : Session) (now : Nat) : Nat :=
  if p.isMeta then p.metaExpiry else exptimeToExpiry p.setExptime now

/-- The reply to a commit. -/
def commitReply (σ : State) (p : Session) : Except Errc Unit → List UInt8
  | .ok _ => storedReply σ p
  | .error .casMismatch => failedReply p (if p.isMeta then kMetaExists else kExists)
  | .error _ => failedReply p (if p.isMeta then kMetaNotStored else kNotStored)

/-- The data block and its end have arrived; `p` is the connection without the block. -/
def finishStore : List Op × List UInt8 :=
  if p.input.take 2 ≠ crlf then (reset env p, failedReply p kBadDataChunk)
  else if p.setReject then (reset env p, failedReply p p.setReply)
  else
    match p.handle with
    | none => ([], failedReply p (if p.isMeta then kMetaNotStored else kNotStored))
    | some id =>
        if p.setFailed then (reset env p,
          failedReply p (if p.isMeta then kMetaNotStored else kNotStored))
        else
          let committed := σ.commit cfg id p.setFlags (p.expiry σ.now) p.setCas env.faults
          (.commit id p.setFlags (p.expiry σ.now) p.setCas env.faults :: reset env p,
            commitReply committed.2 p committed.1)

/-- More than a line without its end. -/
def overlong (input : List UInt8) : Bool :=
  (splitLine input).isNone && decide (kMaxLine < input.length)

/-- The input behind a command that ends like this goes on with more than a line without its end, or
there is as much behind `quit`. -/
def overruns (input : List UInt8) : Ending → Bool
  | .again | .stored | .opens _ _ _ => overlong input
  | .tooLong => true
  | _ => false

/-- A command has been dealt with; what is behind it is recorded. -/
def answered (t : Turn Session) : Turn Session :=
  { t with proto := { t.proto with overrun := t.proto.overrun || overruns t.proto.input t.ending } }

/-- An iteration in the state `set_body`. -/
def bodyTurn : Turn Session :=
  let written := ingest cfg env σ p
  let p := p.taken written.2
  if 0 < p.setRemaining ∨ p.input.length < 2 then ⟨p, written.1, [], none, .waits⟩
  else
    let stored := finishStore cfg env (run (State.apply cfg) σ written.1) p
    answered ⟨{ p with input := p.input.drop 2, handle := none }, written.1 ++ stored.1, stored.2,
      none, .stored⟩

/-! ## Storage commands -/

/-- Whether a storage command is admitted, the reply if it is not, and the CAS to be checked at
commit. -/
structure Admission where
  reject : Bool
  reply : List UInt8
  cas : Nat

/-- Admission of a classic command. -/
def admitStore (verb : Verb) (cas : Nat) (found : Option ObjectMeta) : Admission :=
  match verb, found with
  | .add, some _ => ⟨true, kNotStored, 0⟩
  | .replace, none => ⟨true, kNotStored, 0⟩
  | .cas, none => ⟨true, kNotFound, 0⟩
  | .cas, some m => if m.etag ≠ cas then ⟨true, kExists, 0⟩ else ⟨false, kNotStored, cas⟩
  | _, _ => ⟨false, kNotStored, 0⟩

/-- The check of a CAS in a meta command. -/
def admitCas (cas : Option Nat) (found : Option ObjectMeta) : Admission :=
  match cas, found with
  | none, _ => ⟨false, kMetaNotStored, 0⟩
  | some _, none => ⟨true, kMetaNotFound, 0⟩
  | some cas, some m =>
      if m.etag ≠ cas then ⟨true, kMetaExists, 0⟩ else ⟨false, kMetaNotStored, cas⟩

/-- The mode of a meta set lets it store. -/
def modeAdmits (mode : UInt8) (found : Option ObjectMeta) : Bool :=
  if mode = ascii 'E' then found.isNone
  else if mode = ascii 'R' then found.isSome
  else mode = ascii 'S'

/-- Admission of a meta command. -/
def admitMeta (mode : UInt8) (cas : Option Nat) (found : Option ObjectMeta) : Admission :=
  let a := admitCas cas found
  { a with reject := a.reject || !modeAdmits mode found }

/-- The connection of an admitted or rejected storage command: the store is opened, or the body is
dropped. -/
def beginTurn : Turn Session :=
  let ops := reset env p
  let σ := run (State.apply cfg) σ ops
  let p := { p with handle := none }
  if p.setReject then ⟨p, ops, [], none, .stores false⟩
  else
    let op := Op.beginStore p.setDigest p.setRemaining env.faults
    match (σ.beginStore cfg p.setDigest p.setRemaining env.faults).1 with
    | .ok id => ⟨{ p with handle := some id }, ops ++ [op], [], none, .stores true⟩
    | .error .wouldBlock => ⟨p, ops ++ [op], [], none, .parks⟩
    | .error _ =>
        ⟨{ p with setReject := true, setReply := if p.isMeta then kMetaNotStored else p.setReply },
          ops ++ [op], [], none, .stores false⟩

/-! ## Command lines -/

/-- The end of `process` without a complete line. -/
def lineEnd (p : Session) : Ending := if kMaxLine < p.input.length then .tooLong else .waits

/-- A meta command. -/
def isMetaLine : List UInt8 → Bool
  | a :: b :: rest =>
      a == ascii 'm' && [ascii 'n', ascii 'g', ascii 's', ascii 'd'].contains b &&
        (rest.head?.getD (ascii ' ') == ascii ' ')
  | _ => false

/-- `ms`. -/
def metaSetTurn (mc : MetaCommand) : Turn Session :=
  let digest := env.hashKey mc.key
  let admission := admitMeta mc.mode mc.cas (σ.present digest)
  beginTurn cfg env σ { p with
    isMeta := true
    metaRflags := ⟨false, false, false, mc.rfCas, mc.rfKey⟩
    metaQuiet := mc.quiet
    metaOpaqueToken := mc.opaqueToken
    metaKey := mc.key
    metaExpiry := (mc.ttl.map fun ttl => ttlToExpiry ttl σ.now).getD 0
    setDigest := digest
    setRemaining := mc.datalen
    setFlags := mc.setFlags
    setCas := admission.cas
    setReply := admission.reply
    setNoreply := false
    setReject := admission.reject
    setFailed := false }

/-- `md`. -/
def metaDeleteTurn (mc : MetaCommand) : Turn Session :=
  let digest := env.hashKey mc.key
  match σ.present digest with
  | none => ⟨p, [], if mc.quiet then [] else kMetaNotFound, none, .again⟩
  | some m =>
      if mc.cas.any (m.etag ≠ ·) then ⟨p, [], if mc.quiet then [] else kMetaExists, none, .again⟩
      else
        ⟨p, [.remove digest env.faults],
          if mc.quiet then []
          else
            text "HD" ++ (if mc.rfKey then text " k" ++ mc.key else []) ++
              (if mc.opaqueToken ≠ [] then text " O" ++ mc.opaqueToken else []) ++ crlf,
          none, .again⟩

/-- `mg`. -/
def metaGetTurn (mc : MetaCommand) : Turn Session :=
  let digest := env.hashKey mc.key
  let ops := (mc.ttl.map fun ttl => Op.touchTtl digest (ttlToExpiry ttl σ.now)).toList
  let rf : MetaRf := ⟨mc.rfFlags, mc.rfSize, mc.rfTtl, mc.rfCas, mc.rfKey⟩
  let σ := run (State.apply cfg) σ ops
  if mc.rfValue then
    let p := { p with
      isMeta := true
      getWithCas := false
      metaRflags := rf
      metaQuiet := mc.quiet
      metaOpaqueToken := mc.opaqueToken
      getKey := mc.key }
    ⟨p, ops, [], none, .opens digest none (framing env σ p)⟩
  else
    match σ.present digest with
    | none => ⟨p, ops, if mc.quiet then [] else kMetaMiss, none, .again⟩
    | some m =>
        ⟨p, ops, text "HD" ++ metaRflagsStr rf m mc.key mc.opaqueToken σ.now ++ crlf, none, .again⟩

/-- A meta command line; `p` is the connection without it. -/
def metaTurn (line : List UInt8) : Turn Session :=
  match parseMeta line with
  | none => ⟨p, [], kBadMeta, none, .again⟩
  | some mc =>
      match mc.verb with
      | .mn => ⟨p, [], kMetaNoop, none, .again⟩
      | .ms => metaSetTurn cfg env σ p mc
      | .md => metaDeleteTurn env σ p mc
      | .mg => metaGetTurn cfg env σ p mc

/-- `set`, `add`, `replace` and `cas`. -/
def storageTurn (cmd : Command) : Turn Session :=
  let digest := env.hashKey cmd.key
  let admission := admitStore cmd.verb cmd.cas (σ.present digest)
  beginTurn cfg env σ { p with
    isMeta := false
    setDigest := digest
    setRemaining := cmd.bytes
    setFlags := cmd.flags
    setExptime := cmd.exptime
    setCas := admission.cas
    setReply := admission.reply
    setNoreply := cmd.noreply
    setReject := admission.reject
    setFailed := false }

/-- `get` and `gets`. -/
def getTurn (key : List UInt8) (withCas : Bool) : Turn Session :=
  let p := { p with isMeta := false, getWithCas := withCas, getKey := key }
  ⟨p, [], [], none, .opens (env.hashKey key) none (framing env σ p)⟩

/-- A classic command line; `p` is the connection without it. -/
def classicTurn (line : List UInt8) : Turn Session :=
  match parseCommand line with
  | none => ⟨p, [], kError, none, .again⟩
  | some cmd =>
      match cmd.verb with
      | .version => ⟨p, [], kVersion, none, .again⟩
      | .quit => ⟨p, [], [], some false, if kMaxLine < p.input.length then .tooLong else .quits⟩
      | .del =>
          let digest := env.hashKey cmd.key
          let erased := (σ.remove cfg digest env.faults).1
          ⟨p, [.remove digest env.faults],
          if cmd.noreply then [] else if erased then kDeleted else kNotFound, none, .again⟩
      | .get => getTurn env σ p cmd.key false
      | .gets => getTurn env σ p cmd.key true
      | .set | .add | .replace | .cas => storageTurn cfg env σ p cmd
      | .stats => ⟨p, [], env.stats, none, .again⟩
      | .unknown => ⟨p, [], kError, none, .again⟩

/-- An iteration in the state `idle`. -/
def lineTurn : Turn Session :=
  match splitLine p.input with
  | none => ⟨p, [], [], none, lineEnd p⟩
  | some (line, rest) =>
      let p := { p with input := rest }
      answered (if isMetaLine line then metaTurn cfg env σ p line else classicTurn cfg env σ p line)

/-- An iteration of `process`. -/
def turn (cfg : Config) (env : Env) (σ : State) (st : St) (p : Session) : Turn Session :=
  if st = .setBody then bodyTurn cfg env σ p else lineTurn cfg env σ p

/-- The retry of a store that is parked; `set_remaining` is still the whole length. -/
def retryStore : List Op × Option (Bool × Session) :=
  ([.beginStore p.setDigest p.setRemaining env.faults],
    match (σ.beginStore cfg p.setDigest p.setRemaining env.faults).1 with
    | .ok id => some (true, { p with handle := some id })
    | .error .wouldBlock => none
    | .error _ => some (false, { p with setReject := true }))

end

/-- The memcache loop. An iteration after which `process` goes on takes at least two bytes of the
input; every iteration has failures of its own, and so has a retry before them. -/
def eventLoop (cfg : Config) (hashKey : List UInt8 → Digest) : Protocol Session (Nat → Oracle) where
  start := Session.create
  input := fun p bytes => { p with input := p.input ++ bytes }
  size := fun p => p.input.length
  next := fun o fuel => turn cfg ⟨o fuel, hashKey⟩
  framing := fun o σ p => framing ⟨o (p.input.length + 1), hashKey⟩ σ p
  retry := fun o σ p => retryStore cfg ⟨o (p.input.length + 1), hashKey⟩ σ p

end GoblinStore.Memcache
