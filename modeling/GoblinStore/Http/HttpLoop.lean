import GoblinStore.Http.Request
import GoblinStore.Net.Protocols
import GoblinStore.Storage.History

/-!
# The HTTP loop

`HttpLoop::process` and the HTTP framing of a GET. An iteration of `process` is a `Turn` that parses
one request; it has nothing for the store to do but to open the GET.
-/

namespace GoblinStore.Http

open GoblinStore.Lib GoblinStore.Core GoblinStore.Net

/-- What the HTTP protocol keeps for a connection: of the current request, the key, If-None-Match,
the range and whether the connection is kept open. -/
structure Session where
  input : List UInt8
  /-- the name of the TLS handshake, empty over plain connections -/
  sni : List UInt8
  getKey : List UInt8
  inm : List UInt8
  reqRange : Option ByteRange
  keepAlive : Bool
  /-- ghost: the requests that were taken off the input and answered, or will be -/
  asked : List Request
  /-- ghost: a request that closes the connection was followed by more than the beginning of another
  one -/
  crowded : Bool

/-- The fields of a connection just accepted. -/
def Session.create : Session := ⟨[], [], [], [], none, true, [], false⟩

/-- The parts of a server that the loop does not change: the options of key derivation, the hash of
keys and the HTTP parser, which takes a complete head off the buffer. -/
structure Site where
  keyopt : KeyOptions
  hashKey : List UInt8 → Digest
  phr : List UInt8 → Phr
  phr_consumed : ∀ buf head, phr buf = .ok head → 0 < head.consumed ∧ head.consumed ≤ buf.length

/-! ## Responses -/

def makeEtag (m : ObjectMeta) : List UInt8 :=
  text "\"" ++ hexadecimal m.size ++ text "-" ++ hexadecimal m.etag ++ text "\""

def inmMatches (header quotedEtag : List UInt8) : Bool :=
  ascii '*' ∈ header || quotedEtag <:+: header

/-- The end of a response head. -/
def connectionLine (keepAlive : Bool) : List UInt8 :=
  if keepAlive then text "Connection: keep-alive\r\n\r\n" else text "Connection: close\r\n\r\n"

/-- A response head; a body, if any, has this length. -/
def appendHead (status : List UInt8) (contentLength : Nat) (keepAlive : Bool)
    (contentType etag : List UInt8) :
    List UInt8 :=
  text "HTTP/1.1 " ++ status ++ text "\r\nContent-Length: " ++ decimal contentLength ++ crlf ++
  (if 0 < contentLength then text "Content-Type: " ++ contentType ++
  text "\r\nAccept-Ranges: bytes\r\n" else []) ++
  (if etag ≠ [] then text "ETag: " ++ etag ++ crlf else []) ++
  connectionLine keepAlive

def k400 : List UInt8 :=
  text "HTTP/1.1 400 Bad Request\r\nContent-Length: 0\r\nConnection: close\r\n\r\n"

def k405 : List UInt8 :=
  text "HTTP/1.1 405 Method Not Allowed\r\nContent-Length: 0\r\n" ++
    text "Allow: GET, HEAD\r\nConnection: close\r\n\r\n"

def k421 : List UInt8 :=
  text "HTTP/1.1 421 Misdirected Request\r\nContent-Length: 0\r\nConnection: close\r\n\r\n"

def notFound (keepAlive : Bool) : List UInt8 :=
  appendHead (text "404 Not Found") 0 keepAlive kOctetStream []

def notModified (m : ObjectMeta) (keepAlive : Bool) : List UInt8 :=
  text "HTTP/1.1 304 Not Modified\r\nETag: " ++ makeEtag m ++ crlf ++ connectionLine keepAlive

def rangeNotSatisfiable (m : ObjectMeta) (keepAlive : Bool) : List UInt8 :=
  text "HTTP/1.1 416 Range Not Satisfiable\r\nContent-Range: bytes */" ++ decimal m.size ++
  text "\r\nContent-Length: 0\r\n" ++ connectionLine keepAlive

def partialContent (m : ObjectMeta) (off len : Nat) (contentType : List UInt8)
    (keepAlive : Bool) : List UInt8 :=
  text "HTTP/1.1 206 Partial Content\r\nContent-Range: bytes " ++ decimal off ++ text "-" ++
  decimal ((off + len + wrap64 - 1) % wrap64) ++ text "/" ++ decimal m.size ++
  text "\r\nContent-Length: " ++ decimal len ++ text "\r\nContent-Type: " ++ contentType ++
  text "\r\nETag: " ++ makeEtag m ++ crlf ++ connectionLine keepAlive

variable (site : Site) (p : Session)

/-- The client has this version already. -/
def unmodified (m : ObjectMeta) : Bool := p.inm ≠ [] && inmMatches p.inm (makeEtag m)

def frameGetHit (m : ObjectMeta) : List UInt8 :=
  if unmodified p m then notModified m p.keepAlive
  else
    match p.reqRange with
    | none => appendHead (text "200 OK") m.size p.keepAlive (contentTypeFor p.getKey) (makeEtag m)
    | some r =>
        match resolveRange r m.size with
        | none => rangeNotSatisfiable m p.keepAlive
        | some (off, len) => partialContent m off len (contentTypeFor p.getKey) p.keepAlive

theorem connection_line_ne (keepAlive : Bool) : connectionLine keepAlive ≠ [] := by
  cases keepAlive <;> decide

theorem frame_get_hit_ne (m : ObjectMeta) : frameGetHit p m ≠ [] := by
  have hend : ∀ (head : List UInt8), head ++ connectionLine p.keepAlive ≠ [] := fun head =>
    List.append_ne_nil_of_right_ne_nil head (connection_line_ne p.keepAlive)
  unfold frameGetHit
  split_ifs
  · exact hend _
  · split
    · exact hend _
    · split
      · exact hend _
      · exact hend _

/-- The framing of the GET that the connection asks for. -/
def framing (faults : Faults) (σ : State) (p : Session) : Framing where
  header := frameGetHit p
  header_ne := frame_get_hit_ne p
  trailer := none
  miss := notFound p.keepAlive
  unmodified := unmodified p
  faults := faults
  object := fun _ => σ.storedBytes (site.hashKey p.getKey)

/-- The response to HEAD. -/
def headReply (key : List UInt8) : Option ObjectMeta → List UInt8
  | none => notFound p.keepAlive
  | some m =>
      if unmodified p m then notModified m p.keepAlive
      else appendHead (text "200 OK") m.size p.keepAlive (contentTypeFor key) (makeEtag m)

/-! ## Requests -/

/-- The buffer does not start with a complete head. -/
def ParseResult.isIncomplete : ParseResult → Bool
  | .incomplete => true
  | _ => false

/-- A request is taken off the input. -/
def Session.take (consumed : Nat) (req : Request) : Session :=
  { p with
    input := p.input.drop consumed
    inm := req.ifNoneMatch
    keepAlive := req.keepAlive
    asked := p.asked ++ [req] }

/-- The loop goes on to what follows the request. -/
def Session.follow : Session :=
  { p with crowded := p.crowded || !p.keepAlive && !(parseRequest site.phr p.input).isIncomplete }

/-- The request may be answered over this connection. -/
def hostOk (req : Request) : Bool := p.sni = [] || normalizeHost req.host = p.sni

/-- The answer to a request. -/
def answer (faults : Faults) (σ : State) (p : Session) (req : Request) : Turn Session :=
  if !hostOk p req then ⟨p, [], k421, some req.keepAlive, .quits⟩
  else
    match req.method, deriveKey req.host req.target site.keyopt with
    | .other, _ => ⟨p, [], k405, some req.keepAlive, .quits⟩
    | _, none => ⟨p, [], k400, some req.keepAlive, .quits⟩
    | .get, some key =>
        let p := { p.follow site with reqRange := req.range, getKey := key }
        ⟨p, [], [], some req.keepAlive,
        .opens (site.hashKey key) req.range (framing site faults σ p)⟩
    | .head, some key =>
        ⟨p.follow site, [], headReply p key (σ.present (site.hashKey key)),
          some req.keepAlive, .again⟩

/-- An iteration of `process`. -/
def turn (faults : Faults) (σ : State) (p : Session) : Turn Session :=
  match parseRequest site.phr p.input with
  | .incomplete => ⟨p, [], [], none, .waits⟩
  | .bad => ⟨p, [], k400, none, .quits⟩
  | .ok consumed req => answer site faults σ (p.take consumed req) req

/-- The HTTP loop. An iteration after which `process` goes on takes a request off the input; every
iteration has failures of its own, and so has a retry before them. -/
def httpLoop : Protocol Session (Nat → Faults) where
  start := Session.create
  input := fun p bytes => { p with input := p.input ++ bytes }
  size := fun p => p.input.length
  next := fun o fuel σ _ p => turn site (o fuel) σ p
  framing := fun o σ p => framing site (o (p.input.length + 1)) σ p
  retry := fun _ _ _ => ([], none)

end GoblinStore.Http
