import GoblinStore.Http.KeyDerivation
import GoblinStore.Net.LaneReads

/-!
# HTTP requests

What `request.cpp` makes of the output of the HTTP parser. The parser itself is a parameter: it says
of a buffer that it starts with a complete request head, that the head is not complete, or that it
is bad.
-/

namespace GoblinStore.Http

open GoblinStore.Lib

inductive Method where
  | get
  | head
  | other
  deriving DecidableEq, Repr

structure Request where
  method : Method
  target : List UInt8
  host : List UInt8
  range : Option ByteRange
  ifNoneMatch : List UInt8
  keepAlive : Bool
  deriving DecidableEq, Repr

/-- The request line and the headers that `phr_parse_request` has found, and the length of the
head. -/
structure PhrHead where
  consumed : Nat
  method : List UInt8
  path : List UInt8
  minor : Nat
  headers : List (List UInt8 × List UInt8)

/-- The result of `phr_parse_request`. -/
inductive Phr where
  | incomplete
  | bad
  | ok (head : PhrHead)

/-- The result of `parse_request`. -/
inductive ParseResult where
  | incomplete
  | bad
  | ok (consumed : Nat) (req : Request)

def iequals (a b : List UInt8) : Bool := a.map tolower = b.map tolower

def trim (s : List UInt8) : List UInt8 :=
  strip (fun c => c = ascii ' ' ∨ c = ascii '\t') s

def methodOf (m : List UInt8) : Method :=
  if m = text "GET" then .get else if m = text "HEAD" then .head else .other

/-- A single range of bytes; `none` if it is not one. -/
def parseRange (value : List UInt8) : Option ByteRange :=
  let value := trim value
  let unit := text "bytes="
  if unit.isPrefixOf value then
    let value := value.drop unit.length
    if ascii ',' ∈ value ∨ ascii '-' ∉ value then none
    else
      let lo := trim (value.takeWhile (· ≠ ascii '-'))
      let hi := trim ((value.dropWhile (· ≠ ascii '-')).tail)
      if lo = [] then ((toUint 64 hi).filter (· ≠ 0)).map fun n => ⟨.suffix, n, 0⟩
      else
        (toUint 64 lo).bind fun a =>
          if hi = [] then some ⟨.from, a, 0⟩
          else ((toUint 64 hi).filter (a ≤ ·)).map fun b => ⟨.closed, a, b⟩
  else none

/-- One header. -/
def applyHeader (req : Request) (header : List UInt8 × List UInt8) : Request :=
  if iequals header.1 (text "host") then { req with host := trim header.2 }
  else if iequals header.1 (text "range") then { req with range := parseRange header.2 }
  else if iequals header.1 (text "if-none-match") then { req with ifNoneMatch := trim header.2 }
  else if iequals header.1 (text "connection") then
    { req with keepAlive := !iequals (trim header.2) (text "close") }
  else req

/-- Parse one request head from the front of the buffer. -/
def parseRequest (phr : List UInt8 → Phr) (buf : List UInt8) : ParseResult :=
  match phr buf with
  | .incomplete => .incomplete
  | .bad => .bad
  | .ok head =>
      .ok head.consumed (head.headers.foldl applyHeader
        ⟨methodOf head.method, head.path, [], none, [], decide (1 ≤ head.minor)⟩)

/-! ## Content types -/

/-- The table of `content_type_for`. -/
def kTable : List (String × String) :=
  [("html", "text/html; charset=utf-8"), ("htm", "text/html; charset=utf-8"),
   ("css", "text/css; charset=utf-8"), ("js", "text/javascript; charset=utf-8"),
   ("mjs", "text/javascript; charset=utf-8"), ("json", "application/json; charset=utf-8"),
   ("map", "application/json; charset=utf-8"), ("xml", "application/xml; charset=utf-8"),
   ("txt", "text/plain; charset=utf-8"), ("csv", "text/csv; charset=utf-8"),
   ("md", "text/markdown; charset=utf-8"), ("svg", "image/svg+xml; charset=utf-8"),
   ("png", "image/png"), ("jpg", "image/jpeg"),
   ("jpeg", "image/jpeg"), ("gif", "image/gif"),
   ("webp", "image/webp"), ("avif", "image/avif"),
   ("ico", "image/x-icon"), ("bmp", "image/bmp"),
   ("woff", "font/woff"), ("woff2", "font/woff2"),
   ("ttf", "font/ttf"), ("otf", "font/otf"),
   ("eot", "application/vnd.ms-fontobject"), ("wasm", "application/wasm"),
   ("pdf", "application/pdf"), ("zip", "application/zip"),
   ("gz", "application/gzip"), ("mp4", "video/mp4"),
   ("webm", "video/webm"), ("ogg", "audio/ogg"),
   ("mp3", "audio/mpeg"), ("wav", "audio/wav"),
   ("ics", "text/calendar; charset=utf-8")]

def kOctetStream : List UInt8 := text "application/octet-stream"

/-- The extension of the last segment of a key, without its query. -/
def extension (key : List UInt8) : Option (List UInt8) :=
  let path := key.takeWhile (· ≠ ascii '?')
  let segment := ((path.splitOn (ascii '/')).getLast?).getD []
  let ext := segment.rtakeWhile (· ≠ ascii '.')
  -- no extension, a dotfile, or a trailing dot
  if ascii '.' ∉ segment ∨ segment.length = ext.length + 1 ∨ ext = [] then none else some ext

def contentTypeFor (key : List UInt8) : List UInt8 :=
  match extension key with
  | none => kOctetStream
  | some ext =>
      if 8 < ext.length then kOctetStream
      else
        match kTable.find? fun e => text e.1 = ext.map tolower with
        | some e => text e.2
        | none => kOctetStream

end GoblinStore.Http
