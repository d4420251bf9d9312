import GoblinStore.Common.Types
import GoblinStore.Lib.Bytes
import GoblinStore.Lib.Text

/-!
# The memcache text protocol

Command lines and replies. A line comes without its end; the data block of a storage command is the
connection's business.
-/

namespace GoblinStore.Memcache

open GoblinStore.Lib

inductive Verb where
  | get
  | gets
  | set
  | add
  | replace
  | cas
  | del
  | version
  | quit
  | stats
  | unknown
  deriving DecidableEq, Repr

structure Command where
  verb : Verb
  key : List UInt8
  flags : Nat
  exptime : Nat
  bytes : Nat
  cas : Nat
  noreply : Bool
  deriving DecidableEq, Repr

def verbOf (t : List UInt8) : Verb :=
  if t = text "get" then .get
  else if t = text "gets" then .gets
  else if t = text "set" then .set
  else if t = text "add" then .add
  else if t = text "replace" then .replace
  else if t = text "cas" then .cas
  else if t = text "delete" then .del
  else if t = text "version" then .version
  else if t = text "quit" then .quit
  else if t = text "stats" then .stats
  else .unknown

/-- `to_int` for `int64_t`: digits with an optional minus sign. -/
def toInt64 : List UInt8 → Option Int
  | [] => none
  | c :: rest =>
      if c = ascii '-' then ((digits rest).filter (· ≤ 2 ^ 63)).map fun n => -(n : Int)
      else ((digits (c :: rest)).filter (· < 2 ^ 63)).map fun n => (n : Int)

/-- The storage fields that `set`, `add`, `replace` and `cas` share. -/
def parseStorage (verb : Verb) (key flags exptime bytes : List UInt8) (cas : Nat) (noreply : Bool) :
    Option Command :=
  match toUint 32 flags, toUint 32 exptime, toUint 64 bytes with
  | some flags, some exptime, some bytes => some ⟨verb, key, flags, exptime, bytes, cas, noreply⟩
  | _, _, _ => none

/-- Parse a command line; `none` is `invalid_protocol`. At most seven words are looked at. -/
def parseCommand (line : List UInt8) : Option Command :=
  match (words line).take 7 with
  | [] => none
  | verb :: args =>
      let bare (verb : Verb) : Command := ⟨verb, [], 0, 0, 0, 0, false⟩
      match verbOf verb, args with
      | .get, key :: _ => some { bare .get with key := key }
      | .gets, key :: _ => some { bare .gets with key := key }
      | .del, key :: rest =>
          some { bare .del with key := key, noreply := rest.head? = some (text "noreply") }
      | .cas, key :: flags :: exptime :: bytes :: cas :: rest =>
          (toUint 64 cas).bind fun cas =>
            parseStorage .cas key flags exptime bytes cas (rest.head? = some (text "noreply"))
      | .set, key :: flags :: exptime :: bytes :: rest =>
          parseStorage .set key flags exptime bytes 0 (rest.head? = some (text "noreply"))
      | .add, key :: flags :: exptime :: bytes :: rest =>
          parseStorage .add key flags exptime bytes 0 (rest.head? = some (text "noreply"))
      | .replace, key :: flags :: exptime :: bytes :: rest =>
          parseStorage .replace key flags exptime bytes 0 (rest.head? = some (text "noreply"))
      | .version, _ => some (bare .version)
      | .quit, _ => some (bare .quit)
      | .stats, _ => some (bare .stats)
      | _, _ => none

inductive MetaVerb where
  | mn
  | mg
  | ms
  | md
  deriving DecidableEq, Repr

/-- A meta command; `ttl` and `cas` are present if their flags were given. -/
@[ext]
structure MetaCommand where
  verb : MetaVerb
  key : List UInt8
  datalen : Nat
  rfValue : Bool
  rfFlags : Bool
  rfSize : Bool
  rfTtl : Bool
  rfCas : Bool
  rfKey : Bool
  quiet : Bool
  hasSetFlags : Bool
  setFlags : Nat
  ttl : Option Int
  cas : Option Nat
  mode : UInt8
  opaqueToken : List UInt8
  deriving DecidableEq, Repr

/-- A meta command before its flags. -/
def MetaCommand.start (verb : MetaVerb) (key : List UInt8) (datalen : Nat) : MetaCommand :=
  ⟨verb, key, datalen, false, false, false, false, false, false, false, false, 0, none, none,
    ascii 'S', []⟩

/-- One flag of a meta command. -/
def parseMetaFlag (m : MetaCommand) (c : UInt8) (arg : List UInt8) : Option MetaCommand :=
  if c = ascii 'v' then some { m with rfValue := true }
  else if c = ascii 'f' then some { m with rfFlags := true }
  else if c = ascii 's' then some { m with rfSize := true }
  else if c = ascii 't' then some { m with rfTtl := true }
  else if c = ascii 'c' then some { m with rfCas := true }
  else if c = ascii 'k' then some { m with rfKey := true }
  else if c = ascii 'q' then some { m with quiet := true }
  else if c = ascii 'F' then (toUint 32 arg).map fun n => { m with
    hasSetFlags := true, setFlags := n }
  else if c = ascii 'T' then (toInt64 arg).map fun n => { m with ttl := some n }
  else if c = ascii 'C' then (toUint 64 arg).map fun n => { m with cas := some n }
  else if c = ascii 'M' then arg.head?.map fun c => { m with mode := c }
  else if c = ascii 'O' then some { m with opaqueToken := arg }
  else none

/-- The flags of a meta command. -/
def parseMetaFlags : List (List UInt8) → MetaCommand → Option MetaCommand
  | [], m => some m
  | [] :: _, m => some m
  | (c :: arg) :: rest, m => (parseMetaFlag m c arg).bind (parseMetaFlags rest)

/-- Parse a meta command line; `none` is `invalid_protocol`. -/
def parseMeta (line : List UInt8) : Option MetaCommand :=
  match words line with
  | [] => none
  | v :: args =>
      if v = text "mn" then some (.start .mn [] 0)
      else
        match args with
        | [] => none
        | key :: rest =>
            if v = text "mg" then parseMetaFlags rest (.start .mg key 0)
            else if v = text "md" then parseMetaFlags rest (.start .md key 0)
            else if v = text "ms" then
              match rest with
              | [] => none
              | datalen :: rest =>
                  (toUint 64 datalen).bind fun n => parseMetaFlags rest (.start .ms key n)
            else none

/-- An absolute expiry: 0 is never, up to 30 days is relative. -/
def exptimeToExpiry (exptime now : Nat) : Nat :=
  if exptime = 0 then 0
  else if 60 * 60 * 24 * 30 < exptime then exptime
  else (now + exptime) % wrap32

/-- The expiry of a TTL in a meta command. -/
def ttlToExpiry (ttl : Int) (now : Nat) : Nat :=
  if ttl = 0 then 0
  else if ttl < 0 then 1
  else exptimeToExpiry (ttl.toNat % wrap32) now

/-! ## Replies -/

def kStored : List UInt8 := text "STORED\r\n"
def kNotStored : List UInt8 := text "NOT_STORED\r\n"
def kExists : List UInt8 := text "EXISTS\r\n"
def kDeleted : List UInt8 := text "DELETED\r\n"
def kNotFound : List UInt8 := text "NOT_FOUND\r\n"
def kEnd : List UInt8 := text "END\r\n"
def kError : List UInt8 := text "ERROR\r\n"
def kBadDataChunk : List UInt8 := text "CLIENT_ERROR bad data chunk\r\n"
def kBadMeta : List UInt8 := text "CLIENT_ERROR bad meta command\r\n"
def kVersion : List UInt8 := text "VERSION goblin-store 0.0.1\r\n"
def kMetaNoop : List UInt8 := text "MN\r\n"
def kMetaMiss : List UInt8 := text "EN\r\n"
def kMetaNotStored : List UInt8 := text "NS\r\n"
def kMetaExists : List UInt8 := text "EX\r\n"
def kMetaNotFound : List UInt8 := text "NF\r\n"

def valueHeader (key : List UInt8) (flags bytes : Nat) : List UInt8 :=
  text "VALUE " ++ key ++ text " " ++ decimal flags ++ text " " ++ decimal bytes ++ crlf

def valueHeaderCas (key : List UInt8) (flags bytes cas : Nat) : List UInt8 :=
  text "VALUE " ++ key ++ text " " ++ decimal flags ++ text " " ++ decimal bytes ++ text " " ++
    decimal cas ++ crlf

end GoblinStore.Memcache
