import RpcGateway.Bytes
import RpcGateway.Number.Words

/-!
Request targets: a path with an optional query, an authority alone, an absolute URI, or the
asterisk. A fragment is dropped.
-/
namespace RpcGateway.Http

def slash : UInt8 := ascii '/'
def question : UInt8 := ascii '?'
def hash : UInt8 := ascii '#'

/-- A path and the query after its question mark. -/
structure Target where
  path : Bytes
  query : Option Bytes
  deriving DecidableEq, Repr, Inhabited

/-- Bytes that a path may hold without escape. -/
def isPathByte (b : UInt8) : Bool :=
  b = 0x21 || b = 0x22 || (0x24 ≤ b && b ≤ 0x3B) || b = 0x3D || (0x40 ≤ b && b ≤ 0x5F) ||
    (0x61 ≤ b && b ≤ 0x7E) || 0x80 ≤ b

/-- Bytes that a query may hold without escape. -/
def isQueryByte (b : UInt8) : Bool :=
  b = 0x21 || (0x24 ≤ b && b ≤ 0x3B) || b = 0x3D || (0x3F ≤ b && b ≤ 0x7E) || 0x80 ≤ b

/-- A path and query, up to a fragment. -/
def Target.parse? (s : Bytes) : Option Target := do
  let path := s.takeWhile fun b => b ≠ question && b ≠ hash
  let rest := s.drop path.length
  guard (path.all isPathByte)
  let query ← match rest with
    | 0x3F :: r =>
      let q := r.takeWhile (· ≠ hash)
      if q.all isQueryByte then some (some q) else none
    | _ => some none
  let _ ← ofUtf8? path
  let _ ← ofUtf8? (query.getD [])
  return ⟨path, query⟩

/-- Bytes of unreserved and reserved characters. -/
def isUriByte (b : UInt8) : Bool :=
  isDigit b || (0x41 ≤ b && b ≤ 0x5A) || (0x61 ≤ b && b ≤ 0x7A) ||
    (utf8 "!#$&'()*+,-./:;=?@[]_~").contains b

/-- What the authority read so far has shown. -/
structure AuthorityState where
  colons : Nat := 0
  opened : Bool := false
  closed : Bool := false
  percent : Bool := false
  afterAt : Bool := false

/-- Reads one byte of an authority. -/
def AuthorityState.step (a : AuthorityState) (b : UInt8) : Option AuthorityState :=
  let a := { a with afterAt := false }
  if b = ascii ':' then if 8 ≤ a.colons then none else some { a with colons := a.colons + 1 }
  else if b = ascii '[' then if a.percent || a.opened then none else some { a with opened := true }
  else if b = ascii ']' then
    if !a.opened || a.closed then none
    else some { a with closed := true, colons := 0, percent := false }
  else if b = ascii '@' then some { a with colons := 0, percent := false, afterAt := true }
  else if b = ascii '%' then some { a with percent := true }
  else if isUriByte b then some a
  else none

/-- Whether an authority may end here: brackets are closed with at most one colon after them, the
host holds no escape, and something follows the user. -/
def AuthorityState.ends (a : AuthorityState) : Bool :=
  a.opened == a.closed && a.colons ≤ 1 && !a.afterAt && !a.percent

/-- The authority at the front of a text, and what follows it. -/
def authority? (s : Bytes) : Option (Bytes × Bytes) := do
  let a := s.takeWhile fun b => b ≠ slash && b ≠ question && b ≠ hash
  let state ← a.foldlM AuthorityState.step {}
  guard state.ends
  return (a, s.drop a.length)

/-- Bytes of schemes. -/
def isSchemeByte (b : UInt8) : Bool :=
  isDigit b || (0x41 ≤ b && b ≤ 0x5A) || (0x61 ≤ b && b ≤ 0x7A) || (utf8 "+-.~").contains b

/-- What follows a scheme and its `://`, if the text begins with one. A scheme has up to 64 bytes.
-/
def afterScheme (s : Bytes) : Option (Option Bytes) :=
  let scheme := s.takeWhile isSchemeByte
  match s.drop scheme.length with
  | 0x3A :: 0x2F :: 0x2F :: rest => if 64 < scheme.length then none else some (some rest)
  | _ => some none

structure Uri where
  target : Target
  deriving DecidableEq, Repr, Inhabited

/-- A path in absolute form is never empty. -/
def Target.absolute (t : Target) : Target :=
  if t.path.isEmpty then { t with path := [slash] } else t

/-- Reads a request target or an absolute URI. -/
def Uri.parse? (s : Bytes) : Option Uri := do
  guard (s.length < Number.words16 - 1)
  match s with
  | [] => none
  | [0x2A] => return ⟨⟨s, none⟩⟩
  | 0x2F :: _ => return ⟨← Target.parse? s⟩
  | [_] => (authority? s).bind fun (_, rest) => if rest.isEmpty then some ⟨⟨[], none⟩⟩ else none
  | _ =>
    match ← afterScheme s with
    | none => (authority? s).bind fun (_, rest) => if rest.isEmpty then some ⟨⟨[], none⟩⟩ else none
    | some rest =>
      let (authority, rest) ← authority? rest
      guard (!authority.isEmpty)
      return ⟨(← Target.parse? rest).absolute⟩

def Uri.path (u : Uri) : Bytes := u.target.path

def Uri.query (u : Uri) : Option Bytes := u.target.query

end RpcGateway.Http
