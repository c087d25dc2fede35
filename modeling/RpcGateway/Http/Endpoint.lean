import RpcGateway.Number.Decimal
import RpcGateway.Text.Percent
import RpcGateway.Text.Pieces

/-!
Addresses to listen on: a host of four octets, or of eight groups in brackets, and the number of a
socket on it.
-/
namespace RpcGateway.Http
open Number Text

inductive Host
  | octets (a b c d : Nat)
  /-- Eight groups of 16 bits, and the number of a network interface or zero. -/
  | groups (values : List Nat) (scope : Nat)
  deriving DecidableEq, Repr, Inhabited

structure Endpoint where
  host : Host
  /-- The number of the socket on the host. -/
  socket : Nat
  deriving DecidableEq, Repr, Inhabited

namespace Endpoint

/-- Digits of a number that is less than a bound. -/
def below? (bound : Nat) (cs : List Char) : Option Nat :=
  (ofDigits? (utf8 (String.ofList cs))).filter (· < bound)

/-- One of four octets, without leading zeros. -/
def octet? (cs : List Char) : Option Nat :=
  if 1 < cs.length && cs.head? == some '0' then none else below? 256 cs

def octets? (cs : List Char) : Option (Nat × Nat × Nat × Nat) :=
  match (piecesOf '.' cs).mapM octet? with
  | some [a, b, c, d] => some (a, b, c, d)
  | _ => none

/-- A group of up to four hexadecimal digits. -/
def group? (cs : List Char) : Option Nat := do
  let ds ← (utf8 (String.ofList cs)).mapM Percent.hexValue?
  guard (1 ≤ ds.length && ds.length ≤ 4)
  return ds.foldl (fun n d => 16 * n + d) 0

/-- Groups with colons between them, no groups for the empty text. -/
def plainGroups? (cs : List Char) : Option (List Nat) :=
  if cs.isEmpty then some [] else (piecesOf ':' cs).mapM group?

/-- Groups of which the last two may be written as four octets. -/
def groups? (cs : List Char) : Option (List Nat) :=
  match (piecesOf ':' cs).reverse with
  | last :: before =>
    match octets? last with
    | some (a, b, c, d) =>
      (before.reverse.mapM group?).map (· ++ [256 * a + b, 256 * c + d])
    | none => plainGroups? cs
  | [] => none

/-- The texts before and after the first double colon. -/
def cutDoubleColon : List Char → Option (List Char × List Char)
  | ':' :: ':' :: cs => some ([], cs)
  | c :: cs => (cutDoubleColon cs).map fun (before, after) => (c :: before, after)
  | [] => none

/-- Eight groups. A double colon stands for as many zeros as are missing, at least one. -/
def sixteen? (cs : List Char) : Option (List Nat) :=
  match cutDoubleColon cs with
  | none => (groups? cs).filter (·.length = 8)
  | some (before, after) => do
    let front ← plainGroups? before
    let back ← groups? after
    let count := front.length + back.length
    guard (count ≤ 7)
    return front ++ List.replicate (8 - count) 0 ++ back

/-- A host in brackets, with the number of an interface after a percent sign. -/
def bracketed? (cs : List Char) : Option Host :=
  match piecesOf '%' cs with
  | [address] => (sixteen? address).map fun values => .groups values 0
  | [address, scope] => do return .groups (← sixteen? address) (← below? words32 scope)
  | _ => none

def socket? (cs : List Char) : Option Nat := below? words16 cs

/-- Reads an address with its socket. -/
def parse? (s : String) : Option Endpoint :=
  match s.toList with
  | '[' :: cs =>
    let inner := cs.takeWhile (· ≠ ']')
    match cs.drop inner.length with
    | ']' :: ':' :: socket => do return ⟨← bracketed? inner, ← socket? socket⟩
    | _ => none
  | cs =>
    match piecesOf ':' cs with
    | [host, socket] => do
      let (a, b, c, d) ← octets? host
      return ⟨.octets a b c d, ← socket? socket⟩
    | _ => none

/-! ## Writing -/

def octetsText (a b c d : Nat) : String := s!"{a}.{b}.{c}.{d}"

def groupText (n : Nat) : String := String.ofList (Nat.toDigits 16 n)

def groupsText (values : List Nat) : String := String.intercalate ":" (values.map groupText)

/-- How many zeros a list begins with. -/
def zerosAt (values : List Nat) : Nat := (values.takeWhile (· = 0)).length

/-- The first position of the longest run of zeros, and its length. -/
def longestZeros (values : List Nat) : Nat × Nat :=
  (List.range values.length).foldl (fun best i =>
    let n := zerosAt (values.drop i)
    if best.2 < n then (i, n) else best) (0, 0)

/-- Eight groups with the longest run of zeros, if it has two, as a double colon. -/
def sixteenText (values : List Nat) : String :=
  match values with
  | [0, 0, 0, 0, 0, 0xFFFF, x, y] =>
    "::ffff:" ++ octetsText (x / 256) (x % 256) (y / 256) (y % 256)
  | _ =>
    let (start, count) := longestZeros values
    if 1 < count then
      groupsText (values.take start) ++ "::" ++ groupsText (values.drop (start + count))
    else groupsText values

def text (e : Endpoint) : String :=
  match e.host with
  | .octets a b c d => s!"{octetsText a b c d}:{e.socket}"
  | .groups values 0 => s!"[{sixteenText values}]:{e.socket}"
  | .groups values scope => s!"[{sixteenText values}%{scope}]:{e.socket}"

end Endpoint

end RpcGateway.Http
