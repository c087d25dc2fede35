import RpcGateway.Bytes

/-!
Base 64. Encoding uses the standard alphabet with padding. Decoding reads groups of four symbols;
only the last group may be short or padded, and it holds at least two symbols.
-/
namespace RpcGateway.Text.Base64

/-- The two symbols in which the standard and the URL-safe alphabet differ. -/
structure Alphabet where
  symbol62 : UInt8
  symbol63 : UInt8

def standard : Alphabet := ⟨ascii '+', ascii '/'⟩
def urlSafe : Alphabet := ⟨ascii '-', ascii '_'⟩

def Alphabet.symbol (a : Alphabet) (v : Nat) : UInt8 :=
  if v < 26 then (0x41 + v).toUInt8
  else if v < 52 then (0x61 + (v - 26)).toUInt8
  else if v < 62 then (0x30 + (v - 52)).toUInt8
  else if v = 62 then a.symbol62
  else a.symbol63

def Alphabet.value? (a : Alphabet) (s : UInt8) : Option Nat :=
  if 0x41 ≤ s && s ≤ 0x5A then some (s.toNat - 0x41)
  else if 0x61 ≤ s && s ≤ 0x7A then some (s.toNat - 0x61 + 26)
  else if isDigit s then some (digitValue s + 52)
  else if s = a.symbol62 then some 62
  else if s = a.symbol63 then some 63
  else none

def pad : UInt8 := ascii '='

/-- The padded standard encoding. -/
def encode : Bytes → Bytes
  | [] => []
  | [x] =>
    let n := x.toNat * 16
    [standard.symbol (n / 64), standard.symbol (n % 64), pad, pad]
  | [x, y] =>
    let n := (x.toNat * 256 + y.toNat) * 4
    [standard.symbol (n / 4096), standard.symbol (n / 64 % 64), standard.symbol (n % 64), pad]
  | x :: y :: z :: rest =>
    let n := (x.toNat * 256 + y.toNat) * 256 + z.toNat
    standard.symbol (n / 262144) :: standard.symbol (n / 4096 % 64) ::
      standard.symbol (n / 64 % 64) :: standard.symbol (n % 64) :: encode rest

/-- The bytes of a group of two to four symbols. Bits that fill no byte are dropped. -/
def group (vs : List Nat) : Option Bytes :=
  match vs with
  | [p, q] => some [((p * 64 + q) / 16).toUInt8]
  | [p, q, r] =>
    let n := (p * 64 + q) * 64 + r
    some [(n / 1024).toUInt8, (n / 4).toUInt8]
  | [p, q, r, s] =>
    let n := ((p * 64 + q) * 64 + r) * 64 + s
    some [(n / 65536).toUInt8, (n / 256).toUInt8, n.toUInt8]
  | _ => none

/-- The last group: its symbols, then padding up to four places. -/
def lastGroup (a : Alphabet) (s : Bytes) : Option Bytes := do
  let symbols := s.takeWhile (· ≠ pad)
  guard ((s.drop symbols.length).all (· = pad))
  group (← symbols.mapM a.value?)

/-- The bytes that a text encodes in one alphabet. -/
def decodeWith (a : Alphabet) : Bytes → Option Bytes
  | [] => some []
  | p :: q :: r :: s :: t :: rest => do
    let first ← group (← [p, q, r, s].mapM a.value?)
    return first ++ (← decodeWith a (t :: rest))
  | s => lastGroup a s

/-- The bytes that a text encodes in either alphabet. -/
def decode (s : Bytes) : Option Bytes :=
  (decodeWith standard s).orElse fun _ => decodeWith urlSafe s

end RpcGateway.Text.Base64
