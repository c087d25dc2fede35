import RpcGateway.Json.Printer
import RpcGateway.Text.Percent

/-!
The lexical part of reading JSON, one token at a time from the front of the input: blanks, words,
strings, numbers, and values that are skipped unread. Loops take a bound on the length of the input.
-/
namespace RpcGateway.Json
open Number

/-- Why a text was refused: it is not JSON, it ends too early, or it is JSON of another shape. -/
inductive Fault
  | malformed
  | truncated
  | mismatch
  deriving DecidableEq, Repr

/-- What was read, and the input after it. -/
abbrev Reading (α : Type) := Except Fault (α × Bytes)

def isBlank (b : UInt8) : Bool := b = 0x20 || b = 0x0A || b = 0x09 || b = 0x0D

def skipBlank (s : Bytes) : Bytes := s.dropWhile isBlank

/-- The input after an expected word. -/
def word : Bytes → Bytes → Except Fault Bytes
  | [], s => .ok s
  | _ :: _, [] => .error .truncated
  | w :: ws, b :: s => if b = w then word ws s else .error .malformed

/-- Four hexadecimal digits. -/
def hex4 : Bytes → Reading Nat
  | a :: b :: c :: d :: s =>
    match Text.Percent.hexValue? a, Text.Percent.hexValue? b, Text.Percent.hexValue? c,
        Text.Percent.hexValue? d with
    | some a, some b, some c, some d => .ok (((a * 16 + b) * 16 + c) * 16 + d, s)
    | _, _, _, _ => .error .malformed
  | _ => .error .truncated

/-- The byte that a one-letter escape stands for. -/
def shortEscape? (b : UInt8) : Option UInt8 :=
  if b = quote then some quote
  else if b = backslash then some backslash
  else if b = 0x2F then some 0x2F
  else if b = 0x62 then some 0x08
  else if b = 0x66 then some 0x0C
  else if b = 0x6E then some 0x0A
  else if b = 0x72 then some 0x0D
  else if b = 0x74 then some 0x09
  else none

def isHighSurrogate (n : Nat) : Bool := 0xD800 ≤ n && n ≤ 0xDBFF
def isLowSurrogate (n : Nat) : Bool := 0xDC00 ≤ n && n ≤ 0xDFFF

/-- The next byte, which has to be `b`. -/
def expectByte (b : UInt8) : Bytes → Except Fault Bytes
  | [] => .error .truncated
  | c :: s => if c = b then .ok s else .error .malformed

/-- A character given by its UTF-16 units in hexadecimal. Surrogates come in pairs only. -/
def unicodeEscape (s : Bytes) : Except Fault (Bytes × Bytes) := do
  let (n, s) ← hex4 s
  if isLowSurrogate n then .error .malformed
  else if isHighSurrogate n then
    let s ← expectByte backslash s
    let s ← expectByte 0x75 s
    let (m, s) ← hex4 s
    if isLowSurrogate m then
      let c := Char.ofNat (0x10000 + (n - 0xD800) * 0x400 + (m - 0xDC00))
      return (String.utf8EncodeChar c, s)
    else .error .malformed
  else return (String.utf8EncodeChar (Char.ofNat n), s)

/-- What stands after a backslash. -/
def escape : Bytes → Reading Bytes
  | [] => .error .truncated
  | b :: s =>
    if b = 0x75 then unicodeEscape s
    else
      match shortEscape? b with
      | some c => .ok ([c], s)
      | none => .error .malformed

/-- The bytes up to the closing quote, put in front of the reversed bytes before them. -/
def stringBytes : Nat → Bytes → Bytes → Reading Bytes
  | 0, _, _ => .error .truncated
  | _ + 1, _, [] => .error .truncated
  | fuel + 1, acc, b :: s =>
    if b = quote then .ok (acc.reverse, s)
    else if b = backslash then
      match escape s with
      | .ok (bs, s) => stringBytes fuel (bs.reverse ++ acc) s
      | .error e => .error e
    else if b < 0x20 then .error .malformed
    else stringBytes fuel (b :: acc) s

/-- A string after its opening quote. Its bytes have to be UTF-8. -/
def string (bound : Nat) (s : Bytes) : Reading String :=
  match stringBytes (bound + 1) [] s with
  | .ok (bs, s) =>
    match ofUtf8? bs with
    | some t => .ok (t, s)
    | none => .error .malformed
  | .error e => .error e

/-- Longest word of 64 bits. -/
def maxWord : Nat := words64 - 1

/-- Digits taken into a significand as long as it fits a word, and how many were taken. -/
def absorb (significand : Nat) (taken : Nat) : Bytes → Nat × Nat
  | [] => (significand, taken)
  | d :: ds =>
    let next := 10 * significand + digitValue d
    if next ≤ maxWord then absorb next (taken + 1) ds else (significand, taken)

/-- Division by `10 ^ e` in steps of at most `10 ^ 308`. -/
def shrink : Nat → Double → Nat → Double
  | 0, x, _ => x
  | fuel + 1, x, e =>
    if e ≤ 308 then x.div (.pow10 e)
    else if x.isZero then x
    else shrink fuel (x.div (.pow10 308)) (e - 308)

/-- `significand * 10 ^ e`, rounded once for the significand, once for the power and once for the
result, unless it is out of range. -/
def scale (significand : Nat) (e : Int) : Option Double :=
  if e < 0 then some (shrink (e.natAbs / 308 + 1) (.ofNat significand) e.natAbs)
  else if significand = 0 then some .zero
  else if 308 < e then none
  else
    let x := (Double.ofNat significand).mul (.pow10 e.toNat)
    if x.isFinite then some x else none

/-- A number that is not an integer. -/
def scaled (negative : Bool) (significand : Nat) (e : Int) (s : Bytes) : Reading Json :=
  match scale significand e with
  | some x => .ok (.double (if negative then x.neg else x), s)
  | none => .error .malformed

/-- Integers of 64 bits with or without sign stay integers. -/
def whole (negative : Bool) (n : Nat) : Json :=
  if negative then
    if 0 < n ∧ n ≤ half64 then .int (-n) else .double (Double.ofNat n).neg
  else .int n

/-- The exponent after its letter, with the number it ends. -/
def exponent (negative : Bool) (significand : Nat) (start : Int) (s : Bytes) : Reading Json :=
  let (down, s) : Bool × Bytes := match s with
    | 0x2B :: r => (false, r)
    | 0x2D :: r => (true, r)
    | r => (false, r)
  match s with
  | [] => .error .truncated
  | d :: _ =>
    if !isDigit d then .error .malformed
    else
      let e : Nat := ofDigits (s.takeWhile isDigit)
      let rest := s.dropWhile isDigit
      if half32 ≤ e then
        if significand ≠ 0 ∧ !down then .error .malformed
        else .ok (.double (if negative then Double.zero.neg else .zero), rest)
      else scaled negative significand (if down then start - e else start + e) rest

/-- The digits after the point, with the number they end. -/
def fraction (negative : Bool) (significand : Nat) (start : Int) (s : Bytes) : Reading Json :=
  let ds := s.takeWhile isDigit
  let rest := s.dropWhile isDigit
  if ds.isEmpty then .error (if rest.isEmpty then .truncated else .malformed)
  else
    let (significand, taken) := absorb significand 0 ds
    match rest with
    | 0x65 :: r | 0x45 :: r => exponent negative significand (start - taken) r
    | r => scaled negative significand (start - taken) r

/-- A number after its sign. -/
def number (negative : Bool) (s : Bytes) : Reading Json :=
  match s with
  | [] => .error .truncated
  | d :: _ =>
    if !isDigit d then .error .malformed
    else
      let ds := s.takeWhile isDigit
      let rest := s.dropWhile isDigit
      if d = 0x30 ∧ 1 < ds.length then .error .malformed
      else
        let (significand, taken) := absorb 0 0 ds
        let dropped : Nat := ds.length - taken
        match rest with
        | 0x2E :: r => fraction negative significand dropped r
        | 0x65 :: r | 0x45 :: r => exponent negative significand dropped r
        | r => if dropped = 0 then .ok (whole negative significand, r)
          else scaled negative significand dropped r

/-- The brackets that are open around a skipped value. -/
inductive Bracket
  | array
  | object

/-- A skipped string after its opening quote. -/
def skipString : Nat → Bytes → Except Fault Bytes
  | 0, _ => .error .truncated
  | _ + 1, [] => .error .truncated
  | fuel + 1, b :: s =>
    if b = quote then .ok s
    else if b = backslash then
      match s with
      | [] => .error .truncated
      | c :: r =>
        if c = 0x75 then
          match hex4 r with
          | .ok (_, r) => skipString fuel r
          | .error e => .error e
        else if (shortEscape? c).isSome then skipString fuel r
        else .error .malformed
    else if b < 0x20 then .error .malformed
    else skipString fuel s

/-- The digits of a skipped number that have to follow a point or an exponent. -/
def skipDigits (s : Bytes) : Except Fault Bytes :=
  match s with
  | [] => .error .malformed
  | d :: _ => if isDigit d then .ok (s.dropWhile isDigit) else .error .malformed

def skipExponent : Bytes → Except Fault Bytes
  | 0x65 :: 0x2B :: s | 0x45 :: 0x2B :: s | 0x65 :: 0x2D :: s | 0x45 :: 0x2D :: s => skipDigits s
  | 0x65 :: s | 0x45 :: s => skipDigits s
  | s => .ok s

/-- A skipped number after its sign. Its size does not matter. -/
def skipNumber (s : Bytes) : Except Fault Bytes :=
  match s with
  | [] => .error .malformed
  | d :: _ =>
    if !isDigit d then .error .malformed
    else if d = 0x30 ∧ 1 < (s.takeWhile isDigit).length then .error .malformed
    else
      match s.dropWhile isDigit with
      | 0x2E :: r => skipDigits r >>= skipExponent
      | r => skipExponent r

/-- A skipped scalar. -/
def skipScalar (bound : Nat) (b : UInt8) (s : Bytes) : Except Fault Bytes :=
  if b = quote then skipString (bound + 1) s
  else if b = 0x6E then word (nullWord.drop 1) s
  else if b = 0x74 then word (trueWord.drop 1) s
  else if b = 0x66 then word (falseWord.drop 1) s
  else if b = minus then skipNumber s
  else if isDigit b then skipNumber (b :: s)
  else .error .malformed

/-- The name of a skipped member and the colon after it. -/
def skipName (bound : Nat) (s : Bytes) : Except Fault Bytes := do
  match skipBlank s with
  | [] => .error .truncated
  | b :: s =>
    if b = quote then
      let s ← skipString (bound + 1) s
      expectByte colon (skipBlank s)
    else .error .malformed

mutual

/-- The input after a value that is not read, inside the given brackets. -/
def skipValue (bound : Nat) : Nat → List Bracket → Bytes → Except Fault Bytes
  | 0, _, _ => .error .truncated
  | fuel + 1, stack, s =>
    match skipBlank s with
    | [] => .error .truncated
    | b :: r =>
      if b = openBracket then
        match skipBlank r with
        | [] => .error .truncated
        | c :: r => if c = closeBracket then skipAfter bound fuel stack r
          else skipValue bound fuel (.array :: stack) (c :: r)
      else if b = openBrace then
        match skipBlank r with
        | [] => .error .truncated
        | c :: r =>
          if c = closeBrace then skipAfter bound fuel stack r
          else
            match skipName bound (c :: r) with
            | .ok r => skipValue bound fuel (.object :: stack) r
            | .error e => .error e
      else
        match skipScalar bound b r with
        | .ok r => skipAfter bound fuel stack r
        | .error e => .error e

/-- The input after the brackets around a value that was skipped. -/
def skipAfter (bound : Nat) : Nat → List Bracket → Bytes → Except Fault Bytes
  | _, [], s => .ok s
  | 0, _, _ => .error .truncated
  | fuel + 1, .array :: stack, s =>
    match skipBlank s with
    | [] => .error .truncated
    | b :: r =>
      if b = comma then skipValue bound fuel (.array :: stack) r
      else if b = closeBracket then skipAfter bound fuel stack r
      else .error .malformed
  | fuel + 1, .object :: stack, s =>
    match skipBlank s with
    | [] => .error .truncated
    | b :: r =>
      if b = comma then
        match skipName bound r with
        | .ok r => skipValue bound fuel (.object :: stack) r
        | .error e => .error e
      else if b = closeBrace then skipAfter bound fuel stack r
      else .error .malformed

end

/-- The input after a value of any shape and depth. -/
def skip (bound : Nat) (s : Bytes) : Except Fault Bytes := skipValue bound (bound + 1) [] s

end RpcGateway.Json
