import RpcGateway.Envelope.Basic
import RpcGateway.Json.Reader

/-!
Reading envelopes. Known members have their types, and none may stand twice; unknown ones are
skipped. In place of an object an envelope or an error may be an array of its members in order.
-/
namespace RpcGateway
open Json

/-- A free value, absent when it is `null`. -/
def optionalValue (bound depth : Nat) : Bytes → Reading (Option Json) :=
  optional (value bound depth)

/-- Reads a known member after its name, unless it stood before. -/
def once {α σ : Type} (seen : Option α) (read : Bytes → Reading α) (store : α → σ) (s : Bytes) :
    Reading σ :=
  match seen with
  | some _ => .error .mismatch
  | none =>
    match afterColon s with
    | .error e => .error e
    | .ok s => (read s).map fun (x, s) => (store x, s)

/-- Skips an unknown member after its name. -/
def skipMember {σ : Type} (bound : Nat) (state : σ) (s : Bytes) : Reading σ :=
  match afterColon s with
  | .error e => .error e
  | .ok s => (skip bound s).map (state, ·)

/-- The next element of an array that stands for a record, or a default where the array ends. -/
def positional {α : Type} (read : Bytes → Reading α) (first : Bool) (s : Bytes) :
    Reading (Option α) :=
  match nextItem first s with
  | .error e => .error e
  | .ok (false, s) => .ok (none, s)
  | .ok (true, s) => (read s).map fun (x, s) => (some x, s)

/-- A record written as an object or as an array of its members. -/
def record {α : Type} (bound depth : Nat) (array object : Nat → Bytes → Reading α) (s : Bytes) :
    Reading α :=
  match skipBlank s with
  | [] => .error .truncated
  | b :: r =>
    if b = openBracket ∨ b = openBrace then
      match depth with
      | 0 => .error .malformed
      | depth + 1 => if b = openBracket then array depth r else object depth r
    else .error (unexpected bound s)

namespace RpcError

/-- The members of an error that were read so far. -/
structure Draft where
  code : Option Int32 := none
  message : Option String := none
  data : Option (Option Json) := none

def Draft.step (bound depth : Nat) (d : Draft) (name : String) (s : Bytes) : Reading Draft :=
  if name = "code" then once d.code (int32Value bound) (fun x => { d with code := some x }) s
  else if name = "message" then
    once d.message (stringValue bound) (fun x => { d with message := some x }) s
  else if name = "data" then
    once d.data (optionalValue bound depth) (fun x => { d with data := some x }) s
  else skipMember bound d s

/-- The error, unless its code or its message is missing. -/
def Draft.finish (d : Draft) : Except Fault RpcError :=
  match d.code, d.message with
  | some code, some message => .ok ⟨code, message, d.data.join⟩
  | _, _ => .error .mismatch

def ofObject (bound depth : Nat) (s : Bytes) : Reading RpcError :=
  match members bound (Draft.step bound depth) (bound + 1) true {} s with
  | .error e => .error e
  | .ok (d, s) => d.finish.map (·, s)

def ofArray (bound depth : Nat) (s : Bytes) : Except Fault (RpcError × Bytes) := do
  let (code, s) ← positional (int32Value bound) true s
  let some code := code | .error .mismatch
  let (message, s) ← positional (stringValue bound) false s
  let some message := message | .error .mismatch
  let (data, s) ← positional (optionalValue bound depth) false s
  let s ← endItems s
  return (⟨code, message, data.join⟩, s)

def read (bound depth : Nat) (s : Bytes) : Reading RpcError :=
  record bound depth (ofArray bound) (ofObject bound) s

end RpcError

namespace Envelope

/-- The members of an envelope that were read so far. -/
structure Draft where
  version : Option String := none
  id : Option (Option Json) := none
  method : Option String := none
  params : Option (Option Json) := none
  result : Option (Option Json) := none
  error : Option (Option RpcError) := none

/-- Reads one member after its name. -/
def Draft.step (bound depth : Nat) (d : Draft) (name : String) (s : Bytes) : Reading Draft :=
  if name = "jsonrpc" then
    once d.version (stringValue bound) (fun x => { d with version := some x }) s
  else if name = "id" then
    once d.id (optionalValue bound depth) (fun x => { d with id := some x }) s
  else if name = "method" then
    once d.method (stringValue bound) (fun x => { d with method := some x }) s
  else if name = "params" then
    once d.params (optionalValue bound depth) (fun x => { d with params := some x }) s
  else if name = "result" then
    once d.result (optionalValue bound depth) (fun x => { d with result := some x }) s
  else if name = "error" then
    once d.error (optional (RpcError.read bound depth)) (fun x => { d with error := some x }) s
  else skipMember bound d s

/-- The envelope; members that are missing are absent or empty. -/
def Draft.finish (d : Draft) : Envelope where
  version := d.version.getD ""
  id := d.id.join
  method := d.method.getD ""
  params := d.params.join
  result := d.result.join
  error := d.error.join

def ofObject (bound depth : Nat) (s : Bytes) : Reading Envelope :=
  (members bound (Draft.step bound depth) (bound + 1) true {} s).map fun (d, s) => (d.finish, s)

def ofArray (bound depth : Nat) (s : Bytes) : Except Fault (Envelope × Bytes) := do
  let (version, s) ← positional (stringValue bound) true s
  let (id, s) ← positional (optionalValue bound depth) false s
  let (method, s) ← positional (stringValue bound) false s
  let (params, s) ← positional (optionalValue bound depth) false s
  let (result, s) ← positional (optionalValue bound depth) false s
  let (error, s) ← positional (optional (RpcError.read bound depth)) false s
  let s ← endItems s
  return (Draft.finish ⟨version, id, method, params, result, error⟩, s)

/-- An envelope in which `depth` arrays and objects may be open, its own included. -/
def read (bound depth : Nat) (s : Bytes) : Reading Envelope :=
  record bound depth (ofArray bound) (ofObject bound) s

/-- An array of envelopes. -/
def readBatch (bound : Nat) (s : Bytes) : Reading (List Envelope) :=
  match skipBlank s with
  | [] => .error .truncated
  | b :: r =>
    if b = openBracket then items (read bound (maxDepth - 1)) (bound + 1) true [] r
    else .error (unexpected bound s)

end Envelope

end RpcGateway
