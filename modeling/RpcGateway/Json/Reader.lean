import RpcGateway.Json.Scan

/-!
Reading JSON in one pass from the front, up to the first fault. Arrays and objects nest to a given
depth. Loops over elements and members are shared with readers of typed values.
-/
namespace RpcGateway.Json

/-- How many arrays and objects may be open at once. -/
def maxDepth : Nat := 127

/-- Whether another element starts at the input that is returned, or the array ends there. -/
def nextItem (first : Bool) (s : Bytes) : Except Fault (Bool × Bytes) :=
  match skipBlank s with
  | [] => .error .truncated
  | b :: r =>
    if b = closeBracket then .ok (false, b :: r)
    else if first then .ok (true, b :: r)
    else if b = comma then
      match skipBlank r with
      | [] => .error .truncated
      | c :: r => if c = closeBracket then .error .malformed else .ok (true, c :: r)
    else .error .malformed

/-- The input after the bracket that ends an array. -/
def endItems (s : Bytes) : Except Fault Bytes :=
  match skipBlank s with
  | [] => .error .truncated
  | b :: r => if b = closeBracket then .ok r else .error .malformed

/-- The elements of an array after its opening bracket, behind those already read. -/
def items {α : Type} (element : Bytes → Reading α) : Nat → Bool → List α → Bytes → Reading (List α)
  | 0, _, _, _ => .error .truncated
  | fuel + 1, first, before, s =>
    match nextItem first s with
    | .error e => .error e
    | .ok (false, s) => (endItems s).map (before.reverse, ·)
    | .ok (true, s) =>
      match element s with
      | .error e => .error e
      | .ok (x, s) => items element fuel false (x :: before) s

/-- The name of the next member, or none at the brace that ends the object. -/
def nextName (bound : Nat) (first : Bool) (s : Bytes) : Reading (Option String) :=
  match skipBlank s with
  | [] => .error .truncated
  | b :: r =>
    if b = closeBrace then .ok (none, r)
    else if first then
      if b = quote then (string bound r).map fun (k, r) => (some k, r) else .error .malformed
    else if b = comma then
      match skipBlank r with
      | [] => .error .truncated
      | c :: r =>
        if c = quote then (string bound r).map fun (k, r) => (some k, r) else .error .malformed
    else .error .malformed

/-- The members of an object after its opening brace. `step` sees each name as soon as it is read,
and reads on from the colon. -/
def members {σ : Type} (bound : Nat) (step : σ → String → Bytes → Reading σ) :
    Nat → Bool → σ → Bytes → Reading σ
  | 0, _, _, _ => .error .truncated
  | fuel + 1, first, state, s =>
    match nextName bound first s with
    | .error e => .error e
    | .ok (none, s) => .ok (state, s)
    | .ok (some name, s) =>
      match step state name s with
      | .error e => .error e
      | .ok (state, s) => members bound step fuel false state s

/-- The input after the colon of a member. -/
def afterColon (s : Bytes) : Except Fault Bytes := expectByte colon (skipBlank s)

/-- A value whose arrays and objects are left to two readers, which start after the bracket. -/
def valueWith (bound : Nat) (array object : Bytes → Reading Json) (s : Bytes) : Reading Json :=
  match skipBlank s with
  | [] => .error .truncated
  | b :: r =>
    if b = quote then (string bound r).map fun (t, r) => (.str t, r)
    else if b = openBrace then object r
    else if b = openBracket then array r
    else if b = minus then number true r
    else if isDigit b then number false (b :: r)
    else if b = 0x6E then (word (nullWord.drop 1) r).map (.null, ·)
    else if b = 0x74 then (word (trueWord.drop 1) r).map (.bool true, ·)
    else if b = 0x66 then (word (falseWord.drop 1) r).map (.bool false, ·)
    else .error .malformed

/-- One member of a free object. Of equal names the last counts. -/
def freeMember (element : Bytes → Reading Json) (before : List (String × Json)) (name : String)
    (s : Bytes) : Reading (List (String × Json)) :=
  match afterColon s with
  | .error e => .error e
  | .ok s => (element s).map fun (v, s) => (putMember name v before, s)

/-- A value in which `depth` more arrays and objects may be open. -/
def value (bound : Nat) : Nat → Bytes → Reading Json
  | 0, s => valueWith bound (fun _ => .error .malformed) (fun _ => .error .malformed) s
  | depth + 1, s =>
    valueWith bound
      (fun r => (items (value bound depth) (bound + 1) true [] r).map fun (vs, r) => (.arr vs, r))
      (fun r => (members bound (freeMember (value bound depth)) (bound + 1) true [] r).map
        fun (ms, r) => (.obj ms, r)) s

/-- Reads the whole input; only blanks may follow what `read` takes. -/
def entire {α : Type} (read : Bytes → Reading α) (s : Bytes) : Except Fault α :=
  match read s with
  | .error e => .error e
  | .ok (x, rest) => if (skipBlank rest).isEmpty then .ok x else .error .malformed

/-- The value that a text denotes. -/
def parse (s : Bytes) : Except Fault Json := entire (value s.length maxDepth) s

/-- The fault of finding another kind of value than the wanted one. Scalars are read before it
shows; of an array or object the bracket is enough. -/
def unexpected (bound : Nat) (s : Bytes) : Fault :=
  match valueWith bound (fun _ => .error .mismatch) (fun _ => .error .mismatch) s with
  | .error e => e
  | .ok _ => .mismatch

/-- A string in a place where nothing else may stand. -/
def stringValue (bound : Nat) (s : Bytes) : Reading String :=
  match skipBlank s with
  | [] => .error .truncated
  | b :: r => if b = quote then string bound r else .error (unexpected bound s)

/-- An integer of 32 bits in a place where nothing else may stand. -/
def int32Value (bound : Nat) (s : Bytes) : Reading Int32 :=
  match valueWith bound (fun _ => .error .mismatch) (fun _ => .error .mismatch) s with
  | .error e => .error e
  | .ok (.int i, r) =>
    if -Number.half32 ≤ i ∧ i < Number.half32 then .ok (Int32.ofInt i, r) else .error .mismatch
  | .ok _ => .error .mismatch

/-- A value where `null` means that there is none. -/
def optional {α : Type} (read : Bytes → Reading α) (s : Bytes) : Reading (Option α) :=
  match skipBlank s with
  | [] => .error .truncated
  | b :: r =>
    if b = 0x6E then (word (nullWord.drop 1) r).map (none, ·)
    else (read (b :: r)).map fun (x, r) => (some x, r)

end RpcGateway.Json
