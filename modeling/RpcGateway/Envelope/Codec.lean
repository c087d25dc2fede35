import RpcGateway.Envelope.Printer
import RpcGateway.Envelope.Reader
import RpcGateway.Http.Message

/-!
Request bodies as envelopes. A body is read up to a cap, and its text is one envelope or a batch.
The cap counts bytes, however the body is cut into chunks.
-/
namespace RpcGateway
open Json Http

/-- Cap on request bodies where none is given: 5 MiB. -/
def defaultMaxBodyBytes : Nat := 5 * 1024 * 1024

/-- Why a body is not one envelope. -/
inductive BodyError
  | tooLarge (limit : Nat)
  | broken (cause : String)
  | unreadable (fault : Fault)
  | batchNotSupported
  deriving DecidableEq, Repr

def Json.Fault.message : Fault → String
  | .malformed => "the text is not JSON"
  | .truncated => "the text ends inside a JSON value"
  | .mismatch => "the JSON text is not an envelope"

def BodyError.message : BodyError → String
  | tooLarge limit => s!"content length too large (>{limit})"
  | broken cause => s!"failed to read request body: {cause}"
  | unreadable fault => fault.message
  | batchNotSupported => "batch request not supported"

/-- All chunks together, unless one of them exceeds the room that the chunks before it left. -/
def collectWithin : Nat → List Bytes → Option Bytes
  | _, [] => some []
  | room, chunk :: rest =>
    if room < chunk.length then none
    else (collectWithin (room - chunk.length) rest).map (chunk ++ ·)

theorem collectWithin_eq (room : Nat) (chunks : List Bytes) :
    collectWithin room chunks =
      if room < chunks.flatten.length then none else some chunks.flatten := by
  induction chunks generalizing room with
  | nil => simp [collectWithin]
  | cons chunk rest ih =>
    simp only [collectWithin, ih, List.flatten_cons, List.length_append]
    by_cases h : room < chunk.length
    · rw [if_pos h, if_pos (by omega)]
    · rw [if_neg h]
      by_cases h' : room - chunk.length < rest.flatten.length
      · rw [if_pos h', if_pos (by omega)]; rfl
      · rw [if_neg h', if_neg (by omega)]; rfl

/-- Reads a body to its end. The cap is noticed before a read error after the last chunk. -/
def Http.Body.read (limit : Nat) (body : Body) : Except BodyError Bytes :=
  match collectWithin limit body.chunks, body.fault with
  | none, _ => .error (.tooLarge limit)
  | some _, some cause => .error (.broken cause)
  | some bytes, none => .ok bytes

/-- What a body holds. -/
inductive Incoming
  | single (envelope : Envelope)
  | batch (envelopes : List Envelope)
  deriving Repr, BEq

/-- Blanks before the bracket of a batch; the form feed is none of JSON's. -/
def isBatchBlank (b : UInt8) : Bool := isBlank b || b = 0x0C

/-- Whether a text begins with the bracket of an array. -/
def beginsArray (s : Bytes) : Bool := (s.dropWhile isBatchBlank).head? == some openBracket

/-- The envelope that a text denotes, in either form. -/
def Envelope.parse (s : Bytes) : Except Fault Envelope := entire (Envelope.read s.length maxDepth) s

/-- Reads a text that begins with a bracket as a batch and any other as one envelope. -/
def Incoming.parse (s : Bytes) : Except Fault Incoming :=
  if beginsArray s then (entire (Envelope.readBatch s.length) s).map .batch
  else (Envelope.parse s).map .single

/-- The one envelope that a text holds; batches are refused. -/
def Envelope.ofBody (s : Bytes) : Except BodyError Envelope :=
  match Incoming.parse s with
  | .error fault => .error (.unreadable fault)
  | .ok (.batch _) => .error .batchNotSupported
  | .ok (.single envelope) => .ok envelope

end RpcGateway
