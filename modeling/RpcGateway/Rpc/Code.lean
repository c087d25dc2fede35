/-!
RPC status codes, their numbers and the HTTP status that each maps to.
-/
namespace RpcGateway.Rpc

inductive Code
  | ok | cancelled | unknown | invalidArgument | deadlineExceeded | notFound | alreadyExists
  | permissionDenied | resourceExhausted | failedPrecondition | aborted | outOfRange
  | unimplemented | internal | unavailable | dataLoss | unauthenticated
  deriving DecidableEq, Repr, Inhabited

namespace Code

/-- All codes in the order of their numbers. -/
def all : List Code :=
  [ok, cancelled, unknown, invalidArgument, deadlineExceeded, notFound, alreadyExists,
    permissionDenied, resourceExhausted, failedPrecondition, aborted, outOfRange, unimplemented,
    internal, unavailable, dataLoss, unauthenticated]

def number : Code → Int32
  | ok => 0 | cancelled => 1 | unknown => 2 | invalidArgument => 3 | deadlineExceeded => 4
  | notFound => 5 | alreadyExists => 6 | permissionDenied => 7 | resourceExhausted => 8
  | failedPrecondition => 9 | aborted => 10 | outOfRange => 11 | unimplemented => 12
  | internal => 13 | unavailable => 14 | dataLoss => 15 | unauthenticated => 16

/-- The code of a number; any number without a code of its own is unknown. -/
def ofInt (n : Int) : Code := if n < 0 then unknown else all.getD n.toNat unknown

def httpStatus : Code → Nat
  | ok => 200
  | cancelled => 499
  | unknown => 500
  | invalidArgument => 400
  | deadlineExceeded => 504
  | notFound => 404
  | alreadyExists => 409
  | permissionDenied => 403
  | resourceExhausted => 429
  | failedPrecondition => 400
  | aborted => 409
  | outOfRange => 400
  | unimplemented => 501
  | internal => 500
  | unavailable => 503
  | dataLoss => 500
  | unauthenticated => 401

end Code

end RpcGateway.Rpc
