import Mathlib.Algebra.Order.Ring.Int
import TelemetryTestbed.WebSocket.Frame

/-!
# The arithmetic of `json_find_int`

`json_find_int` once more, with the types of its variables: an operation on a `long`
or the conversion to `int` has no result where the type does not hold it, and a
result that is missing is missing to the end.

The digits are added up in a `long`, and left when they pass 1000000; the sign is applied then
and the result converted. Other parts of the model use the function without the types
(`jsonFindInt`), and the laws show that the two agree.
-/

namespace TelemetryTestbed.WebSocket

open TelemetryTestbed.Lib

/-- A `long`. -/
def long (x : Int) : Option Int := if -2 ^ 63 ≤ x ∧ x < 2 ^ 63 then some x else none

/-- An `int`. -/
def int (x : Int) : Option Int := if -2 ^ 31 ≤ x ∧ x < 2 ^ 31 then some x else none

/-- The digit loop of `json_find_int` on a `long v`. -/
def digitLoopLong : Int → Bytes → Option Int
  | v, [] => some v
  | v, b :: rest =>
    if isdigit b then
      (long (v * 10)).bind fun v => (int (b.toNat - 48)).bind fun d =>
        (long (v + d)).bind fun v => if 1000000 < v then some v else digitLoopLong v rest
    else some v

/-- `json_find_int` in the types it computes in. -/
def jsonFindIntTyped (json key : Bytes) (defv : Int) : Option Int :=
  match (strstr json key).bind fun p => strchr p 58 with
  | none => some defv
  | some p =>
    let p := (p.drop 1).dropWhile isspace
    let (sign, p) := if p.head? = some 45 then ((-1 : Int), p.drop 1) else (1, p)
    if (p.head?.map isdigit).getD false then
      (digitLoopLong 0 p).bind fun v => (long (v * sign)).bind int
    else some defv

/-- The key `client_thread` looks for. -/
def lastKey : Bytes := ascii "\"last\""

end TelemetryTestbed.WebSocket
