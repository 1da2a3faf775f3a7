import Scriptlet.Eval.Exit
import Scriptlet.Node.Equality

/-!
# The Operators' Meaning

Arithmetic is exact. Division rounds toward zero, and a remainder has the sign of the
dividend. Any two values can be compared for equality (`Value.same`); two integers or two
strings also have an order, that of strings going by code points. A truth value is the
integer one or zero.
-/

namespace Scriptlet

namespace Value

/-- The truth value of a condition. -/
def ofBool (b : Bool) : Value := .integer (if b then 1 else 0)

/-- The integers that two values are. Only integers have a magnitude, and the first value that has
none is at fault. -/
def magnitudes (a b : Value) : Except Fault (Int × Int) :=
  match a, b with
  | .integer m, .integer n => .ok (m, n)
  | .integer _, b => .error (.noMagnitude b.typeName)
  | a, _ => .error (.noMagnitude a.typeName)

/-- The quotient of two integers, rounded down. -/
def floorDivide (m n : Int) : Except Fault Int :=
  if n = 0 then .error .zeroDivisor else .ok (m.fdiv n)

/-- The quotient of two integers, rounded toward zero: that of their magnitudes, with a sign if just
one of them is negative. -/
def truncDivide (m n : Int) : Except Fault Int := do
  let quotient ← floorDivide m.natAbs n.natAbs
  return if m < 0 ↔ n < 0 then quotient else -quotient

/-- The quotient of two values, rounded toward zero. -/
def quotient (a b : Value) : Except Fault Value := do
  let (m, n) ← magnitudes a b
  return .integer (← truncDivide m n)

/-- What the quotient leaves of the first value. -/
def remainder (a b : Value) : Except Fault Value := do
  let (m, n) ← magnitudes a b
  return .integer (m - n * (← truncDivide m n))

end Value

namespace Operator

/-- The integers that two values are; the first value that is none is at fault. -/
def integers (op : Operator) : Value → Value → Except Fault (Int × Int)
  | .integer m, .integer n => .ok (m, n)
  | .integer _, b => .error (.notAnInteger op b.typeName)
  | a, _ => .error (.notAnInteger op a.typeName)

/-- The order of two values. -/
def order (op : Operator) : Value → Value → Except Fault Ordering
  | .integer m, .integer n => .ok (compare m n)
  | .string s, .string t => .ok (compare s t)
  | a, b => .error (.notOrdered op a.typeName b.typeName)

/-- An operator applied to two values. -/
def apply (op : Operator) (a b : Value) : Except Fault Value :=
  match op with
  | plus => do let (m, n) ← op.integers a b; return .integer (m + n)
  | minus => do let (m, n) ← op.integers a b; return .integer (m - n)
  | times => do let (m, n) ← op.integers a b; return .integer (m * n)
  | divide => do
    let (m, n) ← op.integers a b
    Value.quotient (.integer m) (.integer n)
  | remainder => do
    let (m, n) ← op.integers a b
    Value.remainder (.integer m) (.integer n)
  | equal => return .ofBool (a.same b)
  | unequal => return .ofBool (!a.same b)
  | less => do return .ofBool (← op.order a b).isLT
  | lessEqual => do return .ofBool (← op.order a b).isLE
  | greater => do return .ofBool (← op.order a b).isGT
  | greaterEqual => do return .ofBool (← op.order a b).isGE

/-- An operator applied to the arguments of a call: it takes the first two. -/
def applyTo (op : Operator) : List Value → Except Fault Value
  | a :: b :: _ => op.apply a b
  | _ => .error .missingOperand

end Operator

end Scriptlet
