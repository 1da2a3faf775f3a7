import Scriptlet.Node
import Scriptlet.Operator
import Scriptlet.Text.Numeral
import Scriptlet.Text.Position

/-!
# Ways to Leave an Evaluation

An evaluation that does not answer a value leaves early, for one of four reasons: a `return`
looks for the call it ends; the script made a *mistake*, which is reported with the line it
was made on; an operation met a *fault*, which has no line; or calls and expressions are
nested deeper than the evaluation may go.
-/

namespace Scriptlet

/-- What a script can do wrong. Values are kept as they are displayed at that moment. -/
inductive Mistake
  /-- A declared name has a value already. -/
  | alreadyDefined (name : String)
  /-- What is called is not a function. -/
  | notAFunction (shown : String)
  /-- An object is needed, for the given purpose. -/
  | notAnObject (shown : String) (purpose : String)
  /-- An object has no field of a method's name. -/
  | noMethod (shown : String) (name : String)
  /-- What a method's name stands for is not a function. -/
  | notAMethod (name : String)
  /-- A function is given too many or too few arguments. -/
  | argumentCount (function : String) (expected given : Nat)
  /-- A condition is neither one nor zero. -/
  | notABoolean (shown : String)
  /-- A `return` is in no function. -/
  | strayReturn
deriving DecidableEq, Repr

/-- A mistake in words. -/
def Mistake.message : Mistake → String
  | alreadyDefined name => name ++ " already defined"
  | notAFunction shown => "type error: " ++ shown ++ " is not a function"
  | notAnObject shown purpose => shown ++ " is not an object (" ++ purpose ++ ")"
  | noMethod shown name => shown ++ " doesn't have a method called " ++ name
  | notAMethod name => name ++ " is not a method"
  | argumentCount function expected given =>
    "invalid number of arguments: " ++ function ++ " expects " ++ toString expected ++
      "; got " ++ toString given
  | notABoolean shown => "invalid boolean value " ++ shown
  | strayReturn => "return outside of a function"

/-- Why an operation cannot be carried out. -/
inductive Fault
  /-- Arithmetic is done on integers only. -/
  | notAnInteger (op : Operator) (typeName : String)
  /-- Two integers or two strings have an order, and nothing else. -/
  | notOrdered (op : Operator) (leftType rightType : String)
  /-- Division needs a magnitude, which only integers have. -/
  | noMagnitude (typeName : String)
  /-- A divisor is zero. -/
  | zeroDivisor
  /-- An operator has fewer than two operands. -/
  | missingOperand
  /-- An integer has too many digits to be written. -/
  | oversizedNumeral
deriving DecidableEq, Repr

/-- A fault in words. -/
def Fault.message : Fault → String
  | notAnInteger op typeName =>
    "operator " ++ op.symbol ++ " expects integers; got " ++ typeName
  | notOrdered op leftType rightType =>
    "'" ++ op.symbol ++ "' not supported between instances of '" ++ leftType ++ "' and '" ++
      rightType ++ "'"
  | noMagnitude typeName => "bad operand type for abs(): '" ++ typeName ++ "'"
  | zeroDivisor => "integer division or modulo by zero"
  | missingOperand => "list index out of range"
  | oversizedNumeral => Text.oversizeReport none

/-- How an evaluation ends without a value. -/
inductive Exit
  /-- A `return` with its value, on the way to the call it ends. -/
  | returned (value : Value)
  /-- A mistake, and its line where known. -/
  | mistake (m : Mistake) (line : Option Int)
  /-- A fault. -/
  | fault (f : Fault)
  /-- The evaluation is nested too deeply. -/
  | tooDeep

/-- A mistake in words, with its line. -/
def Mistake.text (m : Mistake) (line : Option Int) : String :=
  Text.located m.message line none

end Scriptlet
