import Scriptlet.Operator

/-!
# Built-in Functions

The functions that every fresh global frame holds: `print`, and one for each operator, bound
to the operator's symbol.
-/

namespace Scriptlet

/-- A function that is not written as a program. -/
inductive Builtin
  /-- Writes its arguments on a line. -/
  | print
  /-- Computes an operator from its first two arguments. -/
  | operator (op : Operator)
deriving DecidableEq, Repr

namespace Builtin

/-- The name a built-in function is bound to. -/
def name : Builtin → String
  | print => "print"
  | operator op => op.symbol

/-- The built-in functions in the order in which a global frame lists them. -/
def all : List Builtin :=
  [print, operator .plus, operator .minus, operator .divide, operator .times,
    operator .remainder, operator .equal, operator .unequal, operator .less,
    operator .lessEqual, operator .greater, operator .greaterEqual]

/-- Every built-in function is listed. -/
theorem mem_all (b : Builtin) : b ∈ all := by
  rcases b with _ | op
  · decide
  · cases op <;> decide

/-- No two built-in functions share a name. -/
theorem nodup_names : (all.map name).Nodup := by decide

end Builtin

end Scriptlet
