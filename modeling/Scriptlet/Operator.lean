/-!
# Operators

The eleven binary operators, their spelling and how tightly they bind. Every operator
associates to the left, and `-` alone may also stand before an operand.

An operator is at once a token of the source and the name of the function that computes it:
`a + b` calls whatever `+` is bound to, with two arguments.
-/

namespace Scriptlet

/-- A binary operator. -/
inductive Operator
  | equal
  | unequal
  | lessEqual
  | greaterEqual
  | less
  | greater
  | plus
  | minus
  | times
  | divide
  | remainder
deriving DecidableEq, Repr

/-- How tightly an operator binds. -/
inductive Tightness
  | equality
  | comparison
  | sum
  | product
deriving DecidableEq, Repr

namespace Operator

/-- The operator's spelling. -/
def symbol : Operator → String
  | equal => "=="
  | unequal => "!="
  | lessEqual => "<="
  | greaterEqual => ">="
  | less => "<"
  | greater => ">"
  | plus => "+"
  | minus => "-"
  | times => "*"
  | divide => "/"
  | remainder => "%"

/-- The group of equally tight operators that an operator belongs to. -/
def tightness : Operator → Tightness
  | equal | unequal => .equality
  | lessEqual | greaterEqual | less | greater => .comparison
  | plus | minus => .sum
  | times | divide | remainder => .product

/-- Different operators are spelled differently. -/
theorem symbol_inj {o p : Operator} : o.symbol = p.symbol ↔ o = p := by
  cases o <;> cases p <;> decide

end Operator

end Scriptlet
