import Scriptlet.Node
import Scriptlet.Source.Token

/-!
# Expressions as Written

While an expression is read it is kept as it is written, from left to right: names and fields
that are to be assigned, operands with the operators between them, and each operand with the
minus signs before it and the fields and calls after it. A *phrase* is such a row. Grouping
happens when the row is complete: `Phrase.node` groups the tightest operators first, each
group from the left, and then the assignments from the right.

A node that begins with an operand takes the line where the operand begins, the operand's own
parentheses included. A minus sign subtracts its operand from zero, on the sign's line.

## Main definitions

* `Operand`, `Phrase`: an operand, and an expression without its last operand.
* `Operand.node`, `Row.node`, `Phrase.node`: the node of an operand, of operands with
  operators between them, and of a complete expression.
* `Phrase.behindFunction?`: what remains of an expression when the function it begins with is
  taken for a statement of its own.
-/

namespace Scriptlet.Source

/-! ### Operands -/

/-- What an operand begins with, its minus signs apart. -/
inductive Head
  /-- A bare name, which may be assigned. -/
  | name (text : String)
  /-- A literal, or an expression between parentheses. -/
  | node (n : Node)

/-- What may follow the head of an operand. -/
inductive Suffix
  /-- A dot and a field's name. -/
  | field (name : String)
  /-- Arguments between parentheses, and the line of the opening one. -/
  | call (arguments : List Node) (line : Int)

/-- An operand as it is written. -/
structure Operand where
  /-- The lines of the minus signs, the innermost first. -/
  minuses : List Int
  /-- What stands behind the minus signs. -/
  head : Head
  /-- The line where the head begins. -/
  line : Int
  /-- What follows the head, the last first. -/
  suffixes : List Suffix

/-- The node of a head that begins on the given line. -/
def Head.toNode (line : Int) : Head → Node
  | name text => .name text line
  | node n => n

/-- A node extended by suffixes in the order in which they are written. A call of a field is
a call of a method. -/
def extend (line : Int) : Node → List Suffix → Node
  | n, [] => n
  | n, .field name :: .call arguments _ :: rest =>
    extend line (.callMethod n name arguments line) rest
  | n, .field name :: rest => extend line (.field n name line) rest
  | n, .call arguments _ :: rest => extend line (.call n arguments line) rest

/-- Zero minus a node, for a minus sign on the given line. -/
def negation (n : Node) (line : Int) : Node :=
  .operation Operator.minus.symbol [.constant (.integer 0) line, n] line

namespace Operand

/-- The line of the operand's first token. -/
def start (o : Operand) : Int := o.minuses.getLast?.getD o.line

/-- The node of an operand without its minus signs. -/
def bare (o : Operand) : Node := extend o.line (o.head.toNode o.line) o.suffixes.reverse

/-- The node of an operand. -/
def node (o : Operand) : Node := o.minuses.foldl negation o.bare

/-- The operand with one more suffix. -/
def suffixed (o : Operand) (s : Suffix) : Operand := { o with suffixes := s :: o.suffixes }

/-- The operand with one more minus sign, before all others. -/
def negated (o : Operand) (line : Int) : Operand := { o with minuses := o.minuses ++ [line] }

/-- When the operand is a function called with one argument, what is written behind the
function may stand alone: the argument is then an expression between parentheses. -/
def behindFunction? (o : Operand) : Option Operand :=
  match o.suffixes.reverse with
  | .call [argument] line :: rest => some ⟨[], .node argument, line, rest.reverse⟩
  | _ => none

end Operand

/-! ### Assignment -/

/-- What an assignment sets. -/
inductive Target
  /-- A name, on the given line. -/
  | name (text : String) (line : Int)
  /-- A field of an operand without minus signs. -/
  | field (receiver : Operand) (name : String)

/-- The target that an operand is: a bare name, or anything that ends in a field, with no
minus sign before it. -/
def Operand.target? (o : Operand) : Option Target :=
  match o.minuses, o.suffixes, o.head with
  | [], .field name :: rest, _ => some (.field { o with suffixes := rest } name)
  | [], [], .name text => some (.name text o.line)
  | _, _, _ => none

/-- The node that sets a target to the value of a node. -/
def Target.assign (t : Target) (value : Node) : Node :=
  match t with
  | .name text line => .assign text value false line
  | .field receiver key => .assignField receiver.bare key value receiver.line

/-! ### Operators -/

/-- An operator, its line, and the operand behind it. -/
structure Step where
  /-- The operator. -/
  operator : Operator
  /-- The operator's line. -/
  line : Int
  /-- The operand behind it. -/
  operand : Operand

/-- Operands with operators between them, from left to right. -/
structure Row where
  /-- The first operand. -/
  first : Operand
  /-- The operators, each with the operand behind it. -/
  steps : List Step

/-- A node and the line where it begins, its parentheses included. -/
structure Spot where
  /-- The node. -/
  node : Node
  /-- Where it begins. -/
  start : Int

/-- The place of an operand. -/
def Operand.spot (o : Operand) : Spot := ⟨o.node, o.start⟩

/-- The operation of two operands. It begins where the left one does. -/
def Spot.combine (left : Spot) (op : Operator) (right : Spot) : Spot :=
  ⟨.operation op.symbol [left.node, right.node] left.start, left.start⟩

/-- Carries out, from the left, the operators of one tightness. -/
def group (tightness : Tightness) (first : Spot) :
    List (Operator × Spot) → Spot × List (Operator × Spot)
  | [] => (first, [])
  | (op, next) :: rest =>
    if op.tightness = tightness then group tightness (first.combine op next) rest
    else
      let (second, others) := group tightness next rest
      (first, (op, second) :: others)

/-- Carries out all operators, the tightest first. -/
def groupAll (first : Spot) (rest : List (Operator × Spot)) : Spot :=
  let (first, rest) := group .product first rest
  let (first, rest) := group .sum first rest
  let (first, rest) := group .comparison first rest
  (group .equality first rest).1

/-- The node of a row. -/
def Row.node (r : Row) : Node :=
  (groupAll r.first.spot (r.steps.map fun s => (s.operator, s.operand.spot))).node

/-- What remains of a row when the function it begins with is taken away, if that is a row:
the function is called with one argument, or a minus sign follows it. -/
def Row.behindFunction? (r : Row) : Option Row :=
  match r.first.behindFunction?, r.steps with
  | some o, steps => some ⟨o, steps⟩
  | none, ⟨.minus, line, o⟩ :: steps =>
    if r.first.suffixes.isEmpty then some ⟨o.negated line, steps⟩ else none
  | none, _ => none

/-! ### Phrases -/

/-- An operand and the operator behind it, with the operator's line. -/
structure Term where
  /-- The operand. -/
  operand : Operand
  /-- The operator. -/
  operator : Operator
  /-- The operator's line. -/
  line : Int

/-- An expression without its last operand. -/
structure Phrase where
  /-- What is to be assigned, the last first. -/
  targets : List Target
  /-- The operands that have an operator behind them, the last first. -/
  terms : List Term

namespace Phrase

/-- The expression of which nothing is read. -/
def empty : Phrase := ⟨[], []⟩

/-- The phrase with one more operand and the operator behind it. -/
def push (p : Phrase) (t : Term) : Phrase := { p with terms := t :: p.terms }

/-- The phrase in which one more operand is to be assigned. No operator may stand before
it. -/
def assign? (p : Phrase) (o : Operand) : Option Phrase :=
  if p.terms.isEmpty then o.target?.map fun t => { p with targets := t :: p.targets } else none

/-- The operands of a complete expression, its targets apart. -/
def row (p : Phrase) (last : Operand) : Row :=
  p.terms.foldl (fun r t => ⟨t.operand, ⟨t.operator, t.line, r.first⟩ :: r.steps⟩) ⟨last, []⟩

/-- The node that assigns the value of a node to targets, the last target first. -/
def assignAll (targets : List Target) (value : Node) : Node :=
  targets.foldl (fun value t => t.assign value) value

/-- The node of a complete expression. -/
def node (p : Phrase) (last : Operand) : Node :=
  assignAll p.targets (p.row last).node

/-- What remains of a complete expression when the function it begins with is taken away, if
that is an expression. -/
def behindFunction? (p : Phrase) (last : Operand) : Option Node :=
  match p.targets.reverse with
  | [] => (p.row last).behindFunction?.map Row.node
  | .field receiver name :: others =>
    receiver.behindFunction?.map fun o =>
      assignAll (.field o name :: others).reverse (p.row last).node
  | .name _ _ :: _ => none

end Phrase

end Scriptlet.Source
