import Scriptlet.Builtin
import Scriptlet.Eval.Exit
import Scriptlet.Node.Description

/-!
# What Takes Levels

Evaluations go on inside one another, on the stack of a host that has a limit. A *level* is what
counts against that limit: something that the host has begun and not yet ended. The evaluation of a
node takes one, the rule of the node takes some more for what it does itself, and so do calls,
mistakes and texts. Nothing can see how many levels are left, and an evaluation for which there are
too few is cut off.

How many levels something takes is the matter of the host, and it is not the same on any two of
them. A `Stack` says it for one host. The parts of a node are evaluated at least one level below
it, and that is all that is known of a stack: what is shown of evaluations holds on every one.

## Main definitions

* `Role`, `Purpose`: what a node is evaluated for, and what a value is written for.
* `Stack`: the levels that everything takes.
* `Stack.standard`: the stack that is taken unless another one is known.
-/

namespace Scriptlet

/-- What a node is to the evaluation of another one. -/
inductive Role
  /-- A statement of a block. -/
  | statement
  /-- A part whose value the other node needs or has. -/
  | operand
  /-- An argument of a call. -/
  | argument
  /-- The body of the function that is called. -/
  | body
deriving DecidableEq, Repr

/-- What a value is written for. -/
inductive Purpose
  /-- It is called, and is no function. -/
  | callee
  /-- It should be an object. -/
  | receiver
  /-- It is an object without the method that is called. -/
  | method
  /-- It is a condition, and neither one nor zero. -/
  | condition
  /-- It is printed. -/
  | print
  /-- It is noted that it is printed. -/
  | record
deriving DecidableEq, Repr

/-- The levels that everything takes, counted from the evaluation of the node whose rule does it. -/
structure Stack where
  /-- What is between a node and a part of it. -/
  part : Role → Nat
  /-- What a rule takes for its own steps, by the kind of its node. -/
  rule : (kind : String) → Nat
  /-- The making of a mistake. -/
  mistake : Mistake → Nat
  /-- The call of a function that is not built in, until its body begins. -/
  enter : Nat
  /-- The call of an operator on operands, by the fault that it meets. -/
  operator : Operator → Option Fault → Nat
  /-- The comparison of two nodes, in addition to the call of the operator. -/
  compare : Node → Node → Nat
  /-- The call of `print`. -/
  print : Nat
  /-- What is between a rule and the text of a value. -/
  above : Purpose → Nat
  /-- The parts of a text. -/
  text : TextDepth
  /-- Whether calls of `print` are noted. -/
  traced : Bool

namespace Stack

/-- The stack on which calls of `print` are noted or not. -/
def tracing (stack : Stack) (traced : Bool) : Stack := { stack with traced }

/-- What the comparison of two operands takes, if they are nodes. -/
def comparison (stack : Stack) : Operator → List Value → Nat
  | .equal, .node a :: .node b :: _ | .unequal, .node a :: .node b :: _ => stack.compare a b
  | _, _ => 0

/-- What an operator takes that is called with some arguments and has this result. -/
def operation (stack : Stack) (op : Operator) (arguments : List Value)
    (result : Except Fault Value) : Nat :=
  stack.operator op (match result with
    | .ok _ => none
    | .error f => some f) + stack.comparison op arguments

/-! ### The standard stack

Its levels are the frames of one implementation of the host; other implementations take about as
many. -/

/-- What a rule takes on the standard stack. -/
def standardRule : (kind : String) → Nat
  | "Block" | "Literal" => 0
  | "FunCall" | "If" => 1
  | "Return" | "New" => 3
  | "Fun" => 4
  | _ => 2

/-- What an operator takes on the standard stack. -/
def standardOperator : Operator → Option Fault → Nat
  | .less, some _ | .lessEqual, some _ | .greater, some _ | .greaterEqual, some _ => 7
  | .remainder, _ => 7
  | .divide, _ | .equal, _ | .unequal, _ | .less, _ | .lessEqual, _ | .greater, _
  | .greaterEqual, _ => 6
  | .plus, _ | .minus, _ | .times, _ => 5

/-- The levels that everything takes on the standard stack. -/
def standard : Stack where
  part
    | .statement => 0
    | .operand => 1
    | .argument => 3
    | .body => 3
  rule := standardRule
  mistake
    | .notAnObject .. => 4
    | _ => 3
  enter := 6
  operator := standardOperator
  compare a b := 5 * min a.height b.height
  print := 7
  above
    | .callee => 1
    | .receiver => 2
    | .method => 3
    | .condition => 1
    | .print => 6
    | .record => 14
  text :=
    { atom
        | "int" | "str" => 1
        | _ => 2
      node := fun _ => 3
      row := 1
      entry := 1 }
  traced := false

end Stack

end Scriptlet
