/-!
# Values and Program Nodes

A program is a tree of *nodes*, and running one computes *values*. The two types are defined
together: a literal node holds a value, and a node is itself a value, since assigning to a
field yields the node of the receiver.

Objects live in a store (`Scriptlet.Store`); a value only refers to one. Every node carries
the line of the source it was read from, zero where there is none.

A node need not come from a source. One that is made by hand may carry any line, and its
literals may hold objects and nodes. Two literals that hold the same object are told apart by
their serial numbers, so a node that contains such a literal is told apart from its copies.
-/

namespace Scriptlet

/-- The place of an object in the store. -/
structure Ref where
  /-- The number of objects that were made before it. -/
  index : Nat
deriving DecidableEq, Repr

mutual

/-- What an expression can evaluate to. -/
inductive Value
  /-- The value of everything that has no other. -/
  | undefined
  /-- An integer of any size. -/
  | integer (n : Int)
  /-- A string of code points. -/
  | string (s : String)
  /-- An object, a function or an environment frame of the store. -/
  | object (ref : Ref)
  /-- A part of a program. -/
  | node (n : Node)

/-- A part of a program. -/
inductive Node
  /-- Statements, run in order. -/
  | block (statements : List Node) (line : Int)
  /-- A value that stands for itself. The serial number, zero in a program that was read, is
  no part of what the literal says. -/
  | literal (value : Value) (serial : Nat) (line : Int)
  /-- A call of a function. An operator is a call of the function bound to its symbol. -/
  | call (callee : Node) (arguments : List Node) (line : Int)
  /-- A name, read. -/
  | name (name : String) (line : Int)
  /-- A name, set in the current frame; a declaration minds what the name was before. -/
  | assign (name : String) (value : Node) (declares : Bool) (line : Int)
  /-- A function literal, or a function statement. -/
  | function (name : Option String) (parameters : List String) (body : Node) (line : Int)
  /-- The end of a call, with its value. -/
  | giveBack (value : Node) (line : Int)
  /-- A choice between two nodes. -/
  | branch (condition consequence alternative : Node) (line : Int)
  /-- An object literal. -/
  | record (entries : List (String × Node)) (line : Int)
  /-- A field of an object, read. -/
  | field (receiver : Node) (name : String) (line : Int)
  /-- A field of an object, set. -/
  | assignField (receiver : Node) (name : String) (value : Node) (line : Int)
  /-- A call of the function in a field, with the object as receiver. -/
  | callMethod (receiver : Node) (name : String) (arguments : List Node) (line : Int)

end

instance : Inhabited Value := ⟨.undefined⟩

instance : Inhabited Node := ⟨.block [] 0⟩

namespace Node

/-- The line a node was read from; zero if none is known. -/
def line : Node → Int
  | block _ line | literal _ _ line | call _ _ line | name _ line | assign _ _ _ line
  | function _ _ _ line | giveBack _ line | branch _ _ _ line | record _ line | field _ _ line
  | assignField _ _ _ line | callMethod _ _ _ line => line

/-- A literal as it is read from a source. -/
def constant (value : Value) (line : Int) : Node := literal value 0 line

/-- The name of a node's kind, as descriptions and type errors write it. -/
def kind : Node → String
  | block .. => "Block"
  | literal .. => "Literal"
  | call .. => "FunCall"
  | name .. => "LocalVarAccess"
  | assign .. => "LocalVarAssignment"
  | function .. => "Fun"
  | giveBack .. => "Return"
  | branch .. => "If"
  | record .. => "New"
  | field .. => "FieldAccess"
  | assignField .. => "FieldAssignment"
  | callMethod .. => "MethodCall"

/-- An operator applied to operands: a call of the function bound to its symbol. -/
def operation (symbol : String) (operands : List Node) (line : Int) : Node :=
  call (name symbol line) operands line

mutual

/-- The number of nodes on the longest way down from a node, itself included. -/
def height : Node → Nat
  | block statements _ => heightAll statements + 1
  | literal .. | name .. => 1
  | assign _ value _ _ => value.height + 1
  | function _ _ body _ => body.height + 1
  | giveBack value _ => value.height + 1
  | branch condition consequence alternative _ =>
    max condition.height (max consequence.height alternative.height) + 1
  | record entries _ => heightEntries entries + 1
  | field receiver _ _ => receiver.height + 1
  | assignField receiver _ value _ => max receiver.height value.height + 1
  | call callee arguments _ => max callee.height (heightAll arguments) + 1
  | callMethod receiver _ arguments _ => max receiver.height (heightAll arguments) + 1

/-- The greatest height of several nodes, zero if there are none. -/
def heightAll : List Node → Nat
  | [] => 0
  | n :: rest => max n.height (heightAll rest)

/-- The greatest height of the entries of an object literal, zero if there are none. -/
def heightEntries : List (String × Node) → Nat
  | [] => 0
  | (_, n) :: rest => max n.height (heightEntries rest)

end

end Node

/-- The name of a value's type, as type errors write it. -/
def Value.typeName : Value → String
  | undefined => "JSUndefined"
  | integer _ => "int"
  | string _ => "str"
  | object _ => "JSObject"
  | node n => n.kind

end Scriptlet
