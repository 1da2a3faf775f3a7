import Scriptlet.Node.Description

/-!
# Outlines

The outline of a node is a listing with one line for each node and each plain part, indented
by depth. A node's line holds its kind, and before it the label under which the enclosing
node keeps it; under it follow its parts in order:

* a part that is a node follows one level deeper, with its label and an equals sign;
* a part that is a sequence of nodes, unless it is empty, has a line with its label and a
  colon, and its elements follow two levels deeper;
* the entries of an object literal follow in the same way, each labelled with its key;
* any other part is described (`Value.inline?`) after its label and an equals sign.

Lines of the source are left out, and so is how deep a description nests. The objects of a
session are not shown, since a program that was read from a text holds none.
-/

namespace Scriptlet

open Scriptlet.Text (quote)

/-- How deep an outline stands, and what one level is indented by. -/
structure Margin where
  /-- The text of one level. -/
  unit : String
  /-- The number of levels. -/
  level : Nat

namespace Margin

/-- The margin some levels deeper. -/
def deeper (m : Margin) (levels : Nat) : Margin := { m with level := m.level + levels }

/-- A line of text at the margin. -/
def line (m : Margin) (text : String) : String :=
  String.join (List.replicate m.level m.unit) ++ text ++ "\n"

/-- A plain part of a node whose line stands at the margin. -/
def part (m : Margin) (label text : String) : String :=
  (m.deeper 1).line (label ++ " = " ++ text)

/-- The line that opens a sequence of parts of a node whose line stands at the margin. -/
def opening (m : Margin) (label : String) : String :=
  (m.deeper 1).line (label ++ ":")

end Margin

/-- The description of a value on a line, if it can be written; an object is an ellipsis. -/
def Value.inline? (v : Value) : Option String :=
  (v.describe .flat (fun _ _ _ => .ok ellipsis) 0 []).toOption

mutual

/-- The outline of a value that a literal keeps under `label`; `plain` describes a value that
is not a node. -/
def Value.outline (plain : Value → Option String) (margin : Margin) (label : String) :
    Value → Option String
  | .node n => Node.outline plain (margin.deeper 1) (label ++ " = ") n
  | v => (plain v).map (margin.part label)
termination_by structural v => v

/-- The outline of a node whose line stands at the margin, with `label` before its kind. -/
def Node.outline (plain : Value → Option String) (margin : Margin) (label : String) :
    Node → Option String
  | .block statements _ => do
    let statements ← Node.outlineAll plain margin "instrs" statements
    return margin.line (label ++ "Block") ++ statements
  | .literal value _ _ => do
    let value ← Value.outline plain margin "value" value
    return margin.line (label ++ "Literal") ++ value
  | .call callee arguments _ => do
    let callee ← Node.outline plain (margin.deeper 1) "qualifier = " callee
    let arguments ← Node.outlineAll plain margin "args" arguments
    return margin.line (label ++ "FunCall") ++ callee ++ arguments
  | .name name _ =>
    some (margin.line (label ++ "LocalVarAccess") ++ margin.part "name" (quote name))
  | .assign name value declares _ => do
    let value ← Node.outline plain (margin.deeper 1) "expr = " value
    return margin.line (label ++ "LocalVarAssignment") ++ margin.part "name" (quote name) ++
      value ++ margin.part "declaration" (flagText declares)
  | .function name parameters body _ => do
    let body ← Node.outline plain (margin.deeper 1) "body = " body
    return margin.line (label ++ "Fun") ++ margin.part "name" (nameText? name) ++
      margin.part "params" (namesText parameters) ++ body
  | .giveBack value _ => do
    let value ← Node.outline plain (margin.deeper 1) "expr = " value
    return margin.line (label ++ "Return") ++ value
  | .branch condition consequence alternative _ => do
    let condition ← Node.outline plain (margin.deeper 1) "condition = " condition
    let consequence ← Node.outline plain (margin.deeper 1) "true_block = " consequence
    let alternative ← Node.outline plain (margin.deeper 1) "false_block = " alternative
    return margin.line (label ++ "If") ++ condition ++ consequence ++ alternative
  | .record entries _ => do
    let entries ← Node.outlineEntries plain (margin.deeper 2) entries
    return margin.line (label ++ "New") ++ margin.opening "init" ++ entries
  | .field receiver name _ => do
    let receiver ← Node.outline plain (margin.deeper 1) "receiver = " receiver
    return margin.line (label ++ "FieldAccess") ++ receiver ++ margin.part "name" (quote name)
  | .assignField receiver name value _ => do
    let receiver ← Node.outline plain (margin.deeper 1) "receiver = " receiver
    let value ← Node.outline plain (margin.deeper 1) "expr = " value
    return margin.line (label ++ "FieldAssignment") ++ receiver ++
      margin.part "name" (quote name) ++ value
  | .callMethod receiver name arguments _ => do
    let receiver ← Node.outline plain (margin.deeper 1) "receiver = " receiver
    let arguments ← Node.outlineAll plain margin "args" arguments
    return margin.line (label ++ "MethodCall") ++ receiver ++
      margin.part "name" (quote name) ++ arguments

/-- The outline of a sequence of nodes that is kept under `label`. -/
def Node.outlineAll (plain : Value → Option String) (margin : Margin) (label : String) :
    List Node → Option String
  | [] => some (margin.part label (tupleText []))
  | node :: rest => do
    let first ← Node.outline plain (margin.deeper 2) "" node
    let others ← Node.outlineRest plain (margin.deeper 2) rest
    return margin.opening label ++ first ++ others

/-- The outlines of nodes, all at the margin. -/
def Node.outlineRest (plain : Value → Option String) (margin : Margin) :
    List Node → Option String
  | [] => some ""
  | node :: rest => do
    let first ← Node.outline plain margin "" node
    let others ← Node.outlineRest plain margin rest
    return first ++ others

/-- The outlines of an object literal's entries, all at the margin. -/
def Node.outlineEntries (plain : Value → Option String) (margin : Margin) :
    List (String × Node) → Option String
  | [] => some ""
  | (key, node) :: rest => do
    let first ← Node.outline plain margin (key ++ " = ") node
    let others ← Node.outlineEntries plain margin rest
    return first ++ others

end

/-- The listing of a value: the outline of a node, or the description of anything else on a
line. -/
def Value.listing (unit : String) : Value → Option String
  | .node n => n.outline Value.inline? ⟨unit, 0⟩ ""
  | v => v.inline?.map (· ++ "\n")

end Scriptlet
