import Scriptlet.Node.Equality
import Scriptlet.Text.Numeral
import Scriptlet.Text.Quoted

/-!
# One-Line Descriptions

The description of a node names its kind and then every part of it, the line last, as in
`Return(expr=Literal(value=1, line=2), line=2)`. Strings inside are quoted
(`Scriptlet.Text.quote`), integers are decimal numerals, and a sequence is written between
parentheses, with a comma after a single element.

What an object looks like is not decided here: `Value.describe` is handed a function for it.
Since an object may hold the very node that is being described, a node that is met again
inside itself (`Node.identical`) is written as an ellipsis. A mere copy of it is not.

There is no description when an integer in it is too long to write, and none when it nests
deeper than `levels`. How many of these each part takes is the matter of whoever writes the
text (`TextDepth`). With a depth of zero for all parts (`TextDepth.flat`) levels do not count.
-/

namespace Scriptlet

open Scriptlet.Text (quote numeral?)

/-- Why there is no text. -/
inductive NoText
  /-- An integer in it has too many digits. -/
  | oversized
  /-- It nests too deeply. -/
  | tooDeep
deriving DecidableEq, Repr

namespace NoText

/-- A text that needs some levels, when there are `levels`. -/
def within {α : Type} (need levels : Nat) (text : Except NoText α) : Except NoText α :=
  if need ≤ levels then text else .error .tooDeep

/-- The numeral of an integer, if it is not too long. -/
def numeral (n : Int) : Except NoText String :=
  match numeral? n with
  | some text => .ok text
  | none => .error .oversized

theorem numeral_of_lt {n : Int} (h : n.natAbs < Text.numeralBound) :
    numeral n = .ok (toString n) := by
  unfold numeral
  simp only [Text.numeral?_of_lt h]

/-- An integer with too many digits has no numeral. -/
theorem numeral_of_le {n : Int} (h : Text.numeralBound ≤ n.natAbs) :
    numeral n = .error .oversized := by
  unfold numeral Text.numeral?
  simp only [if_neg (Nat.not_lt.mpr h)]

end NoText

/-- The levels that the parts of a text take. -/
structure TextDepth where
  /-- The description of a value that is no node, by the name of its type. That of an object has
  these above the text of the object. -/
  atom : (typeName : String) → Nat
  /-- The description of a node, by the kind of the node, above the descriptions of its parts. -/
  node : (kind : String) → Nat
  /-- A sequence in the description of a node, above the descriptions of its elements. -/
  row : Nat
  /-- What is between the text of an object and that of an entry's value. -/
  entry : Nat

/-- The depth of a text of which no part takes levels. -/
def TextDepth.flat : TextDepth := ⟨fun _ => 0, fun _ => 0, 0, 0⟩

/-- What is written in place of a part that contains itself. -/
def ellipsis : String := "..."

/-- A sequence of descriptions between parentheses. -/
def tupleText : List String → String
  | [] => "()"
  | [a] => "(" ++ a ++ ",)"
  | as => "(" ++ ", ".intercalate as ++ ")"

/-- Names, quoted, as a sequence. -/
def namesText (names : List String) : String :=
  tupleText (names.map quote)

/-- A truth value. -/
def flagText (b : Bool) : String := if b then "True" else "False"

/-- A name that may be missing. -/
def nameText? : Option String → String
  | some name => quote name
  | none => "None"

/-- A kind with its labelled parts and its line. -/
def partsText (kind : String) (parts : List (String × String)) (line : Int) : String :=
  kind ++ "(" ++
    ", ".intercalate ((parts ++ [("line", toString line)]).map fun p => p.1 ++ "=" ++ p.2) ++
    ")"

mutual

/-- The description of a value inside the nodes `enclosing`, innermost first, when there are
`levels` for it; `object` tells how an object looks there. -/
def Value.describe (depth : TextDepth)
    (object : (levels : Nat) → List Node → Ref → Except NoText String) (levels : Nat)
    (enclosing : List Node) : Value → Except NoText String
  | .undefined => NoText.within (depth.atom "JSUndefined") levels (.ok "undefined")
  | .integer n => NoText.within (depth.atom "int") levels (NoText.numeral n)
  | .string s => NoText.within (depth.atom "str") levels (.ok (quote s))
  | .object r =>
    NoText.within (depth.atom "JSObject") levels
      (object (levels - depth.atom "JSObject") enclosing r)
  | .node n => Node.describe depth object levels enclosing n
termination_by structural v => v

/-- The description of a node inside the nodes `enclosing`, when there are `levels` for it. -/
def Node.describe (depth : TextDepth)
    (object : (levels : Nat) → List Node → Ref → Except NoText String) (levels : Nat)
    (enclosing : List Node) (node : Node) : Except NoText String :=
  if enclosing.any node.identical then .ok ellipsis
  else
    let enclosing := node :: enclosing
    let below := levels - depth.node node.kind
    NoText.within (depth.node node.kind) levels <|
    match node with
    | .block statements line => do
      let statements ← NoText.within depth.row below
        (Node.describeAll depth object (below - depth.row) enclosing statements)
      return partsText "Block" [("instrs", tupleText statements)] line
    | .literal value _ line => do
      let value ← Value.describe depth object below enclosing value
      return partsText "Literal" [("value", value)] line
    | .call callee arguments line => do
      let callee ← Node.describe depth object below enclosing callee
      let arguments ← NoText.within depth.row below
        (Node.describeAll depth object (below - depth.row) enclosing arguments)
      return partsText "FunCall" [("qualifier", callee), ("args", tupleText arguments)] line
    | .name name line => return partsText "LocalVarAccess" [("name", quote name)] line
    | .assign name value declares line => do
      let value ← Node.describe depth object below enclosing value
      return partsText "LocalVarAssignment"
        [("name", quote name), ("expr", value), ("declaration", flagText declares)] line
    | .function name parameters body line => do
      let body ← Node.describe depth object below enclosing body
      return partsText "Fun"
        [("name", nameText? name), ("params", namesText parameters), ("body", body)] line
    | .giveBack value line => do
      let value ← Node.describe depth object below enclosing value
      return partsText "Return" [("expr", value)] line
    | .branch condition consequence alternative line => do
      let condition ← Node.describe depth object below enclosing condition
      let consequence ← Node.describe depth object below enclosing consequence
      let alternative ← Node.describe depth object below enclosing alternative
      return partsText "If"
        [("condition", condition), ("true_block", consequence), ("false_block", alternative)]
        line
    | .record entries line => do
      let entries ← NoText.within depth.row below
        (Node.describeEntries depth object (below - depth.row) enclosing entries)
      return partsText "New" [("init", "\x7b" ++ ", ".intercalate entries ++ "\x7d")] line
    | .field receiver name line => do
      let receiver ← Node.describe depth object below enclosing receiver
      return partsText "FieldAccess" [("receiver", receiver), ("name", quote name)] line
    | .assignField receiver name value line => do
      let receiver ← Node.describe depth object below enclosing receiver
      let value ← Node.describe depth object below enclosing value
      return partsText "FieldAssignment"
        [("receiver", receiver), ("name", quote name), ("expr", value)] line
    | .callMethod receiver name arguments line => do
      let receiver ← Node.describe depth object below enclosing receiver
      let arguments ← NoText.within depth.row below
        (Node.describeAll depth object (below - depth.row) enclosing arguments)
      return partsText "MethodCall"
        [("receiver", receiver), ("name", quote name), ("args", tupleText arguments)] line

/-- The descriptions of several nodes. -/
def Node.describeAll (depth : TextDepth)
    (object : (levels : Nat) → List Node → Ref → Except NoText String) (levels : Nat)
    (enclosing : List Node) : List Node → Except NoText (List String)
  | [] => .ok []
  | node :: rest => do
    let text ← Node.describe depth object levels enclosing node
    let texts ← Node.describeAll depth object levels enclosing rest
    return text :: texts

/-- The descriptions of an object literal's entries, each with its key. -/
def Node.describeEntries (depth : TextDepth)
    (object : (levels : Nat) → List Node → Ref → Except NoText String) (levels : Nat)
    (enclosing : List Node) : List (String × Node) → Except NoText (List String)
  | [] => .ok []
  | (key, node) :: rest => do
    let text ← Node.describe depth object levels enclosing node
    let texts ← Node.describeEntries depth object levels enclosing rest
    return (quote key ++ ": " ++ text) :: texts

end

end Scriptlet
