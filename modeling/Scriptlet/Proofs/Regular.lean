import Scriptlet.Proofs.WellFormed

/-!
# Where Operators Stand in a Program

An operator is a call of the function bound to its symbol, so a node made by hand could read, set
or shadow the symbol like any other name. A program that was read from a text cannot: a name in it
begins with a letter, an underscore or a dollar sign, which no symbol does, and a symbol stands
only where an operator with its two operands does. Such nodes are *regular*. The keys of an object
literal are free, since a key may be any string.

## Main definitions

* `Ordinary`: the names that are no symbol.
* `Node.Regular`: the nodes in which every symbol stands for an operator with two operands.

## Main results

* `IsName.ordinary`: no symbol is spelled as a name.
* `Node.WellFormed.regular`: a node that may stand in a program is regular.
* `Source.regular_of_program`: every program is regular.
-/

namespace Scriptlet

/-- Whether a name is no operator's symbol. -/
def Ordinary (name : String) : Prop := ∀ op : Operator, name ≠ op.symbol

/-- Whether operators' symbols stand in a node only as what a call of two arguments calls. -/
inductive Node.Regular : Node → Prop
  | block {statements : List Node} {line : Int} (h : ∀ n ∈ statements, n.Regular) :
      Regular (.block statements line)
  | literal {v : Value} {serial : Nat} {line : Int} : Regular (.literal v serial line)
  | operation {op : Operator} {a b : Node} {place line : Int} (ha : a.Regular) (hb : b.Regular) :
      Regular (.call (.name op.symbol place) [a, b] line)
  | call {callee : Node} {arguments : List Node} {line : Int} (hc : callee.Regular)
      (ha : ∀ n ∈ arguments, n.Regular) : Regular (.call callee arguments line)
  | name {name : String} {line : Int} (h : Ordinary name) : Regular (.name name line)
  | assign {name : String} {value : Node} {declares : Bool} {line : Int} (hn : Ordinary name)
      (h : value.Regular) : Regular (.assign name value declares line)
  | function {name : Option String} {parameters : List String} {body : Node} {line : Int}
      (hn : ∀ n ∈ name, Ordinary n) (hp : ∀ p ∈ parameters, Ordinary p) (h : body.Regular) :
      Regular (.function name parameters body line)
  | giveBack {value : Node} {line : Int} (h : value.Regular) : Regular (.giveBack value line)
  | branch {condition consequence alternative : Node} {line : Int} (hc : condition.Regular)
      (hq : consequence.Regular) (ha : alternative.Regular) :
      Regular (.branch condition consequence alternative line)
  | record {entries : List (String × Node)} {line : Int} (h : ∀ e ∈ entries, e.2.Regular) :
      Regular (.record entries line)
  | field {receiver : Node} {name : String} {line : Int} (hn : Ordinary name)
      (h : receiver.Regular) : Regular (.field receiver name line)
  | assignField {receiver value : Node} {name : String} {line : Int} (hn : Ordinary name)
      (hr : receiver.Regular) (hv : value.Regular) :
      Regular (.assignField receiver name value line)
  | callMethod {receiver : Node} {name : String} {arguments : List Node} {line : Int}
      (hn : Ordinary name) (hr : receiver.Regular) (ha : ∀ n ∈ arguments, n.Regular) :
      Regular (.callMethod receiver name arguments line)

/-- No symbol is spelled as a name. -/
theorem IsName.ordinary {x : String} (h : IsName x) : Ordinary x := by
  rintro op rfl
  obtain ⟨⟨c, rest, hc, hstarts, -⟩, -⟩ := h
  have hsymbol : op.symbol.toList.head?.map Source.startsName = some false := by
    cases op <;> rfl
  rw [hc, List.head?_cons, Option.map_some, hstarts] at hsymbol
  cases hsymbol

/-- A node that may stand in a program is regular. -/
theorem Node.WellFormed.regular {place : Standing} {n : Node} (h : n.WellFormed place) :
    n.Regular := by
  induction h with
  | statement _ ih => exact ih
  | block _ ih => exact .block ih
  | bareReturn => exact .giveBack .literal
  | giveBack _ ih => exact .giveBack ih
  | bareDeclaration hx => exact .assign hx.ordinary .literal
  | declaration hx _ ih | assign hx _ ih => exact .assign hx.ordinary ih
  | branch _ _ _ ihc ihq iha => exact .branch ihc ihq iha
  | integer | string => exact .literal
  | name hx => exact .name hx.ordinary
  | operation _ _ iha ihb => exact .operation iha ihb
  | call _ _ ih ihs => exact .call ih ihs
  | function hx hp _ ih =>
      exact .function (fun x h => (hx x h).ordinary) (fun p h => (hp p h).ordinary) ih
  | record _ _ ih => exact .record ih
  | field hx _ ih => exact .field hx.ordinary ih
  | assignField hx _ _ ihr ihv => exact .assignField hx.ordinary ihr ihv
  | callMethod hx _ _ ih ihs => exact .callMethod hx.ordinary ih ihs

/-- Every program is regular. -/
theorem Source.regular_of_program {source : String} {n : Node} (h : program source = .ok n) :
    n.Regular :=
  (wellFormed_of_program h).regular

end Scriptlet
