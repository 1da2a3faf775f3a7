import Scriptlet.Proofs.WellFormed

/-!
# Nodes That Were Read From a Text

A node made by hand may hold any value in a literal, an object or a node included. A node that
was read from a text holds only what can be written: the undefined value, integers and strings.
Such nodes are *plain*, and so are all their parts.

## Main results

* `Node.WellFormed.plain`: a node that may stand in a program is plain.
* `Source.plain_of_program`: every program is plain.
-/

namespace Scriptlet

/-- Whether a value can be written as a literal. -/
def Value.Plain : Value → Prop
  | undefined | integer _ | string _ => True
  | object _ | node _ => False

/-- Whether all literals in a node are such values. -/
inductive Node.Plain : Node → Prop
  | block {statements : List Node} {line : Int} (h : ∀ n ∈ statements, n.Plain) :
      Plain (.block statements line)
  | literal {v : Value} {serial : Nat} {line : Int} (h : v.Plain) : Plain (.literal v serial line)
  | call {callee : Node} {arguments : List Node} {line : Int} (hc : callee.Plain)
      (ha : ∀ n ∈ arguments, n.Plain) : Plain (.call callee arguments line)
  | name {name : String} {line : Int} : Plain (.name name line)
  | assign {name : String} {value : Node} {declares : Bool} {line : Int} (h : value.Plain) :
      Plain (.assign name value declares line)
  | function {name : Option String} {parameters : List String} {body : Node} {line : Int}
      (h : body.Plain) : Plain (.function name parameters body line)
  | giveBack {value : Node} {line : Int} (h : value.Plain) : Plain (.giveBack value line)
  | branch {condition consequence alternative : Node} {line : Int} (hc : condition.Plain)
      (hq : consequence.Plain) (ha : alternative.Plain) :
      Plain (.branch condition consequence alternative line)
  | record {entries : List (String × Node)} {line : Int} (h : ∀ e ∈ entries, e.2.Plain) :
      Plain (.record entries line)
  | field {receiver : Node} {name : String} {line : Int} (h : receiver.Plain) :
      Plain (.field receiver name line)
  | assignField {receiver value : Node} {name : String} {line : Int} (hr : receiver.Plain)
      (hv : value.Plain) : Plain (.assignField receiver name value line)
  | callMethod {receiver : Node} {name : String} {arguments : List Node} {line : Int}
      (hr : receiver.Plain) (ha : ∀ n ∈ arguments, n.Plain) :
      Plain (.callMethod receiver name arguments line)

/-- A node that may stand in a program is plain. -/
theorem Node.WellFormed.plain {place : Standing} {n : Node} (h : n.WellFormed place) :
    n.Plain := by
  induction h with
  | statement _ ih => exact ih
  | block _ ih => exact .block ih
  | bareReturn => exact .giveBack (.literal trivial)
  | giveBack _ ih => exact .giveBack ih
  | bareDeclaration => exact .assign (.literal trivial)
  | declaration _ _ ih | assign _ _ ih => exact .assign ih
  | branch _ _ _ ihc ihq iha => exact .branch ihc ihq iha
  | integer | string => exact .literal trivial
  | name => exact .name
  | operation _ _ iha ihb =>
      exact .call .name (List.forall_mem_cons.mpr ⟨iha, List.forall_mem_singleton.mpr ihb⟩)
  | call _ _ ih ihs => exact .call ih ihs
  | function _ _ _ ih => exact .function ih
  | record _ _ ih => exact .record ih
  | field _ _ ih => exact .field ih
  | assignField _ _ _ ihr ihv => exact .assignField ihr ihv
  | callMethod _ _ _ ih ihs => exact .callMethod ih ihs

/-- Every program is plain. -/
theorem Source.plain_of_program {source : String} {n : Node} (h : program source = .ok n) :
    n.Plain :=
  (wellFormed_of_program h).plain

end Scriptlet
