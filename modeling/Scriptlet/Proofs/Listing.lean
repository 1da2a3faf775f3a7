import Scriptlet.Node.Outline
import Scriptlet.Proofs.Location
import Scriptlet.Proofs.Quoting
import Scriptlet.Proofs.WellFormed

/-!
# Outlines as Listings

An outline indents what stands below a line. What it says, apart from the margin, is a *listing*:
lines, each with a listing below it and a listing that comes next. Every node has one, and if its
literals are as they are read, its outline is the text of it.

## Main definitions

* `Listing`, `Listing.text`: a listing, and how it is written at a margin.
* `Node.parts`: the listing below a node's own line.
* `Node.Legible`: whether the literals of a node are as they are read.

## Main results

* `Node.WellFormed.legible`: the literals of programs are.
* `Node.Legible.listed`: an outline is the text of a listing.
* `exists_outline_of_program`: every program has an outline.
-/

namespace Scriptlet

open Scriptlet.Text (quote)

/-- What an outline says, but for the margin. -/
inductive Listing
  /-- Nothing more at this margin. -/
  | done
  /-- A line, with a listing deeper `below` it, and a `next` one at the same margin. -/
  | item (line : String) (below next : Listing)

namespace Listing

/-- What is written of a listing at a margin. -/
def text (margin : Margin) : Listing → String
  | done => ""
  | item line below next => margin.line line ++ below.text (margin.deeper 1) ++ next.text margin

/-- A plain part of a node. -/
def part (label text : String) (next : Listing) : Listing := item (label ++ " = " ++ text) done next

/-- A part of a node that holds others. -/
def opening (label : String) (below : Listing) : Listing := item (label ++ ":") below done

/-- A part of a node that is a sequence with these elements. -/
def group (label : String) : Listing → Listing
  | done => part label (tupleText []) done
  | elements => opening label elements

variable (margin : Margin)

/-- Nothing is written of an empty listing. -/
@[simp] theorem text_done : done.text margin = "" := rfl

/-- An item has its line, what is below it one step deeper, and what follows. -/
@[simp] theorem text_item (line : String) (below next : Listing) :
    (item line below next).text margin =
      margin.line line ++ below.text (margin.deeper 1) ++ next.text margin := rfl

/-- A part stands on a line of its own. -/
@[simp] theorem text_part (label text : String) (next : Listing) :
    (part label text next).text (margin.deeper 1) =
      margin.part label text ++ next.text (margin.deeper 1) := by
  rw [part, text_item, text_done, String.append_empty]
  rfl

/-- What is below an opening line stands two steps deeper than the item. -/
@[simp] theorem text_opening (label : String) (below : Listing) :
    (opening label below).text (margin.deeper 1) =
      margin.opening label ++ below.text (margin.deeper 2) := by
  rw [opening, text_item, text_done, String.append_empty]
  rfl

end Listing

/-- How a value in a literal is described. -/
def Value.look (v : Value) : String := v.inline?.getD ""

open Listing (item part opening group)

namespace Node

mutual

/-- What stands below the line of a node. -/
def parts : Node → Listing
  | block statements _ => group "instrs" (elements statements)
  | literal value _ _ => part "value" value.look .done
  | call callee arguments _ =>
    item ("qualifier = " ++ callee.kind) callee.parts (group "args" (elements arguments))
  | name x _ => part "name" (quote x) .done
  | assign x value declares _ =>
    part "name" (quote x) <| item ("expr = " ++ value.kind) value.parts <|
      part "declaration" (flagText declares) .done
  | function x parameters body _ =>
    part "name" (nameText? x) <| part "params" (namesText parameters) <|
      item ("body = " ++ body.kind) body.parts .done
  | giveBack value _ => item ("expr = " ++ value.kind) value.parts .done
  | branch condition consequence alternative _ =>
    item ("condition = " ++ condition.kind) condition.parts <|
      item ("true_block = " ++ consequence.kind) consequence.parts <|
        item ("false_block = " ++ alternative.kind) alternative.parts .done
  | record entries _ => opening "init" (entryItems entries)
  | field receiver x _ =>
    item ("receiver = " ++ receiver.kind) receiver.parts <| part "name" (quote x) .done
  | assignField receiver x value _ =>
    item ("receiver = " ++ receiver.kind) receiver.parts <| part "name" (quote x) <|
      item ("expr = " ++ value.kind) value.parts .done
  | callMethod receiver x arguments _ =>
    item ("receiver = " ++ receiver.kind) receiver.parts <| part "name" (quote x) <|
      group "args" (elements arguments)

/-- Nodes, one below the other. -/
def elements : List Node → Listing
  | [] => .done
  | n :: rest => item n.kind n.parts (elements rest)

/-- The entries of an object literal. -/
def entryItems : List (String × Node) → Listing
  | [] => .done
  | (key, n) :: rest => item (key ++ " = " ++ n.kind) n.parts (entryItems rest)

end

/-- The names of all kinds. -/
def kinds : List String :=
  ["Block", "Literal", "FunCall", "LocalVarAccess", "LocalVarAssignment", "Fun", "Return", "If",
    "New", "FieldAccess", "FieldAssignment", "MethodCall"]

/-- The kinds are those of nodes. -/
theorem kind_mem_kinds (n : Node) : n.kind ∈ kinds := by
  cases n <;> simp [kind, kinds]

end Node

/-! ### Literals that were read -/

/-- The values of literals that are read from a text. -/
inductive Value.Legible : Value → Prop
  | undefined : Legible .undefined
  | integer {k : Nat} (hk : k < Text.numeralBound) : Legible (.integer k)
  | string {s : String} : Legible (.string s)

/-- An integer that was read looks like its numeral. -/
theorem Value.inline?_natCast {k : Nat} (hk : k < Text.numeralBound) :
    (integer k).inline? = some k.repr := by
  have hk' : (k : Int).natAbs < Text.numeralBound := by rwa [Int.natAbs_natCast]
  unfold inline? describe NoText.within
  simp only [NoText.numeral_of_lt hk', TextDepth.flat, Nat.le_refl, if_true]
  rfl

/-- A legible value is written on one line. -/
theorem Value.Legible.inline?_eq {v : Value} (h : v.Legible) : v.inline? = some v.look := by
  cases h with
  | undefined | string => rfl
  | integer hk => rw [look, inline?_natCast hk, Option.getD_some]

/-- An integer that is not too long looks like its digits. -/
theorem Value.look_natCast {k : Nat} (hk : k < Text.numeralBound) :
    (Value.integer k).look = k.repr := by
  rw [look, inline?_natCast hk, Option.getD_some]

namespace Node

/-- Whether the literals in a node are as they are read. -/
def Legible (n : Node) : Prop :=
  ∀ v serial line, n.Contains (.literal v serial line) → serial = 0 ∧ v.Legible

/-- The nodes below a legible one are legible. -/
theorem Legible.child {n m : Node} (h : n.Legible) (hm : m ∈ n.children) : m.Legible :=
  fun v serial line hv => h v serial line (.child hm hv)

/-- A node that is no literal is as the nodes in it are. -/
theorem legible_of_children {n : Node} (hn : ∀ v serial line, n ≠ .literal v serial line)
    (h : ∀ m ∈ n.children, m.Legible) : n.Legible := by
  intro v serial line hv
  cases hv with
  | self => exact absurd rfl (hn v serial line)
  | child hm hv => exact h _ hm v serial line hv

/-- A literal is legible if its value is. -/
theorem legible_constant {v : Value} (h : v.Legible) (line : Int) : (constant v line).Legible := by
  intro w serial line' hw
  cases hw with
  | self => exact ⟨rfl, h⟩
  | child hm => cases hm

/-- What was read is legible: its integers had at most as many digits as can be written. -/
theorem WellFormed.legible {place : Standing} {n : Node} (h : n.WellFormed place) :
    n.Legible := by
  induction h with
  | statement _ ih => exact ih
  | bareReturn | bareDeclaration =>
      exact legible_of_children nofun <|
        List.forall_mem_singleton.mpr (legible_constant .undefined _)
  | giveBack _ ih | declaration _ _ ih | assign _ _ ih | function _ _ _ ih | field _ _ ih =>
      exact legible_of_children nofun (List.forall_mem_singleton.mpr ih)
  | integer hk => exact legible_constant (.integer hk) _
  | string => exact legible_constant .string _
  | name => exact legible_of_children nofun (List.forall_mem_nil _)
  | operation _ _ iha ihb =>
      refine legible_of_children nofun (List.forall_mem_cons.mpr ⟨?_, ?_⟩)
      · exact legible_of_children nofun (List.forall_mem_nil _)
      · exact List.forall_mem_cons.mpr ⟨iha, List.forall_mem_singleton.mpr ihb⟩
  | call _ _ ih ihs | callMethod _ _ _ ih ihs =>
      exact legible_of_children nofun (List.forall_mem_cons.mpr ⟨ih, ihs⟩)
  | block _ ih => exact legible_of_children nofun ih
  | branch _ _ _ ihc ihq iha =>
      exact legible_of_children nofun <| List.forall_mem_cons.mpr
        ⟨ihc, List.forall_mem_cons.mpr ⟨ihq, List.forall_mem_singleton.mpr iha⟩⟩
  | record _ _ ih => exact legible_of_children nofun (List.forall_mem_map.mpr ih)
  | assignField _ _ _ ihr ihv =>
      exact legible_of_children nofun <|
        List.forall_mem_cons.mpr ⟨ihr, List.forall_mem_singleton.mpr ihv⟩

/-! ### Outlines -/

/-- The outline of a literal. -/
theorem outline_literal {v : Value} (h : v.Legible) (serial : Nat) (line : Int) (margin : Margin)
    (label : String) :
    (literal v serial line).outline Value.inline? margin label =
      some (margin.line (label ++ "Literal") ++ margin.part "value" v.look) := by
  have hvalue : Value.outline Value.inline? margin "value" v =
      some (margin.part "value" v.look) := by
    cases h with
    | undefined | string => rfl
    | integer hk =>
        rw [Value.outline, (Value.Legible.integer hk).inline?_eq]
        · rfl
        · exact nofun
  rw [outline, hvalue]
  rfl

/-- Whether the outline of a node is the text of its listing, at every margin. -/
def Listed (n : Node) : Prop :=
  ∀ margin label, n.outline Value.inline? margin label =
    some (margin.line (label ++ n.kind) ++ n.parts.text (margin.deeper 1))

/-- Outlines below one another, at the same margin. -/
theorem outlineRest_eq {ns : List Node} (h : ∀ n ∈ ns, n.Listed) (margin : Margin) :
    outlineRest Value.inline? margin ns = some ((elements ns).text margin) := by
  induction ns with
  | nil => rfl
  | cons n ns ih =>
      obtain ⟨hn, hns⟩ := List.forall_mem_cons.mp h
      simp [outlineRest, hn margin "", ih hns, elements]

/-- The outline of a group of nodes under a label. -/
theorem outlineAll_eq {ns : List Node} (h : ∀ n ∈ ns, n.Listed) (margin : Margin)
    (label : String) : outlineAll Value.inline? margin label ns =
      some ((group label (elements ns)).text (margin.deeper 1)) := by
  cases ns with
  | nil => simp [outlineAll, elements, group]
  | cons n ns =>
      obtain ⟨hn, hns⟩ := List.forall_mem_cons.mp h
      simp [outlineAll, hn (margin.deeper 2) "", outlineRest_eq hns, elements, group,
        String.append_assoc]

/-- The outlines of the entries of an object literal. -/
theorem outlineEntries_eq {es : List (String × Node)} (h : ∀ n ∈ es.map Prod.snd, n.Listed)
    (margin : Margin) :
    outlineEntries Value.inline? margin es = some ((entryItems es).text margin) := by
  induction es with
  | nil => rfl
  | cons e es ih =>
      obtain ⟨hn, hes⟩ := List.forall_mem_cons.mp h
      simp [outlineEntries, hn margin (e.1 ++ " = "), ih hes, entryItems]

/-- **An outline is the text of a listing**: the line of the node, and below it its parts. -/
theorem Legible.listed {n : Node} (h : n.Legible) : n.Listed := by
  induction n using induction_children with
  | h n ih =>
  have hparts : ∀ m ∈ n.children, m.Listed := fun m hm => ih m hm (h.child hm)
  intro margin label
  cases n with
  | block statements line =>
      have hstatements : ∀ m ∈ statements, m.Listed := hparts
      simp [outline, outlineAll_eq hstatements, parts, kind]
  | literal v serial line => simp [outline_literal (h v serial line .self).2, parts, kind]
  | name x line => simp [outline, parts, kind]
  | call | callMethod =>
      obtain ⟨hfirst, harguments⟩ := List.forall_mem_cons.mp hparts
      simp [outline, hfirst (margin.deeper 1), outlineAll_eq harguments, parts, kind,
        String.append_assoc]
  | assign | function | giveBack | field =>
      have hpart := List.forall_mem_singleton.mp hparts (margin.deeper 1)
      simp [outline, hpart, parts, kind, String.append_assoc]
  | branch condition consequence alternative line =>
      obtain ⟨hcondition, hparts⟩ := List.forall_mem_cons.mp hparts
      obtain ⟨hconsequence, hparts⟩ := List.forall_mem_cons.mp hparts
      have halternative := List.forall_mem_singleton.mp hparts
      simp [outline, hcondition (margin.deeper 1), hconsequence (margin.deeper 1),
        halternative (margin.deeper 1), parts, kind, String.append_assoc]
  | record entries line =>
      have hentries : ∀ m ∈ entries.map Prod.snd, m.Listed := hparts
      simp [outline, outlineEntries_eq hentries, parts, kind, String.append_assoc]
  | assignField receiver x value line =>
      obtain ⟨hreceiver, hparts⟩ := List.forall_mem_cons.mp hparts
      have hvalue := List.forall_mem_singleton.mp hparts
      simp [outline, hreceiver (margin.deeper 1), hvalue (margin.deeper 1), parts, kind,
        String.append_assoc]

end Node

/-- Every program has an outline. -/
theorem exists_outline_of_program {source : String} {program : Node}
    (h : Source.program source = .ok program) (unit : String) :
    ∃ text, (Value.node program).listing unit = some text :=
  ⟨_, (Source.wellFormed_of_program h).legible.listed ⟨unit, 0⟩ ""⟩

end Scriptlet
