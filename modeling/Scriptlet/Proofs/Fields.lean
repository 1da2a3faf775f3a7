import Scriptlet.Node

/-!
# Nodes by Their Fields

Nodes of all kinds are made of a few sorts of parts: names, marks and lines, values and nodes, rows
of nodes, and nodes under keys. Looked at like that, what is said of the parts of a node needs no
clause for each kind, and one induction over the nodes in its fields serves all. It goes into the
values of literals, too, which may be nodes.

## Main definitions

* `Node.fields`: what a node is made of, beside its kind.
* `Node.Field.inside`: the nodes in a field.

## Main results

* `Node.induction_inside`: induction over the nodes in the fields of a node.
-/

namespace Scriptlet

namespace Node

/-- A part of a node in which there is no node. -/
inductive Datum
  /-- A name that is read or set. -/
  | name (s : String)
  /-- The name of a function, if it has one. -/
  | label (s : Option String)
  /-- The names of a function's parameters. -/
  | parameters (names : List String)
  /-- Whether an assignment declares its name. -/
  | declares (b : Bool)
  /-- The line of the node. -/
  | line (l : Int)

/-- A part of a node. -/
inductive Field
  /-- A name, a mark or a line. -/
  | datum (d : Datum)
  /-- A node, or the value of a literal. -/
  | value (v : Value)
  /-- Nodes in a row. -/
  | nodes (ns : List Node)
  /-- Nodes under keys. -/
  | entries (es : List (String × Node))

/-- The fields of a node. The serial number of a literal is none. -/
def fields : Node → List Field
  | block statements l => [.nodes statements, .datum (.line l)]
  | literal v _ l => [.value v, .datum (.line l)]
  | call callee arguments l => [.value (.node callee), .nodes arguments, .datum (.line l)]
  | name s l => [.datum (.name s), .datum (.line l)]
  | assign s value declares l =>
    [.datum (.name s), .value (.node value), .datum (.declares declares), .datum (.line l)]
  | function s names body l =>
    [.datum (.label s), .datum (.parameters names), .value (.node body), .datum (.line l)]
  | giveBack value l => [.value (.node value), .datum (.line l)]
  | branch condition consequence alternative l =>
    [.value (.node condition), .value (.node consequence), .value (.node alternative),
      .datum (.line l)]
  | record es l => [.entries es, .datum (.line l)]
  | field receiver s l => [.value (.node receiver), .datum (.name s), .datum (.line l)]
  | assignField receiver s value l =>
    [.value (.node receiver), .datum (.name s), .value (.node value), .datum (.line l)]
  | callMethod receiver s arguments l =>
    [.value (.node receiver), .datum (.name s), .nodes arguments, .datum (.line l)]

namespace Field

/-- The nodes in a field. -/
def inside : Field → List Node
  | value (.node n) => [n]
  | nodes ns => ns
  | entries es => es.map Prod.snd
  | _ => []

theorem mem_inside_of_lookup {es : List (String × Node)} {key : String} {n : Node}
    (h : es.lookup key = some n) : n ∈ (entries es).inside := by
  obtain ⟨before, behind, rfl, -⟩ := List.lookup_eq_some_iff.mp h
  exact List.mem_map.mpr ⟨_, List.mem_append_right before List.mem_cons_self, rfl⟩

/-- The size of what a field holds. -/
noncomputable def size : Field → Nat
  | datum _ => 0
  | value v => sizeOf v
  | nodes ns => sizeOf ns
  | entries es => sizeOf es

/-- The nodes in a field are smaller than what the field holds. -/
theorem sizeOf_inside {f : Field} {m : Node} (h : m ∈ f.inside) : sizeOf m < f.size := by
  cases f with
  | datum d => cases h
  | value v =>
      cases v with
      | node n =>
          obtain rfl : m = n := List.mem_singleton.mp h
          simp [size]
      | undefined | integer _ | string _ | object _ => cases h
  | nodes ns => exact List.sizeOf_lt_of_mem h
  | entries es =>
      obtain ⟨⟨key, n⟩, he, rfl⟩ := List.mem_map.mp h
      have hentry : sizeOf n < sizeOf (key, n) := by
        rw [Prod.mk.sizeOf_spec]
        omega
      exact Nat.lt_trans hentry (List.sizeOf_lt_of_mem he)

end Field

/-- What a field holds is no larger than the node. -/
theorem size_le_sizeOf {n : Node} : ∀ f ∈ n.fields, f.size ≤ sizeOf n := by
  cases n <;> simp [fields, Field.size] <;> omega

/-- What holds of a node if it holds of the nodes in its fields, holds of every node. -/
theorem induction_inside {P : Node → Prop}
    (ind : ∀ n : Node, (∀ f ∈ n.fields, ∀ m ∈ f.inside, P m) → P n) (n : Node) : P n :=
  ind n fun f hf m hm =>
    have : sizeOf m < sizeOf n := Nat.lt_of_lt_of_le (Field.sizeOf_inside hm) (size_le_sizeOf f hf)
    induction_inside ind m
termination_by sizeOf n

end Node

end Scriptlet
