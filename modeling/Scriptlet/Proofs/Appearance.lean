import Scriptlet.Proofs.Depth
import Scriptlet.Proofs.Translation

/-!
# Values Look Alike in Other Places

A value that is carried over to another session looks there as it did, and equality and the
operators take it for the same. References are not written, and they are only compared with each
other, so it does not matter where objects are.

A node is written and compared with its lines. So where lines are not kept, no value may be a node
and no object may hold one. Only setting a field has a node as its value. A program in which that
is done by statements of blocks alone, where the value is thrown away, is *tidy*: it never gets hold
of a node.

## Main definitions

* `Node.Tidy`, `Store.Nodeless`: what keeps values from being nodes.
* `Carrier.Fits`, `Carrier.Takes`: what is demanded of stores and values where lines are not kept.

## Main results

* `Carrier.render_store`: the text of a value inside objects.
* `Carrier.display_value`, `Carrier.printed_value`: the texts of a value.
* `Carrier.applyTo_values`: what operators make of values.
-/

namespace Scriptlet

/-! ### Where no value is a node -/

/-- Whether a value is not a node. -/
def Value.Nodeless (v : Value) : Prop := ∀ n, v ≠ .node n

/-- An object is not a node. -/
theorem Value.nodeless_object (r : Ref) : (object r).Nodeless := fun _ => Value.noConfusion

/-- No literal of a program is a node. -/
theorem Value.Plain.nodeless {v : Value} (h : v.Plain) : v.Nodeless := by
  rintro n rfl
  exact h

/-- Whether fields are set by statements of blocks only; `statement` tells whether the node itself
stands there. -/
inductive Node.Tidy : (statement : Bool) → Node → Prop
  | block {b : Bool} {statements : List Node} {line : Int} (h : ∀ n ∈ statements, n.Tidy true) :
      Tidy b (.block statements line)
  | literal {b : Bool} {v : Value} {serial : Nat} {line : Int} : Tidy b (.literal v serial line)
  | call {b : Bool} {callee : Node} {arguments : List Node} {line : Int} (hc : callee.Tidy false)
      (ha : ∀ n ∈ arguments, n.Tidy false) : Tidy b (.call callee arguments line)
  | name {b : Bool} {name : String} {line : Int} : Tidy b (.name name line)
  | assign {b : Bool} {name : String} {value : Node} {declares : Bool} {line : Int}
      (h : value.Tidy false) : Tidy b (.assign name value declares line)
  | function {b : Bool} {name : Option String} {parameters : List String} {body : Node}
      {line : Int} (h : body.Tidy false) : Tidy b (.function name parameters body line)
  | giveBack {b : Bool} {value : Node} {line : Int} (h : value.Tidy false) :
      Tidy b (.giveBack value line)
  | branch {b : Bool} {condition consequence alternative : Node} {line : Int}
      (hc : condition.Tidy false) (hq : consequence.Tidy false) (ha : alternative.Tidy false) :
      Tidy b (.branch condition consequence alternative line)
  | record {b : Bool} {entries : List (String × Node)} {line : Int}
      (h : ∀ e ∈ entries, e.2.Tidy false) : Tidy b (.record entries line)
  | field {b : Bool} {receiver : Node} {name : String} {line : Int} (h : receiver.Tidy false) :
      Tidy b (.field receiver name line)
  | assignField {receiver value : Node} {name : String} {line : Int} (hr : receiver.Tidy false)
      (hv : value.Tidy false) : Tidy true (.assignField receiver name value line)
  | callMethod {b : Bool} {receiver : Node} {name : String} {arguments : List Node} {line : Int}
      (hr : receiver.Tidy false) (ha : ∀ n ∈ arguments, n.Tidy false) :
      Tidy b (.callMethod receiver name arguments line)

namespace Node.Tidy

variable {b : Bool} {statements arguments : List Node} {callee value body receiver : Node}
  {line : Int}

/-- The statements of a tidy block are tidy statements. -/
theorem of_block (h : Tidy b (.block statements line)) : ∀ n ∈ statements, n.Tidy true := by
  cases h with
  | block h => exact h

/-- The parts of a tidy call are tidy. -/
theorem of_call (h : Tidy b (.call callee arguments line)) :
    callee.Tidy false ∧ ∀ n ∈ arguments, n.Tidy false := by
  cases h with
  | call hc ha => exact ⟨hc, ha⟩

/-- The value of a tidy assignment is tidy. -/
theorem of_assign {name : String} {declares : Bool}
    (h : Tidy b (.assign name value declares line)) : value.Tidy false := by
  cases h with
  | assign h => exact h

/-- The body of a tidy function is tidy, wherever the function stands. -/
theorem of_function {name : Option String} {parameters : List String}
    (h : Tidy b (.function name parameters body line)) : body.Tidy false := by
  cases h with
  | function h => exact h

/-- The value of a tidy `return` is tidy. -/
theorem of_giveBack (h : Tidy b (.giveBack value line)) : value.Tidy false := by
  cases h with
  | giveBack h => exact h

/-- The parts of a tidy choice are tidy. -/
theorem of_branch {condition consequence alternative : Node}
    (h : Tidy b (.branch condition consequence alternative line)) :
    condition.Tidy false ∧ consequence.Tidy false ∧ alternative.Tidy false := by
  cases h with
  | branch hc hq ha => exact ⟨hc, hq, ha⟩

/-- The values in a tidy object literal are tidy. -/
theorem of_record {entries : List (String × Node)} (h : Tidy b (.record entries line)) :
    ∀ e ∈ entries, e.2.Tidy false := by
  cases h with
  | record h => exact h

/-- The receiver of a tidy field access is tidy. -/
theorem of_field {name : String} (h : Tidy b (.field receiver name line)) :
    receiver.Tidy false := by
  cases h with
  | field h => exact h

/-- A field is only set by a statement of a block. This is the one case that asks for more than tidy
parts. -/
theorem of_assignField {name : String} (h : Tidy b (.assignField receiver name value line)) :
    b = true ∧ receiver.Tidy false ∧ value.Tidy false := by
  cases h with
  | assignField hr hv => exact ⟨rfl, hr, hv⟩

/-- The parts of a tidy method call are tidy. -/
theorem of_callMethod {name : String} (h : Tidy b (.callMethod receiver name arguments line)) :
    receiver.Tidy false ∧ ∀ n ∈ arguments, n.Tidy false := by
  cases h with
  | callMethod hr ha => exact ⟨hr, ha⟩

end Node.Tidy

/-- Whether no object holds a node, or can give one back. -/
structure Store.Nodeless (s : Store) : Prop where
  entries : ∀ r o, s.object? r = some o → ∀ e ∈ o.entries, e.2.Nodeless
  closure : ∀ r parameters body home, s.action? r = some (.closure parameters body home) →
    body.Tidy false
  constant : ∀ r v, s.action? r = some (.constant v) → v.Nodeless

namespace Carrier

/-- Whether a store may be carried over. -/
def Fits (c : Carrier) (s : Store) : Prop := c.keeps = false → s.Nodeless

/-- Whether a value may be carried over. -/
def Takes (c : Carrier) (v : Value) : Prop := c.keeps = false → v.Nodeless

/-- Objects may always be carried over. -/
theorem takes_object (c : Carrier) (r : Ref) : c.Takes (.object r) :=
  fun _ => Value.nodeless_object r

/-- The value of a literal may always be carried over. -/
theorem takes_of_plain (c : Carrier) {v : Value} (h : v.Plain) : c.Takes v := fun _ => h.nodeless

end Carrier

/-! ### Texts -/

/-- Texts of a row of elements that are carried over one by one. -/
theorem mapM_map_eq {ε α β γ : Type} {f : α → β} {k : β → Except ε γ} {l : α → Except ε γ}
    {as : List α} (h : ∀ a ∈ as, k (f a) = l a) : (as.map f).mapM k = as.mapM l := by
  induction as with
  | nil => rfl
  | cons a rest ih =>
      obtain ⟨ha, hrest⟩ := List.forall_mem_cons.mp h
      rw [List.map_cons, List.mapM_cons, List.mapM_cons, ha, ih hrest]

namespace Carrier

variable {c : Carrier} {s : Store} {g : Ref}

/-- A plain node that may be carried over is described as it was. -/
theorem describe_node {n : Node} (hn : n.Plain) (ht : c.Takes (.node n)) (depth : TextDepth)
    (object object' : (levels : Nat) → List Node → Ref → Except NoText String) (levels : Nat) :
    (c.node n).describe depth object' levels [] = n.describe depth object levels [] := by
  cases hk : c.keeps with
  | true =>
      rw [c.node_of_keeps hk]
      exact hn.describe_eq ..
  | false => exact absurd rfl (ht hk n)

/-- Values are written as they were, inside objects that were carried over. The induction is on the
levels: an entry of an object is written with fewer of them. -/
theorem render_store (hs : s.Sealed g) (hf : c.Fits s) (depth : TextDepth) (levels gap : Nat)
    (within : List Ref) {v : Value} (hv : s.Public v) (ht : c.Takes v) :
    (c.store s).render depth levels gap (within.map c.ref) [] (c.value v) =
      s.render depth levels gap within [] v := by
  induction levels generalizing gap within v with
  | zero => rfl
  | succ levels ih =>
      cases gap with
      | succ gap => exact ih gap within hv ht
      | zero =>
          cases v with
          | undefined | integer | string => rfl
          | node n => exact describe_node hv ht ..
          | object r =>
              have hcontains : (within.map c.ref).contains (c.ref r) = within.contains r := by
                rw [Bool.eq_iff_iff, List.contains_iff_mem, List.contains_iff_mem]
                exact List.mem_map_of_injective fun _ _ => c.ref_inj.mp
              rw [value, Store.render, Store.render, hcontains, object?_store]
              cases ho : s.object? r with
              | none => rfl
              | some o =>
                  have hempty : (c.object o).entries.isEmpty = o.entries.isEmpty := List.isEmpty_map
                  have hcallable : (c.object o).callable = o.callable := Option.isSome_map ..
                  rw [Option.map_some]
                  dsimp only
                  rw [hempty, hcallable]
                  split
                  · rfl
                  split
                  · rfl
                  refine congrArg (fun texts => texts >>= fun entries =>
                    .ok (Store.entriesText entries)) (mapM_map_eq fun e he => ?_)
                  have hentry := ih depth.entry (r :: within) ((hs.holds r o ho).entries e he)
                    fun hk => (hf hk).entries r o ho e he
                  exact congrArg (fun text => text >>= fun text => .ok (e.1 ++ ": " ++ text)) hentry

variable {v : Value}

/-- A value is described as it was. -/
theorem describe_value (hs : s.Sealed g) (hf : c.Fits s) (hv : s.Public v) (ht : c.Takes v)
    (depth : TextDepth) (levels : Nat) :
    (c.store s).describe depth levels (c.value v) = s.describe depth levels v := by
  cases v with
  | undefined | integer | string => rfl
  | node n => exact describe_node hv ht ..
  | object r =>
      exact congrArg (NoText.within _ _)
        (render_store hs hf depth _ 0 [] (v := .object r) hv ht)

/-- An error message shows a value as it did. -/
theorem display_value (hs : s.Sealed g) (hf : c.Fits s) (hv : s.Public v) (ht : c.Takes v)
    (depth : TextDepth) (levels : Nat) :
    (c.store s).display depth levels (c.value v) = s.display depth levels v :=
  render_store hs hf depth levels 0 [] hv ht

/-- A value is printed as it was. -/
theorem printed_value (hs : s.Sealed g) (hf : c.Fits s) (hv : s.Public v) (ht : c.Takes v)
    (depth : TextDepth) (levels : Nat) :
    (c.store s).printed depth levels (c.value v) = s.printed depth levels v := by
  have hdescribe := describe_value hs hf hv ht depth levels
  cases v with
  | string | undefined => rfl
  | integer | object | node => exact hdescribe

/-! ### Operators -/

/-- Values are equal if they were: references are compared with each other only, and nodes are the
same nodes where lines are kept. -/
theorem same_value {v w : Value} (ht : c.Takes v) : (c.value v).same (c.value w) = v.same w := by
  cases v with
  | node n =>
      cases hk : c.keeps with
      | true => cases w <;> simp [value, c.node_of_keeps hk, Value.same, Value.agrees]
      | false => exact absurd rfl (ht hk n)
  | object r =>
      cases w with
      | object q =>
          show (c.ref r == c.ref q) = (r == q)
          rw [Bool.eq_iff_iff, beq_iff_eq, beq_iff_eq, c.ref_inj]
      | _ => rfl
  | undefined | integer | string => cases w <;> rfl

/-- An operator makes the same of two values that are carried over. -/
theorem apply_value (op : Operator) {v w : Value} (ht : c.Takes v) :
    op.apply (c.value v) (c.value w) = op.apply v w := by
  have hintegers (op : Operator) : op.integers (c.value v) (c.value w) = op.integers v w := by
    cases v <;> cases w <;> simp [value, node, Operator.integers, Value.typeName]
  have horder (op : Operator) : op.order (c.value v) (c.value w) = op.order v w := by
    cases v <;> cases w <;> simp [value, node, Operator.order, Value.typeName]
  cases op with
  | equal | unequal => rw [Operator.apply, same_value ht, Operator.apply]
  | less | lessEqual | greater | greaterEqual => rw [Operator.apply, horder, Operator.apply]
  | plus | minus | times | divide | remainder =>
      rw [Operator.apply, hintegers, Operator.apply]

/-- Operators make the same of values that are carried over. -/
theorem applyTo_values (op : Operator) {arguments : List Value} (ht : ∀ v ∈ arguments, c.Takes v) :
    op.applyTo (arguments.map c.value) = op.applyTo arguments := by
  rcases arguments with _ | ⟨v, _ | ⟨w, rest⟩⟩
  · rfl
  · rfl
  · exact apply_value op (ht v List.mem_cons_self)

/-- Operators take as many levels for values that are carried over. -/
theorem operation_values (stack : Stack) (op : Operator) {arguments : List Value}
    (ht : ∀ v ∈ arguments, c.Takes v) (result : Except Fault Value) :
    stack.operation op (arguments.map c.value) result = stack.operation op arguments result := by
  have hcomparison : stack.comparison op (arguments.map c.value) =
      stack.comparison op arguments := by
    rcases arguments with _ | ⟨v, _ | ⟨w, rest⟩⟩
    · rfl
    · cases op <;> cases v <;> rfl
    · have hv := ht v List.mem_cons_self
      cases v with
      | node n =>
          have hk : c.keeps = true := Bool.not_eq_false _ ▸ fun hk => hv hk n rfl
          cases op <;> cases w <;> simp [value, c.node_of_keeps hk, Stack.comparison]
      | undefined | integer | string | object => cases op <;> rfl
  simp only [Stack.operation, hcomparison]

end Carrier

end Scriptlet
