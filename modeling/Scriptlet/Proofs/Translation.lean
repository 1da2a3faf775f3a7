import Mathlib.Data.List.Basic
import Scriptlet.Proofs.Lines
import Scriptlet.Proofs.Sealing

/-!
# Runs in Other Places

A run leaves what was there before alone. So it can be carried over to a session in which something
has been done already: its objects then come after those that are there, and all references are
moved along. At the same time the lines of the program may be wiped out.

A `Carrier` says where to a run is carried. It translates references, nodes, values, objects and
whole sessions; that the operations on stores respect this is shown here, that evaluations do in
`Scriptlet.Proofs.Carrying`.

## Main definitions

* `Carrier`: where a run is carried to, and whether lines are kept.
* `Carrier.session`: a session, carried there.

## Main results

* `Carrier.store_add`, `Carrier.store_put`: the operations that change a store.
* `Carrier.read_store`: what a name reads as.
-/

namespace Scriptlet

/-- Where a run is carried over to. -/
structure Carrier where
  /-- The session that is there already. -/
  base : Session
  /-- Whether lines are kept; otherwise all are zero. -/
  keeps : Bool

namespace Carrier

/-- Line numbers. -/
def line (c : Carrier) (l : Int) : Int := if c.keeps then l else 0

/-- A new reference comes after all that are there. -/
def ref (c : Carrier) (r : Ref) : Ref := ⟨c.base.store.size + r.index⟩

/-- A node, less its lines if these are not kept. -/
def node (c : Carrier) (n : Node) : Node := n.relined c.line

/-- A value: references are moved along. -/
def value (c : Carrier) : Value → Value
  | .object r => .object (c.ref r)
  | .node n => .node (c.node n)
  | .undefined => .undefined
  | .integer n => .integer n
  | .string s => .string s

/-- What a call of an object does. -/
def action (c : Carrier) : Action → Action
  | .closure parameters body home => .closure parameters (c.node body) (c.ref home)
  | .builtin b => .builtin b
  | .constant v => .constant (c.value v)

/-- An object with everything that it holds. -/
def object (c : Carrier) (o : Object) : Object :=
  ⟨o.name, o.parent.map c.ref, o.action.map c.action, o.entries.map (Prod.map id c.value)⟩

/-- The objects that are there already, and then those of a store. -/
def store (c : Carrier) (s : Store) : Store := ⟨c.base.store.objects ++ s.objects.map c.object⟩

/-- What was done already, and then what a session has done. -/
def session (c : Carrier) (s : Session) : Session :=
  ⟨c.store s.store, c.base.output ++ s.output, c.base.events ++ s.events⟩

/-- A mistake has no line when lines are not kept. -/
def exit (c : Carrier) : Exit → Exit
  | .returned v => .returned (c.value v)
  | .mistake m line => .mistake m (if c.keeps then line else none)
  | .fault f => .fault f
  | .tooDeep => .tooDeep

variable (c : Carrier)

/-! ### Lines, nodes and values -/

/-- Where lines are kept, a node is carried over as it is. -/
theorem node_of_keeps (h : c.keeps = true) (n : Node) : c.node n = n := by
  have hline : c.line = id := funext fun l => if_pos h
  rw [node, hline, Node.relined_id]

/-- The value of a literal is carried over as it is. -/
theorem value_of_plain {v : Value} (h : v.Plain) : c.value v = v := by
  cases v with
  | object | node => exact h.elim
  | _ => rfl

/-- Different references stay different. -/
theorem ref_inj {r q : Ref} : c.ref r = c.ref q ↔ r = q := by
  constructor
  · intro h
    have hindex : c.base.store.size + r.index = c.base.store.size + q.index := congrArg Ref.index h
    exact congrArg Ref.mk (Nat.add_left_cancel hindex)
  · rintro rfl
    rfl

/-! ### Objects -/

/-- What a store has under a reference is there under the new one. -/
theorem object?_store (s : Store) (r : Ref) :
    (c.store s).object? (c.ref r) = (s.object? r).map c.object := by
  have hlt : ¬c.base.store.size + r.index < c.base.store.objects.size :=
    Nat.not_lt.mpr (Nat.le_add_right _ _)
  rw [Store.object?, store, ref, Array.getElem?_append, if_neg hlt, Store.size,
    Nat.add_sub_cancel_left, Array.getElem?_map, Store.object?]

/-- What was there already is there still. -/
theorem object?_store_of_lt (s : Store) {q : Ref} (h : q.index < c.base.store.size) :
    (c.store s).object? q = c.base.store.object? q := by
  rw [Store.object?, store, Array.getElem?_append_left h, Store.object?]

/-- The objects are those that were there already and those of the store. -/
theorem size_store (s : Store) : (c.store s).size = c.base.store.size + s.size := by
  simp [store, Store.size]

/-- The next object comes behind all of them. -/
theorem fresh_store (s : Store) : (c.store s).fresh = c.ref s.fresh := by
  rw [Store.fresh, size_store]
  rfl

/-- Making an object. -/
theorem store_add (s : Store) (o : Object) : c.store (s.add o) = (c.store s).add (c.object o) := by
  simp [store, Store.add]

/-- Setting a name. Only the object that is meant changes, and it is none of those that were there
already. -/
theorem store_put (s : Store) (r : Ref) (name : String) (v : Value) :
    c.store (s.put r name v) = (c.store s).put (c.ref r) name (c.value v) := by
  have hput (o : Object) : c.object { o with entries := o.entries.put name v } =
      { c.object o with entries := (c.object o).entries.put name (c.value v) } := by
    simp only [object, Entries.map_put]
  refine congrArg Store.mk (Array.ext_getElem? fun i => ?_)
  simp only [store, ref, Store.size, Store.put]
  by_cases hi : i < c.base.store.objects.size
  · have hne : c.base.store.objects.size + r.index ≠ i := by omega
    rw [Array.getElem?_append_left hi, Array.getElem?_modify, if_neg hne,
      Array.getElem?_append_left hi]
  · obtain ⟨j, rfl⟩ := Nat.exists_eq_add_of_le (Nat.le_of_not_lt hi)
    simp only [Array.getElem?_append, Array.getElem?_modify, Array.getElem?_map, if_neg hi,
      Nat.add_sub_cancel_left, Nat.add_left_cancel_iff]
    split
    · cases s.objects[j]? with
      | none => rfl
      | some o => exact congrArg some (hput o)
    · rfl

/-- Setting names, one after another. -/
theorem store_putAll (s : Store) (r : Ref) (pairs : List (String × Value)) :
    c.store (s.putAll r pairs) =
      (c.store s).putAll (c.ref r) (pairs.map (Prod.map id c.value)) := by
  induction pairs generalizing s with
  | nil => rfl
  | cons p rest ih =>
      show c.store ((s.put r p.1 p.2).putAll r rest) = _
      rw [ih, store_put]
      rfl

/-! ### Sessions -/

/-- Nothing that was done is carried over as what was done already. -/
theorem session_empty : c.session .empty = c.base := by
  simp [session, store, Session.empty, Store.empty]

/-- Making an object in a session. -/
theorem session_add (s : Session) (o : Object) :
    c.session (s.add o) = (c.session s).add (c.object o) := by
  rw [session, Session.add, store_add]
  rfl

/-- Setting a name in a session. -/
theorem session_put (s : Session) (r : Ref) (name : String) (v : Value) :
    c.session (s.put r name v) = (c.session s).put (c.ref r) name (c.value v) := by
  rw [session, Session.put, store_put]
  rfl

/-- Entering a frame, in which names are set. -/
theorem session_enter (s : Session) (home : Ref) (names : List (String × Value)) :
    c.session (s.enter home names) =
      (c.session s).enter (c.ref home) (names.map (Prod.map id c.value)) := by
  rw [session, Session.enter, store_putAll, store_add, ← fresh_store]
  rfl

/-! ### Reading -/

/-- What a call of an object does is the same in the other session. -/
theorem action?_store (s : Store) (r : Ref) :
    (c.store s).action? (c.ref r) = (s.action? r).map c.action := by
  rw [Store.action?, object?_store, Store.action?]
  cases s.object? r <;> rfl

/-- Looking up a key in entries whose values are translated. -/
theorem lookup_map {α β : Type} (f : α → β) (entries : Entries α) (name : String) :
    (entries.map (Prod.map id f)).lookup name = (entries.lookup name).map f := by
  induction entries with
  | nil => rfl
  | cons e rest ih =>
      obtain ⟨k, a⟩ := e
      rw [List.map_cons, Prod.map, id, List.lookup_cons, List.lookup_cons, ih]
      cases name == k <;> rfl

/-- What an object owns under a name is the same in the other session. -/
theorem own?_store (s : Store) (r : Ref) (name : String) :
    (c.store s).own? (c.ref r) name = (s.own? r name).map c.value := by
  rw [Store.own?, object?_store, Store.own?]
  cases s.object? r with
  | none => rfl
  | some o => exact lookup_map c.value o.entries name

/-- The chain of parents leads through the same objects. -/
theorem chainUpTo_store (s : Store) (n : Nat) (r : Ref) :
    (c.store s).chainUpTo n (c.ref r) = (s.chainUpTo n r).map c.ref := by
  induction n generalizing r with
  | zero => rfl
  | succ n ih =>
      rw [Store.chainUpTo, object?_store, Store.chainUpTo]
      cases s.object? r with
      | none => rfl
      | some o =>
          cases hp : o.parent with
          | none => simp [object, hp]
          | some p => simp [object, hp, ih]

end Carrier

/-- A chain goes no further than to the first object, so it does not matter how far it may go. -/
theorem Store.Sealed.chainUpTo_eq {s : Store} {g r : Ref} (h : s.Sealed g) {m n : Nat}
    (hm : r.index < m) (hn : r.index < n) : s.chainUpTo m r = s.chainUpTo n r := by
  induction m generalizing r n with
  | zero => exact absurd hm (Nat.not_lt_zero _)
  | succ m ih =>
      obtain ⟨n, rfl⟩ := Nat.exists_eq_add_one_of_ne_zero (Nat.ne_zero_of_lt hn)
      rw [chainUpTo, chainUpTo]
      cases ho : s.object? r with
      | none => rfl
      | some o =>
          cases hp : o.parent with
          | none => simp [hp]
          | some p =>
              obtain ⟨-, hlt, -⟩ := (h.holds r o ho).parent p hp
              have hrest : s.chainUpTo m p = s.chainUpTo n p := ih (by omega) (by omega)
              simp [hp, hrest]

/-- A public reference is one to an object that is there. -/
theorem Store.Public.index_lt {s : Store} {r : Ref} (h : s.Public (.object r)) :
    r.index < s.size := by
  obtain ⟨o, ho, -⟩ := h
  exact index_lt_of_object? ho

namespace Carrier

/-- What a name reads as in the other session. -/
theorem read_store (c : Carrier) {s : Store} {g r : Ref} (h : s.Sealed g) (hr : r.index < s.size)
    (name : String) : (c.store s).read (c.ref r) name = c.value (s.read r name) := by
  have hchain : (c.store s).chain (c.ref r) = (s.chain r).map c.ref := by
    have hlt : r.index < c.base.store.size + s.size := by omega
    rw [Store.chain, size_store, chainUpTo_store, Store.chain, h.chainUpTo_eq hlt hr]
  have hfind (rs : List Ref) :
      (rs.map c.ref).findSome? (fun o => (c.store s).own? o name) =
        (rs.findSome? fun o => s.own? o name).map c.value := by
    induction rs with
    | nil => rfl
    | cons q rest ih =>
        rw [List.map_cons, List.findSome?_cons, own?_store, ih, List.findSome?_cons]
        cases s.own? q name <;> rfl
  rw [Store.read, hchain, hfind, Store.read]
  cases (s.chain r).findSome? fun o => s.own? o name <;> rfl

end Carrier

end Scriptlet
