import Scriptlet.Builtin
import Scriptlet.Entries
import Scriptlet.Node

/-!
# The Store

Records, functions and environment frames are all *objects*: named, with entries in order of
arrival, and possibly with a parent and with an action. A function has an action, a frame has
the frame around it as its parent, and a record has neither.

Objects are never removed, so a `Ref` stays good; only their entries change. Reading a name
goes from an object to its parent until one owns the name, and a name that none owns reads as
`undefined`; setting a name touches the object alone.

## Main definitions

* `Store.add`, `Store.put`: a new object, and a new or replaced entry.
* `Store.chain`: an object and its ancestors.
* `Store.read`: what a name reads as, from an object.
* `Store.addGlobal`: a fresh global frame with the built-in functions.
-/

namespace Scriptlet

/-- What calling an object does. -/
inductive Action
  /-- Runs a body in a new frame inside the frame where the function was made. -/
  | closure (parameters : List String) (body : Node) (home : Ref)
  /-- Computes a built-in function. -/
  | builtin (function : Builtin)
  /-- Answers a value, whatever the arguments. -/
  | constant (value : Value)

/-- An object of the store. -/
structure Object where
  /-- The object's own name; a function has the name it was made under. -/
  name : String
  /-- Where reading goes on when the object does not own a name. -/
  parent : Option Ref
  /-- What calling the object does; none if it cannot be called. -/
  action : Option Action
  /-- The names the object owns, with their values. -/
  entries : Entries Value

namespace Object

/-- An environment frame inside `parent`, empty. -/
def frame (parent : Option Ref) : Object := ⟨"env", parent, none, []⟩

/-- A record, empty. -/
def record (parent : Option Ref) : Object := ⟨"object", parent, none, []⟩

/-- A function. -/
def function (name : String) (action : Action) : Object := ⟨name, none, some action, []⟩

/-- Whether the object can be called. -/
def callable (o : Object) : Bool := o.action.isSome

end Object

/-- All objects there are, in the order in which they were made. -/
structure Store where
  /-- The objects; a `Ref` is a place among them. -/
  objects : Array Object

namespace Store

/-- The store without objects. -/
def empty : Store := ⟨#[]⟩

/-- The number of objects. -/
def size (s : Store) : Nat := s.objects.size

/-- The object a reference stands for. -/
def object? (s : Store) (r : Ref) : Option Object := s.objects[r.index]?

/-- The reference that the next new object gets. -/
def fresh (s : Store) : Ref := ⟨s.size⟩

/-- The store with one more object, which `fresh` refers to. -/
def add (s : Store) (o : Object) : Store := ⟨s.objects.push o⟩

/-- The store after setting a name in an object. -/
def put (s : Store) (r : Ref) (name : String) (v : Value) : Store :=
  ⟨s.objects.modify r.index fun o => { o with entries := o.entries.put name v }⟩

/-- The store after setting names in an object, one after another. -/
def putAll (s : Store) (r : Ref) (pairs : List (String × Value)) : Store :=
  pairs.foldl (fun s p => s.put r p.1 p.2) s

/-- The value of a name that an object owns itself. -/
def own? (s : Store) (r : Ref) (name : String) : Option Value :=
  (s.object? r).bind fun o => o.entries.lookup name

/-- The names an object owns, in order. -/
def names (s : Store) (r : Ref) : List String :=
  ((s.object? r).map fun o => o.entries.names).getD []

/-- At most `n` objects of an object's chain of parents, itself first. -/
def chainUpTo (s : Store) : (n : Nat) → Ref → List Ref
  | 0, _ => []
  | n + 1, r =>
    match (s.object? r).bind Object.parent with
    | none => [r]
    | some p => r :: s.chainUpTo n p

/-- An object and its ancestors, from the inside out. A chain that ends has no object twice,
so it is not longer than the store. -/
def chain (s : Store) (r : Ref) : List Ref := s.chainUpTo s.size r

/-- What a name reads as from an object: the value in the first object of its chain that owns
the name. -/
def read (s : Store) (r : Ref) (name : String) : Value :=
  ((s.chain r).findSome? fun o => s.own? o name).getD .undefined

/-- What calling an object does. -/
def action? (s : Store) (r : Ref) : Option Action :=
  (s.object? r).bind Object.action

/-- The store with a new global frame, which `fresh` refers to. The frame owns itself under
`global`, and every built-in function under its name. -/
def addGlobal (s : Store) : Store :=
  Builtin.all.foldl
    (fun t b => (t.add (.function b.name (.builtin b))).put s.fresh b.name (.object t.fresh))
    ((s.add (.frame none)).put s.fresh "global" (.object s.fresh))

/-! ### What the operations do to each object -/

/-- A new object is there under the fresh reference. -/
theorem object?_add_self (s : Store) (o : Object) : (s.add o).object? s.fresh = some o := by
  simp [add, object?, fresh, size]

/-- A new object changes no other one. -/
theorem object?_add_of_ne (s : Store) (o : Object) {r : Ref} (h : r ≠ s.fresh) :
    (s.add o).object? r = s.object? r := by
  have : r.index ≠ s.objects.size := fun e => h (by cases r; simp_all [fresh, size])
  simp [add, object?, Array.getElem?_push, this]

/-- Setting a name makes no object. -/
@[simp] theorem size_put (s : Store) (r : Ref) (name : String) (v : Value) :
    (s.put r name v).size = s.size := by
  simp [put, size]

/-- Setting a name changes the entries of the object, if there is one. -/
theorem object?_put_self (s : Store) (r : Ref) (name : String) (v : Value) :
    (s.put r name v).object? r =
      (s.object? r).map fun o => { o with entries := o.entries.put name v } := by
  simp [put, object?, Array.getElem?_modify]

/-- Setting a name changes no other object. -/
theorem object?_put_of_ne (s : Store) {r q : Ref} (h : q ≠ r) (name : String) (v : Value) :
    (s.put r name v).object? q = s.object? q := by
  have : r.index ≠ q.index := fun e => h (by cases r; cases q; simp_all)
  simp [put, object?, Array.getElem?_modify, this]

end Store

end Scriptlet
