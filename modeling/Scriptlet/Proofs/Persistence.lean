import Scriptlet.Store

/-!
# What Never Changes in a Store

Objects are never removed, and setting a name changes nothing of an object but its entries: an
object keeps its own name, its parent and its action, and the names that it owns keep their
order. One store *grows* into another if that holds of every object of it. Whatever is said of an
object by these alone stays true from then on.

## Main results

* `Store.Grows.refl`, `Store.Grows.trans`: growth is a preorder.
* `Store.grows_add`, `Store.grows_put`, `Store.grows_putAll`: every operation makes a store grow.
-/

namespace Scriptlet

/-- Whether an object is a later state of another: only entries were added or replaced. -/
structure Object.Persists (o o' : Object) : Prop where
  name : o'.name = o.name
  parent : o'.parent = o.parent
  action : o'.action = o.action
  names : o.entries.names <+: o'.entries.names

/-- Every object persists as itself. -/
theorem Object.Persists.refl (o : Object) : o.Persists o := ⟨rfl, rfl, rfl, List.prefix_rfl⟩

/-- What persists in what persists has persisted. -/
theorem Object.Persists.trans {o₁ o₂ o₃ : Object} (h : o₁.Persists o₂) (h' : o₂.Persists o₃) :
    o₁.Persists o₃ :=
  ⟨h'.name.trans h.name, h'.parent.trans h.parent, h'.action.trans h.action,
    h.names.trans h'.names⟩

/-- Setting a name keeps the names that were there, in their order. -/
theorem Object.persists_put (o : Object) (name : String) (v : Value) :
    o.Persists { o with entries := o.entries.put name v } := by
  refine ⟨rfl, rfl, rfl, ?_⟩
  show o.entries.names <+: (Entries.put o.entries name v).names
  rw [Entries.names_put]
  split
  · exact List.prefix_rfl
  · exact List.prefix_append _ _

namespace Store

/-- Whether a store is a later state of another. -/
def Grows (s t : Store) : Prop :=
  ∀ r o, s.object? r = some o → ∃ o', t.object? r = some o' ∧ o.Persists o'

variable {s t u : Store}

/-- Every store has grown out of itself. -/
theorem Grows.refl (s : Store) : s.Grows s := fun _ o h => ⟨o, h, .refl o⟩

/-- A store may grow in steps. -/
theorem Grows.trans (h : s.Grows t) (h' : t.Grows u) : s.Grows u := by
  intro r o hr
  obtain ⟨o', hr', ho⟩ := h r o hr
  obtain ⟨o'', hr'', ho'⟩ := h' r o' hr'
  exact ⟨o'', hr'', ho.trans ho'⟩

/-- A reference to an object is older than the next one. -/
theorem index_lt_of_object? {r : Ref} {o : Object} (h : s.object? r = some o) :
    r.index < s.size :=
  (Array.getElem?_eq_some_iff.mp h).1

/-- What a store holds after adding an object. -/
theorem object?_add_eq_some {r : Ref} {o o' : Object} (h : (s.add o).object? r = some o') :
    s.object? r = some o' ∨ r = s.fresh ∧ o' = o := by
  by_cases hr : r = s.fresh
  · subst hr
    rw [object?_add_self] at h
    exact .inr ⟨rfl, (Option.some.inj h).symm⟩
  · rw [object?_add_of_ne s o hr] at h
    exact .inl h

/-- An object that is there stays the same when another one is added. -/
theorem object?_add_of_object? {r : Ref} {o o' : Object} (h : s.object? r = some o') :
    (s.add o).object? r = some o' := by
  have hne : r ≠ s.fresh := by
    rintro rfl
    exact absurd (index_lt_of_object? h) (Nat.lt_irrefl _)
  rw [object?_add_of_ne s o hne, h]

/-- What a store holds after setting a name. -/
theorem object?_put_eq_some {r q : Ref} {name : String} {v : Value} {o' : Object}
    (h : (s.put r name v).object? q = some o') :
    ∃ o, s.object? q = some o ∧
      (o' = o ∨ q = r ∧ o' = { o with entries := o.entries.put name v }) := by
  by_cases hq : q = r
  · subst hq
    rw [object?_put_self, Option.map_eq_some_iff] at h
    obtain ⟨o, ho, rfl⟩ := h
    exact ⟨o, ho, .inr ⟨rfl, rfl⟩⟩
  · rw [object?_put_of_ne s hq] at h
    exact ⟨o', h, .inl rfl⟩

/-- A store grows by a new object. -/
theorem grows_add (s : Store) (o : Object) : s.Grows (s.add o) :=
  fun _ o' h => ⟨o', object?_add_of_object? h, .refl o'⟩

/-- A store grows by a name that is set. -/
theorem grows_put (s : Store) (r : Ref) (name : String) (v : Value) : s.Grows (s.put r name v) := by
  intro q o hq
  by_cases hr : q = r
  · subst hr
    exact ⟨_, by rw [object?_put_self, hq]; rfl, o.persists_put name v⟩
  · exact ⟨o, by rw [object?_put_of_ne s hr, hq], .refl o⟩

/-- A store grows by names that are set one after another. -/
theorem grows_putAll (s : Store) (r : Ref) (pairs : List (String × Value)) :
    s.Grows (s.putAll r pairs) := by
  induction pairs generalizing s with
  | nil => exact .refl s
  | cons p rest ih => exact (s.grows_put r p.1 p.2).trans (ih (s.put r p.1 p.2))

/-! ### What calling objects does -/

/-- Setting a name changes no action. -/
theorem action?_put (s : Store) (r q : Ref) (name : String) (v : Value) :
    (s.put r name v).action? q = s.action? q := by
  by_cases hq : q = r
  · subst hq
    rw [action?, action?, object?_put_self, Option.bind_map]
    rfl
  · rw [action?, action?, object?_put_of_ne s hq]

/-- What calling an object does that has just been added, or any other. -/
theorem action?_add_eq_some {r : Ref} {o : Object} {a : Action}
    (h : (s.add o).action? r = some a) :
    s.action? r = some a ∨ r = s.fresh ∧ o.action = some a := by
  obtain ⟨o', ho', ha⟩ := Option.bind_eq_some_iff.mp h
  rcases object?_add_eq_some ho' with ho | ⟨rfl, rfl⟩
  · exact .inl (Option.bind_eq_some_iff.mpr ⟨o', ho, ha⟩)
  · exact .inr ⟨rfl, ha⟩

/-- A new object changes no action. -/
theorem action?_add {r : Ref} {o : Object} {a : Action} (h : s.action? r = some a) :
    (s.add o).action? r = some a := by
  obtain ⟨o', ho', ha⟩ := Option.bind_eq_some_iff.mp h
  exact Option.bind_eq_some_iff.mpr ⟨o', object?_add_of_object? ho', ha⟩

/-- Setting names changes no action. -/
theorem action?_putAll (s : Store) (r q : Ref) (pairs : List (String × Value)) :
    (s.putAll r pairs).action? q = s.action? q := by
  induction pairs generalizing s with
  | nil => rfl
  | cons p rest ih => exact (ih (s.put r p.1 p.2)).trans (action?_put s r q p.1 p.2)

end Store

end Scriptlet
