/-!
# Entries in Order of Arrival

A list of named entries, as objects and object literals keep them. An entry stands where its
name first arrived; putting a name again replaces the entry's content and keeps its place.

## Main results

* `lookup_put_self`, `lookup_put_of_ne`: what `put` does to each name.
* `names_put`: the names after `put`.
* `nodup_names_ofList`: entries built by `put` alone have different names.
* `mem_of_mem_ofList`: they are all among those that were put.
-/

namespace Scriptlet

/-- Named entries in order of arrival. -/
abbrev Entries (α : Type) := List (String × α)

namespace Entries

variable {α : Type}

/-- The entries' names, in order. -/
def names (entries : Entries α) : List String := entries.map Prod.fst

/-- Sets the entry of a name, in its place if there is one and at the end otherwise. -/
def put : Entries α → String → α → Entries α
  | [], name, a => [(name, a)]
  | (k, b) :: rest, name, a =>
    if k = name then (k, a) :: rest else (k, b) :: put rest name a

/-- The entries that putting pairs one after another leaves. -/
def ofList (pairs : List (String × α)) : Entries α :=
  pairs.foldl (fun entries p => entries.put p.1 p.2) []

theorem lookup_put_self (entries : Entries α) (name : String) (a : α) :
    (entries.put name a).lookup name = some a := by
  induction entries with
  | nil => simp [put]
  | cons e rest ih =>
    obtain ⟨k, b⟩ := e
    by_cases h : k = name
    · simp [put, h]
    · have h' : (name == k) = false := beq_eq_false_iff_ne.mpr (Ne.symm h)
      simp [put, h, List.lookup_cons, h', ih]

theorem lookup_put_of_ne (entries : Entries α) {name other : String} (h : other ≠ name)
    (a : α) : (entries.put name a).lookup other = entries.lookup other := by
  have h' : (other == name) = false := beq_eq_false_iff_ne.mpr h
  induction entries with
  | nil => simp [put, List.lookup_cons, h']
  | cons e rest ih =>
    obtain ⟨k, b⟩ := e
    by_cases g : k = name
    · simp [put, g, List.lookup_cons, h']
    · simp [put, g, List.lookup_cons, ih]

/-- Putting a name that has an entry keeps the names; a new name comes last. -/
theorem names_put (entries : Entries α) (name : String) (a : α) :
    (entries.put name a).names =
      if name ∈ entries.names then entries.names else entries.names ++ [name] := by
  unfold names
  induction entries with
  | nil => rfl
  | cons e rest ih =>
    by_cases g : e.1 = name
    · simp [put, g]
    · have g' : name ≠ e.1 := Ne.symm g
      by_cases m : name ∈ rest.map Prod.fst
      · rw [if_pos m] at ih
        rw [if_pos (by simpa using Or.inr (by simpa using m))]
        simp [put, g, ih]
      · rw [if_neg m] at ih
        rw [if_neg (by simpa [g'] using m)]
        simp [put, g, ih]

theorem nodup_names_put {entries : Entries α} (h : entries.names.Nodup) (name : String)
    (a : α) : (entries.put name a).names.Nodup := by
  rw [names_put]
  split
  · exact h
  next hn =>
    refine List.nodup_append.mpr ⟨h, by simp, fun x hx y hy e => hn ?_⟩
    rw [List.mem_singleton] at hy
    exact hy ▸ e ▸ hx

/-- Entries built by `put` alone have different names. -/
theorem nodup_names_ofList (pairs : List (String × α)) : (ofList pairs).names.Nodup := by
  suffices h : ∀ entries : Entries α, entries.names.Nodup →
      (pairs.foldl (fun entries p => entries.put p.1 p.2) entries).names.Nodup from
    h [] List.nodup_nil
  induction pairs with
  | nil => exact fun _ h => h
  | cons p rest ih => exact fun entries h => ih _ (nodup_names_put h p.1 p.2)

/-- Putting an entry brings in no other one. -/
theorem exists_mem_of_mem_put {entries : Entries α} {name : String} {a : α} {e : String × α}
    (h : e ∈ entries.put name a) : e ∈ entries ∨ e = (name, a) := by
  induction entries with
  | nil => exact .inr (by simpa [put] using h)
  | cons f rest ih =>
    obtain ⟨k, b⟩ := f
    by_cases hk : k = name
    · rw [put, if_pos hk] at h
      rcases List.mem_cons.mp h with rfl | h
      · exact .inr (by rw [hk])
      · exact .inl (List.mem_cons_of_mem _ h)
    · rw [put, if_neg hk] at h
      rcases List.mem_cons.mp h with rfl | h
      · exact .inl List.mem_cons_self
      · exact (ih h).imp_left (List.mem_cons_of_mem _)

/-- Entries built by `put` alone are among those that were put. -/
theorem mem_of_mem_ofList {pairs : List (String × α)} {e : String × α} (h : e ∈ ofList pairs) :
    e ∈ pairs := by
  suffices hfold : ∀ entries : Entries α,
      e ∈ pairs.foldl (fun entries p => entries.put p.1 p.2) entries → e ∈ entries ∨ e ∈ pairs from
    (hfold [] h).resolve_left List.not_mem_nil
  clear h
  induction pairs with
  | nil => exact fun _ h => .inl h
  | cons p rest ih =>
    intro entries h
    rcases ih _ h with h | h
    · rcases exists_mem_of_mem_put h with h | rfl
      · exact .inl h
      · exact .inr List.mem_cons_self
    · exact .inr (List.mem_cons_of_mem _ h)

end Entries

end Scriptlet
