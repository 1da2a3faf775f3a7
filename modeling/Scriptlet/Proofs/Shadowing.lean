import Mathlib.Data.List.Perm.Subperm
import Scriptlet.Proofs.Persistence

/-!
# Nearer Objects Hide Outer Ones

Reading a name goes up the chain of parents and stops at the first object that owns the name,
whatever value it has there. So what setting a name changes is seen from an object exactly if the
object that was set is the first owner on the chain, and a name that a nearer object owns is hidden
further out even where it is `undefined`.

`Store.chain` is cut off at the number of objects, since parents might go round in a circle. A chain
that ends is a `Store.Lineage`, without a bound. No object is on it twice, so the objects on it are
not more than there are, and cutting it off takes no owner away (`Store.Lineage.read_eq`).

## Main definitions

* `Store.Lineage`: an object and its ancestors, as far as they go.
* `Store.owns`: whether an object owns a name.

## Main results

* `Store.own?_put_self`, `Store.own?_put_of_ne`, `Store.own?_put_of_ref_ne`: what setting a name
  does to each name that an object owns.
* `Store.Lineage.read_eq`: reading looks at all of the chain.
* `Store.Lineage.read_put`: the law of shadowing.
-/

namespace Scriptlet

namespace Store

variable {s : Store} {r q p reader : Ref} {chain : List Ref} {name : String} {v : Value}

/-! ### Names that an object owns -/

/-- Whether an object owns a name. -/
def owns (s : Store) (name : String) (r : Ref) : Bool := (s.own? r name).isSome

/-- What has been set is owned from then on, with the value that was set. -/
theorem own?_put_self (s : Store) (r : Ref) (name : String) (v : Value) :
    (s.put r name v).own? r name = (s.object? r).map fun _ => v := by
  rw [own?, object?_put_self]
  cases s.object? r with
  | none => rfl
  | some o => exact Entries.lookup_put_self o.entries name v

theorem own?_put_of_ne (s : Store) (r q : Ref) {name other : String} (h : other ≠ name)
    (v : Value) : (s.put r name v).own? q other = s.own? q other := by
  by_cases hq : q = r
  · subst hq
    rw [own?, own?, object?_put_self, Option.bind_map]
    refine congrArg (s.object? q).bind (funext fun o => ?_)
    exact Entries.lookup_put_of_ne o.entries h v
  · rw [own?, own?, object?_put_of_ne s hq]

theorem own?_put_of_ref_ne (s : Store) {r q : Ref} (h : q ≠ r) (name other : String) (v : Value) :
    (s.put r name v).own? q other = s.own? q other := by
  rw [own?, own?, object?_put_of_ne s h]

/-- Setting a name takes no name away from any object. -/
theorem own?_eq_none_of_put (h : (s.put r name v).own? q name = none) : s.own? q name = none := by
  by_cases hq : q = r
  · subst hq
    rw [own?_put_self, Option.map_eq_none_iff] at h
    rw [own?, h, Option.bind_none]
  · rwa [own?_put_of_ref_ne s hq] at h

/-- Among some objects, the first one that owns a name is the one whose value counts. -/
theorem findSome?_own? (h : chain.find? (s.owns name) = some q) :
    (chain.findSome? fun o => s.own? o name) = s.own? q name := by
  induction chain with
  | nil => cases h
  | cons o rest ih =>
      rw [List.findSome?_cons]
      cases ho : s.own? o name with
      | none =>
          have hnot : s.owns name o = false := by rw [owns, ho, Option.isSome_none]
          rw [List.find?_cons_of_neg (by simp [hnot])] at h
          exact ih h
      | some w =>
          have howns : s.owns name o = true := by rw [owns, ho, Option.isSome_some]
          rw [List.find?_cons_of_pos howns] at h
          obtain rfl := Option.some.inj h
          exact ho.symm

/-- Setting a name is seen among some objects if the object that was set is the first that then
owns the name, and only then. -/
theorem findSome?_own?_put (s : Store) (r : Ref) (name : String) (v : Value) (chain : List Ref) :
    (chain.findSome? fun o => (s.put r name v).own? o name) =
      if chain.find? ((s.put r name v).owns name) = some r then some v
      else chain.findSome? fun o => s.own? o name := by
  induction chain with
  | nil => rfl
  | cons o rest ih =>
      cases ho : (s.put r name v).own? o name with
      | none =>
          have hnot : (s.put r name v).owns name o = false := by rw [owns, ho, Option.isSome_none]
          have hbefore : s.own? o name = none := own?_eq_none_of_put ho
          rw [List.findSome?_cons, ho, List.find?_cons_of_neg (by simp [hnot]), List.findSome?_cons,
            hbefore]
          exact ih
      | some w =>
          have howns : (s.put r name v).owns name o = true := by rw [owns, ho, Option.isSome_some]
          rw [List.findSome?_cons, ho, List.find?_cons_of_pos howns]
          by_cases hr : o = r
          · subst hr
            rw [own?_put_self] at ho
            obtain ⟨_, -, hw⟩ := Option.map_eq_some_iff.mp ho
            rw [if_pos rfl, hw]
          · have hbefore : s.own? o name = some w := by
              rwa [own?_put_of_ref_ne s hr] at ho
            rw [if_neg fun h => hr (Option.some.inj h), List.findSome?_cons, hbefore]

/-- What an object owns itself is what is read from it. -/
theorem read_of_own? (h : s.own? r name = some v) : s.read r name = v := by
  have hpos : 0 < s.size := by
    obtain ⟨o, ho, -⟩ := Option.bind_eq_some_iff.mp h
    exact Nat.zero_lt_of_lt (index_lt_of_object? ho)
  obtain ⟨n, hn⟩ := Nat.exists_eq_add_one_of_ne_zero (Nat.ne_of_gt hpos)
  have hfirst : ∃ outer, s.chain r = r :: outer := by
    rw [chain, hn, chainUpTo]
    split
    · exact ⟨[], rfl⟩
    · exact ⟨_, rfl⟩
  obtain ⟨outer, houter⟩ := hfirst
  rw [read, houter, List.findSome?_cons, h, Option.getD_some]

/-! ### Chains that end -/

/-- Objects of which none is met twice are not more than there are. -/
theorem length_le_size {within : List Ref} (hn : within.Nodup)
    (hv : ∀ q ∈ within, q.index < s.size) : within.length ≤ s.size := by
  have hindices : (within.map Ref.index).Nodup :=
    List.Pairwise.map Ref.index (fun r q hne hi => hne (congrArg Ref.mk hi)) hn
  have hrange : within.map Ref.index ⊆ List.range s.size := by
    intro i hi
    obtain ⟨q, hq, rfl⟩ := List.mem_map.mp hi
    exact List.mem_range.mpr (hv q hq)
  have hlength := (List.subperm_of_subset hindices hrange).length_le
  rwa [List.length_map, List.length_range] at hlength

/-- The parent of an object, if there is the object and it has one. -/
def parent? (s : Store) (r : Ref) : Option Ref := (s.object? r).bind Object.parent

/-- Setting a name keeps all parents. -/
@[simp] theorem parent?_put (s : Store) (r q : Ref) (name : String) (v : Value) :
    (s.put r name v).parent? q = s.parent? q := by
  by_cases hq : q = r
  · subst hq
    rw [parent?, parent?, object?_put_self, Option.bind_map]
    rfl
  · rw [parent?, parent?, object?_put_of_ne s hq]

/-- An object and its ancestors, itself first, up to one that has no parent. -/
inductive Lineage (s : Store) : Ref → List Ref → Prop
  | root {r : Ref} (h : s.parent? r = none) : Lineage s r [r]
  | inside {r p : Ref} {chain : List Ref} (h : s.parent? r = some p) (outer : Lineage s p chain) :
      Lineage s r (r :: chain)

namespace Lineage

/-- An object has one chain at most. -/
theorem unique {chain' : List Ref} (h : s.Lineage r chain) (h' : s.Lineage r chain') :
    chain = chain' := by
  induction h generalizing chain' with
  | root hp =>
      cases h' with
      | root => rfl
      | inside hp' => rw [hp] at hp'; cases hp'
  | inside hp _ ih =>
      cases h' with
      | root hp' => rw [hp] at hp'; cases hp'
      | inside hp' outer =>
          rw [hp] at hp'
          obtain rfl := Option.some.inj hp'
          rw [ih outer]

/-- An ancestor's chain is the rest of the chain that it is on. -/
theorem exists_suffix (h : s.Lineage r chain) (hq : q ∈ chain) :
    ∃ outer, s.Lineage q outer ∧ outer <:+ chain := by
  induction h with
  | root hp =>
      obtain rfl := List.mem_singleton.mp hq
      exact ⟨_, .root hp, List.suffix_rfl⟩
  | inside hp outer ih =>
      rcases List.mem_cons.mp hq with rfl | hq
      · exact ⟨_, .inside hp outer, List.suffix_rfl⟩
      · obtain ⟨rest, hrest, hsuffix⟩ := ih hq
        exact ⟨rest, hrest, hsuffix.trans (List.suffix_cons _ _)⟩

/-- No object is on its own chain twice, since it would have a shorter chain than its own. -/
theorem nodup (h : s.Lineage r chain) : chain.Nodup := by
  induction h with
  | root => exact List.pairwise_singleton _ _
  | @inside r p chain hp outer ih =>
      refine List.nodup_cons.mpr ⟨fun hmem => ?_, ih⟩
      obtain ⟨rest, hrest, hsuffix⟩ := outer.exists_suffix hmem
      have hlength := hsuffix.length_le
      rw [hrest.unique (.inside hp outer), List.length_cons] at hlength
      omega

/-- Setting a name keeps all chains. -/
theorem put (h : s.Lineage reader chain) (r : Ref) (name : String) (v : Value) :
    (s.put r name v).Lineage reader chain := by
  induction h with
  | root hp => exact .root (by rwa [parent?_put])
  | inside hp _ ih => exact .inside (by rwa [parent?_put]) ih

/-- Going up as many steps as there are objects on the chain finds what is owned on it. A parent
need not be an object, and if it is none it owns nothing. -/
theorem findSome?_chainUpTo (h : s.Lineage r chain) (name : String) {n : Nat}
    (hn : (chain.filter fun q => (s.object? q).isSome).length ≤ n) :
    ((s.chainUpTo n r).findSome? fun o => s.own? o name) =
      chain.findSome? fun o => s.own? o name := by
  induction h generalizing n with
  | @root r hp =>
      cases n with
      | succ n => rw [chainUpTo, show (s.object? r).bind Object.parent = none from hp]
      | zero =>
          have ho : s.object? r = none := by
            cases ho : s.object? r with
            | none => rfl
            | some o => simp [ho] at hn
          have hown : s.own? r name = none := by rw [own?, ho, Option.bind_none]
          rw [chainUpTo, List.findSome?_cons, hown]
  | @inside r p chain hp outer ih =>
      obtain ⟨o, ho, -⟩ := Option.bind_eq_some_iff.mp hp
      have hr : (s.object? r).isSome = true := by rw [ho, Option.isSome_some]
      rw [List.filter_cons, if_pos hr, List.length_cons] at hn
      obtain ⟨n, rfl⟩ := Nat.exists_eq_add_one_of_ne_zero (n := n) (by omega)
      rw [chainUpTo, show (s.object? r).bind Object.parent = some p from hp]
      dsimp only
      rw [List.findSome?_cons, List.findSome?_cons, ih (by omega)]

/-- **Reading looks at all of a chain that ends**, and finds the first object that owns the name. -/
theorem read_eq (h : s.Lineage reader chain) (name : String) :
    s.read reader name = (chain.findSome? fun o => s.own? o name).getD .undefined := by
  have hbound : (chain.filter fun q => (s.object? q).isSome).length ≤ s.size := by
    refine length_le_size (h.nodup.filter _) fun q hq => ?_
    obtain ⟨o, ho⟩ := Option.isSome_iff_exists.mp (List.mem_filter.mp hq).2
    exact index_lt_of_object? ho
  rw [read, Store.chain, h.findSome?_chainUpTo name hbound]

/-- **The law of shadowing.** After a name is set in an object, it reads as the new value from those
objects for which that object is the first on their chain that then owns the name; from any other
object, and under any other name, what is read is what it was. Whatever value the first owner of a
name has, `undefined` included, it is the one that is read. -/
theorem read_put (h : s.Lineage reader chain) (r : Ref) (name other : String) (v : Value) :
    ((s.put r name v).Lineage reader chain ∧
      (s.put r name v).read reader other =
        if other = name ∧ chain.find? ((s.put r name v).owns name) = some r then v
        else s.read reader other) ∧
    ∀ q w, chain.find? (s.owns other) = some q → s.own? q other = some w →
      s.read reader other = w := by
  refine ⟨⟨h.put r name v, ?_⟩, fun q w hq hw => ?_⟩
  · rw [(h.put r name v).read_eq, h.read_eq]
    by_cases hname : other = name
    · subst hname
      rw [findSome?_own?_put]
      by_cases hfirst : chain.find? ((s.put r other v).owns other) = some r
      · rw [if_pos hfirst, if_pos ⟨rfl, hfirst⟩, Option.getD_some]
      · rw [if_neg hfirst, if_neg fun hand => hfirst hand.2]
    · rw [if_neg fun hand => hname hand.1]
      simp only [own?_put_of_ne s r _ hname]
  · rw [h.read_eq, findSome?_own? hq, hw, Option.getD_some]

end Lineage

/-- A frame inside a frame inside the outermost one, with a name that is `undefined` in the middle
and has a value outside. -/
def nested : Store :=
  ⟨#[⟨"env", none, none, [("x", .integer 1)]⟩, ⟨"env", some ⟨0⟩, none, [("x", .undefined)]⟩,
    .frame (some ⟨1⟩)]⟩

theorem lineage_nested : nested.Lineage ⟨2⟩ [⟨2⟩, ⟨1⟩, ⟨0⟩] :=
  .inside rfl (.inside rfl (.root rfl))

/-- Seen from inside, setting the name in the outermost frame changes nothing, and setting it in the
middle does. -/
theorem read_put_nested : nested.Lineage ⟨2⟩ [⟨2⟩, ⟨1⟩, ⟨0⟩] ∧
    nested.own? ⟨0⟩ "x" = some (.integer 1) ∧
    (nested.put ⟨0⟩ "x" (.integer 5)).read ⟨2⟩ "x" = .undefined ∧
    (nested.put ⟨1⟩ "x" (.integer 5)).read ⟨2⟩ "x" = .integer 5 := by
  have houter := lineage_nested.read_put ⟨0⟩ "x" "x" (.integer 5)
  have hmiddle := lineage_nested.read_put ⟨1⟩ "x" "x" (.integer 5)
  refine ⟨lineage_nested, rfl, ?_, ?_⟩
  · rw [houter.1.2, if_neg (by decide)]
    exact houter.2 ⟨1⟩ .undefined (by decide) rfl
  · rw [hmiddle.1.2, if_pos (by decide)]

end Store

end Scriptlet
