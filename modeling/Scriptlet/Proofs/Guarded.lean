import Scriptlet.Proofs.Idle
import Scriptlet.Proofs.Regular
import Scriptlet.Proofs.Shadowing

/-!
# Guarded Stores

The function of an operator is an object like any other, bound to the operator's symbol in the
global frame. A store is *guarded* while every frame reads the symbol as that object: the global
frame has it, no other frame owns the symbol, and no value leads to the object, so that no script
can hand it on, call it or set it anew.

What the single operations preserve is shown here. The names that a regular node sets are ordinary,
and so are the values that it has; what evaluations preserve is shown from it in
`Scriptlet.Proofs.Operators`.

## Main definitions

* `Operator.installed`: the function of an operator that the first global frame is given.
* `Value.Ordinary`: the values that are no operator's function.
* `Store.Guarded`: the invariant.

## Main results

* `Store.Guarded.add`, `Store.Guarded.put`: a new object, and a new entry.
* `Store.Guarded.read_symbol`: every frame reads a symbol as the operator's function.
* `Store.Guarded.ordinary_read`: any other name reads as an ordinary value.
* `Store.guarded_addGlobal`: the store that a run begins with.
-/

namespace Scriptlet

/-- The function of an operator that the first global frame is given. -/
def Operator.installed (op : Operator) : Ref := ⟨Builtin.all.idxOf (.operator op) + 1⟩

/-- Whether a value is no operator's function. -/
def Value.Ordinary (v : Value) : Prop := ∀ op : Operator, v ≠ .object op.installed

/-- A value of a program is ordinary. -/
theorem Value.Plain.ordinary {v : Value} (h : v.Plain) : v.Ordinary := by
  rintro op rfl
  exact h

namespace Store

/-- Whether operators are out of reach in a store with the global frame `g`. -/
structure Guarded (g : Ref) (s : Store) : Prop where
  own : ∀ op : Operator, s.own? g op.symbol = some (.object op.installed)
  installed : ∀ op : Operator, s.action? op.installed = some (.builtin (.operator op))
  action : ∀ r op, s.action? r = some (.builtin (.operator op)) → r = op.installed
  entries : ∀ r o, s.object? r = some o → ∀ e ∈ o.entries,
    e.2.Ordinary ∨ r = g ∧ ¬Scriptlet.Ordinary e.1
  frames : ∀ r, s.IsFrame r → r ≠ g → ∀ op : Operator, s.own? r op.symbol = none
  closure : ∀ r parameters body home, s.action? r = some (.closure parameters body home) →
    body.Regular ∧ ∀ p ∈ parameters, Scriptlet.Ordinary p
  constant : ∀ r v, s.action? r = some (.constant v) → v.Ordinary

variable {s : Store} {g r : Ref}

/-! ### What the operations do -/

/-- Setting a name makes no frame. -/
theorem isFrame_of_put {name : String} {v : Value} {q : Ref} (h : (s.put r name v).IsFrame q) :
    s.IsFrame q := by
  obtain ⟨o', ho', hn, ha⟩ := h
  obtain ⟨o, ho, rfl | ⟨-, rfl⟩⟩ := object?_put_eq_some ho'
  · exact ⟨o', ho, hn, ha⟩
  · exact ⟨o, ho, hn, ha⟩

/-- What can be called is no new object. -/
theorem ne_fresh_of_action? {a : Action} (h : s.action? r = some a) : r ≠ s.fresh := by
  rintro rfl
  obtain ⟨o, ho, -⟩ := Option.bind_eq_some_iff.mp h
  exact absurd (index_lt_of_object? ho) (Nat.lt_irrefl _)

/-- A new object leaves the names of the others. -/
theorem own?_add_of_ne {o : Object} (h : r ≠ s.fresh) (name : String) :
    (s.add o).own? r name = s.own? r name := by
  rw [own?, own?, object?_add_of_ne s o h]

namespace Guarded

/-- A new object that is empty, and neither an operator nor a function that misuses one. -/
theorem add (h : s.Guarded g) {o : Object} (he : o.entries = [])
    (hb : ∀ op, o.action ≠ some (.builtin (.operator op)))
    (hc : ∀ parameters body home, o.action = some (.closure parameters body home) →
      body.Regular ∧ ∀ p ∈ parameters, Scriptlet.Ordinary p)
    (hv : ∀ v, o.action ≠ some (.constant v)) : (s.add o).Guarded g where
  own := fun op => by
    have hne : g ≠ s.fresh := by
      rintro rfl
      obtain ⟨o', ho', -⟩ := Option.bind_eq_some_iff.mp (h.own op)
      exact absurd (index_lt_of_object? ho') (Nat.lt_irrefl _)
    rw [own?_add_of_ne hne]
    exact h.own op
  installed := fun op => action?_add (h.installed op)
  action := fun r op ha => by
    rcases action?_add_eq_some ha with ha | ⟨-, ha⟩
    · exact h.action r op ha
    · exact absurd ha (hb op)
  entries := fun r o' ho' e hmem => by
    rcases object?_add_eq_some ho' with ho | ⟨-, rfl⟩
    · exact h.entries r o' ho e hmem
    · rw [he] at hmem
      exact absurd hmem List.not_mem_nil
  frames := fun r hr hg op => by
    by_cases hne : r = s.fresh
    · subst hne
      rw [own?, object?_add_self, Option.bind_some, he]
      rfl
    · obtain ⟨o', ho', hf⟩ := hr
      rw [object?_add_of_ne s o hne] at ho'
      rw [own?_add_of_ne hne]
      exact h.frames r ⟨o', ho', hf⟩ hg op
  closure := fun r ps body home ha => by
    rcases action?_add_eq_some ha with ha | ⟨-, ha⟩
    · exact h.closure r ps body home ha
    · exact hc ps body home ha
  constant := fun r v ha => by
    rcases action?_add_eq_some ha with ha | ⟨-, ha⟩
    · exact h.constant r v ha
    · exact absurd ha (hv v)

/-- A new frame or record. -/
theorem add_passive (h : s.Guarded g) {o : Object} (he : o.entries = []) (ha : o.action = none) :
    (s.add o).Guarded g := by
  refine h.add he ?_ ?_ ?_
  · exact fun op hop => nomatch ha.symm.trans hop
  · exact fun ps body home hc => nomatch ha.symm.trans hc
  · exact fun v hv => nomatch ha.symm.trans hv

/-- A new function. -/
theorem add_closure (h : s.Guarded g) (name : String) {parameters : List String} {body : Node}
    (hb : body.Regular) (hp : ∀ p ∈ parameters, Scriptlet.Ordinary p) (home : Ref) :
    (s.add (.function name (.closure parameters body home))).Guarded g := by
  refine h.add rfl nofun (fun ps b r ha => ?_) nofun
  obtain ⟨rfl, rfl, rfl⟩ := Action.closure.inj (Option.some.inj ha)
  exact ⟨hb, hp⟩

/-- An ordinary value, under an ordinary name or in an object that is no frame. -/
theorem put (h : s.Guarded g) {r : Ref} {name : String} {v : Value} (hv : v.Ordinary)
    (hn : Scriptlet.Ordinary name ∨ r ≠ g ∧ ¬s.IsFrame r) : (s.put r name v).Guarded g where
  own := fun op => by
    rcases hn with hn | ⟨hne, -⟩
    · rw [own?_put_of_ne s r g (hn op).symm]
      exact h.own op
    · rw [own?_put_of_ref_ne s hne.symm]
      exact h.own op
  installed := fun op => by
    rw [action?_put]
    exact h.installed op
  action := fun q op ha => by
    rw [action?_put] at ha
    exact h.action q op ha
  entries := fun q o' ho' e hmem => by
    obtain ⟨o, ho, rfl | ⟨rfl, rfl⟩⟩ := object?_put_eq_some ho'
    · exact h.entries q o' ho e hmem
    · rcases Entries.exists_mem_of_mem_put hmem with hmem | rfl
      · exact h.entries q o ho e hmem
      · exact .inl hv
  frames := fun q hq hg op => by
    have hframe := isFrame_of_put hq
    rcases hn with hn | ⟨-, hne⟩
    · rw [own?_put_of_ne s r q (hn op).symm]
      exact h.frames q hframe hg op
    · have hqr : q ≠ r := by
        rintro rfl
        exact hne hframe
      rw [own?_put_of_ref_ne s hqr]
      exact h.frames q hframe hg op
  closure := fun q ps body home ha => by
    rw [action?_put] at ha
    exact h.closure q ps body home ha
  constant := fun q w ha => by
    rw [action?_put] at ha
    exact h.constant q w ha

/-- The operators stay in place when ordinary names are set. -/
theorem putAll (h : s.Guarded g) (r : Ref) {pairs : List (String × Value)}
    (hp : ∀ p ∈ pairs, Scriptlet.Ordinary p.1 ∧ p.2.Ordinary) : (s.putAll r pairs).Guarded g := by
  induction pairs generalizing s with
  | nil => exact h
  | cons p rest ih =>
      obtain ⟨hfirst, hrest⟩ := List.forall_mem_cons.mp hp
      exact ih (h.put hfirst.2 (.inl hfirst.1)) hrest

/-- What has just been made is no operator's function. -/
theorem ordinary_fresh (h : s.Guarded g) : (Value.object s.fresh).Ordinary := by
  intro op heq
  exact ne_fresh_of_action? (h.installed op) (Value.object.inj heq).symm

/-! ### Reading -/

/-- Every frame reads a symbol as the operator's function. -/
theorem read_symbol (h : s.Guarded g) (hs : s.Sealed g) (hr : s.IsFrame r) (op : Operator) :
    s.read r op.symbol = .object op.installed := by
  suffices hchain : ∀ n r, s.IsFrame r → r.index < n →
      (s.chainUpTo n r).findSome? (fun o => s.own? o op.symbol) =
        some (.object op.installed) by
    rw [read, chain, hchain s.size r hr hr.index_lt]
    rfl
  intro n
  induction n with
  | zero => exact fun r _ hn => absurd hn (Nat.not_lt_zero _)
  | succ n ih =>
      intro r hr hn
      obtain ⟨o, ho, hf⟩ := hr
      rw [chainUpTo, ho, Option.bind_some]
      cases hp : o.parent with
      | none =>
          obtain rfl := (hs.holds r o ho).root hf hp
          simp [h.own op]
      | some p =>
          obtain ⟨-, hlt, hframe⟩ := (hs.holds r o ho).parent p hp
          have hne : r ≠ g := by
            rintro rfl
            obtain ⟨o', ho', -, hp'⟩ := hs.root
            obtain rfl := Option.some.inj (ho.symm.trans ho')
            cases hp.symm.trans hp'
          have hown := h.frames r ⟨o, ho, hf⟩ hne op
          show (r :: s.chainUpTo n p).findSome? _ = _
          rw [List.findSome?_cons, hown]
          exact ih p hframe (by omega)

/-- Any other name reads as an ordinary value. -/
theorem ordinary_read (h : s.Guarded g) (r : Ref) {name : String} (hn : Scriptlet.Ordinary name) :
    (s.read r name).Ordinary := by
  rw [read]
  cases hv : (s.chain r).findSome? fun o => s.own? o name with
  | none => exact Value.Plain.ordinary trivial
  | some v =>
      obtain ⟨q, -, hq⟩ := List.exists_of_findSome?_eq_some hv
      obtain ⟨o, ho, hlookup⟩ := Option.bind_eq_some_iff.mp hq
      obtain ⟨before, after, hentries, -⟩ := List.lookup_eq_some_iff.mp hlookup
      have hentry := h.entries q o ho (name, v) (by simp [hentries])
      exact hentry.resolve_right fun hnot => hnot.2 hn

end Guarded

/-! ### A fresh global frame -/

/-- The first global frame of a session. -/
theorem object?_addGlobal_fresh : empty.addGlobal.object? empty.fresh =
    some ⟨"env", none, none, ("global", .object empty.fresh) ::
      Builtin.all.map fun b => (b.name, .object ⟨Builtin.all.idxOf b + 1⟩)⟩ := rfl

/-- After the first global frame come the built-in functions. -/
theorem object?_addGlobal_succ (n : Nat) : empty.addGlobal.object? ⟨n + 1⟩ =
    Builtin.all[n]?.map fun b => .function b.name (.builtin b) := by
  match n with
  | 0 | 1 | 2 | 3 | 4 | 5 | 6 | 7 | 8 | 9 | 10 | 11 => rfl
  | n + 12 =>
      have hsize : empty.addGlobal.objects.size ≤ n + 13 := Nat.le_add_left 13 n
      have hlength : Builtin.all.length ≤ n + 12 := Nat.le_add_left 12 n
      rw [object?, Array.getElem?_eq_none hsize, List.getElem?_eq_none hlength]
      rfl

/-- An object that a run begins with is the global frame or a built-in function. -/
theorem cases_of_object?_addGlobal {o : Object} (h : empty.addGlobal.object? r = some o) :
    r = empty.fresh ∨ ∃ b, b ∈ Builtin.all ∧ r = ⟨Builtin.all.idxOf b + 1⟩ ∧
      o = .function b.name (.builtin b) := by
  obtain ⟨_ | n⟩ := r
  · exact .inl rfl
  · rw [object?_addGlobal_succ, Option.map_eq_some_iff] at h
    obtain ⟨b, hb, rfl⟩ := h
    obtain ⟨hn, rfl⟩ := List.getElem?_eq_some_iff.mp hb
    have hplace : Builtin.all.idxOf Builtin.all[n] = n :=
      List.Nodup.idxOf_getElem (by decide) n hn
    exact .inr ⟨_, List.getElem_mem hn, by rw [hplace], rfl⟩

/-- What a run can call when it begins is built in. -/
theorem exists_of_action?_addGlobal {a : Action} (h : empty.addGlobal.action? r = some a) :
    ∃ b, r = ⟨Builtin.all.idxOf b + 1⟩ ∧ a = .builtin b := by
  obtain ⟨o, ho, ha⟩ := Option.bind_eq_some_iff.mp h
  rcases cases_of_object?_addGlobal ho with rfl | ⟨b, -, rfl, rfl⟩
  · obtain rfl := Option.some.inj (ho.symm.trans object?_addGlobal_fresh)
    cases ha
  · exact ⟨b, rfl, (Option.some.inj ha).symm⟩

/-- The store that a run of a program begins with. -/
theorem guarded_addGlobal : empty.addGlobal.Guarded empty.fresh where
  own := by
    intro op
    rw [own?, object?_addGlobal_fresh]
    cases op <;> rfl
  installed := by
    intro op
    cases op <;> rfl
  action := by
    intro r op ha
    obtain ⟨b, rfl, hb⟩ := exists_of_action?_addGlobal ha
    obtain rfl := Action.builtin.inj hb
    rfl
  entries := by
    intro r o ho e he
    rcases cases_of_object?_addGlobal ho with rfl | ⟨b, -, rfl, rfl⟩
    · obtain rfl := Option.some.inj (ho.symm.trans object?_addGlobal_fresh)
      rcases List.mem_cons.mp he with rfl | he
      · exact .inl fun op hop => absurd (congrArg Ref.index (Value.object.inj hop)) (by
          simp [Operator.installed, fresh, size, empty])
      · obtain ⟨b, -, rfl⟩ := List.mem_map.mp he
        cases b with
        | print =>
            refine .inl fun op hop => ?_
            have hplace := congrArg Ref.index (Value.object.inj hop)
            cases op <;> revert hplace <;> decide
        | operator op => exact .inr ⟨rfl, fun hn => hn op rfl⟩
    · exact absurd he List.not_mem_nil
  frames := by
    rintro r ⟨o, ho, -, ha⟩ hg op
    rcases cases_of_object?_addGlobal ho with rfl | ⟨b, -, rfl, rfl⟩
    · exact absurd rfl hg
    · cases ha
  closure := by
    intro r ps body home ha
    obtain ⟨_, -, hb⟩ := exists_of_action?_addGlobal ha
    cases hb
  constant := by
    intro r v ha
    obtain ⟨_, -, hb⟩ := exists_of_action?_addGlobal ha
    cases hb

end Store

end Scriptlet
