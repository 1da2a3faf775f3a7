import Scriptlet.Execution
import Scriptlet.Proofs.Entering
import Scriptlet.Proofs.Shadowing

/-!
# Declarations and What They Find

A declaration minds that its name reads as `undefined`, then evaluates its value, and then sets the
name, without looking again. The value may have set the name in the meantime: `var x = (x = 5);` is
no mistake. What a declaration covers can be nothing that was there when it began, though. If the
name does not read as `undefined` any more, the evaluation of the value itself has set it to what it
reads as, in the frame or in an object around it.

The reason is that an object that is there can be written in three ways only, and none of them is
hidden: what a visit changes of such an object was set by a visit inside it (`Sets`). New frames and
new records, which are also written, are no objects that were there.

## Main definitions

* `Store.Has`: whether there is an object.
* `Sets`: whether a visit sets a name of an object that was there before.

## Main results

* `keepsUnlessSet_evaluateSpaced`: what a visit changes of an object was set in the visit.
* `Visit.Proper.exists_lineage`: every frame in a run of a program has a chain that ends.
* `declaration_minds`: what a declaration finds before and behind the evaluation of its value.
-/

namespace Scriptlet

namespace Store

variable {s t : Store} {r frame : Ref} {chain : List Ref} {name : String}

/-- Whether there is an object. -/
def Has (s : Store) (r : Ref) : Prop := ∃ o, s.object? r = some o

theorem Has.mono (h : s.Has r) (hgrows : s.Grows t) : t.Has r := by
  obtain ⟨o, ho⟩ := h
  obtain ⟨o', ho', -⟩ := hgrows r o ho
  exact ⟨o', ho'⟩

theorem Has.ne_fresh (h : s.Has r) : r ≠ s.fresh := by
  rintro rfl
  obtain ⟨o, ho⟩ := h
  cases s.object?_fresh.symm.trans ho

theorem Has.own?_add (h : s.Has r) (o : Object) (name : String) :
    (s.add o).own? r name = s.own? r name := by
  rw [own?, own?, object?_add_of_ne s o h.ne_fresh]

/-- What has just been set. -/
theorem Has.own?_put (h : s.Has r) (name : String) (v : Value) :
    (s.put r name v).own? r name = some v := by
  obtain ⟨o, ho⟩ := h
  rw [own?_put_self, ho, Option.map_some]

/-- Setting another name, or a name of another object. -/
theorem own?_put_of_not {q : Ref} {other : String} (h : ¬(q = r ∧ other = name)) (v : Value) :
    (s.put q other v).own? r name = s.own? r name := by
  by_cases hr : r = q
  · exact own?_put_of_ne s q r (fun hn => h ⟨hr.symm, hn.symm⟩) v
  · exact own?_put_of_ref_ne s hr other name v

/-- The objects on a chain keep their parents. -/
theorem Lineage.mono (h : s.Lineage frame chain) (hgrows : s.Grows t)
    (hhas : ∀ r ∈ chain, s.Has r) : t.Lineage frame chain := by
  have hparent {q : Ref} (hq : s.Has q) : t.parent? q = s.parent? q := by
    obtain ⟨o, ho⟩ := hq
    obtain ⟨o', ho', hpersists⟩ := hgrows q o ho
    rw [parent?, parent?, ho, ho']
    exact hpersists.parent
  induction h with
  | root h => exact .root ((hparent (hhas _ List.mem_cons_self)).trans h)
  | inside h _ ih =>
      refine .inside ((hparent (hhas _ List.mem_cons_self)).trans h) (ih fun r hr => ?_)
      exact hhas r (List.mem_cons_of_mem _ hr)

/-- Going up from a frame passes frames only. -/
theorem Sealed.isFrame_of_mem {g : Ref} (h : s.Sealed g) (hchain : s.Lineage frame chain)
    (hf : s.IsFrame frame) : ∀ r ∈ chain, s.IsFrame r := by
  induction hchain with
  | root => exact List.forall_mem_singleton.mpr hf
  | inside hp _ ih =>
      obtain ⟨o, ho, hparent⟩ := Option.bind_eq_some_iff.mp hp
      obtain ⟨-, -, hframe⟩ := (h.holds _ o ho).parent _ hparent
      exact List.forall_mem_cons.mpr ⟨hf, ih hframe⟩

/-- Going up from a frame ends, since parents are older. -/
theorem Sealed.exists_lineage {g : Ref} (h : s.Sealed g) (hf : s.IsFrame frame) :
    ∃ chain, s.Lineage frame chain := by
  induction hn : frame.index using Nat.strongRecOn generalizing frame with
  | ind n ih =>
      subst hn
      cases hp : s.parent? frame with
      | none => exact ⟨_, .root hp⟩
      | some p =>
          obtain ⟨o, ho, hparent⟩ := Option.bind_eq_some_iff.mp hp
          obtain ⟨-, hlt, hframe⟩ := (h.holds frame o ho).parent p hparent
          obtain ⟨chain, hchain⟩ := ih p.index hlt hframe rfl
          exact ⟨_, .inside hp hchain⟩

/-- If the objects on a chain own under a name what they owned before, or something of which `P`
holds, then the name reads as before, or as something of which `P` holds. -/
theorem Lineage.read_eq_or (h : s.Lineage frame chain) (h' : t.Lineage frame chain)
    {P : Ref → Value → Prop} (hown : ∀ r ∈ chain,
      t.own? r name = s.own? r name ∨ ∃ x, t.own? r name = some x ∧ P r x) :
    t.read frame name = s.read frame name ∨ ∃ r ∈ chain, P r (t.read frame name) := by
  rw [h.read_eq, h'.read_eq]
  clear h h'
  induction chain with
  | nil => exact .inl rfl
  | cons r rest ih =>
      rw [List.findSome?_cons, List.findSome?_cons]
      rcases hown r List.mem_cons_self with heq | ⟨x, hx, hP⟩
      · rw [heq]
        cases s.own? r name with
        | some x => exact .inl rfl
        | none =>
            refine (ih fun q hq => hown q (List.mem_cons_of_mem _ hq)).imp_right ?_
            rintro ⟨q, hq, hP⟩
            exact ⟨q, List.mem_cons_of_mem _ hq, hP⟩
      · rw [hx]
        exact .inr ⟨r, List.mem_cons_self, hP⟩

end Store

/-- What takes nothing back leaves a later session behind. -/
theorem Accumulates.grows {run : Node → Ref → Eval Value} (h : Accumulates run) {n : Node}
    {frame : Ref} {s t : Session} {result : Except Exit Value}
    (hrun : (run n frame).runIn s = (result, t)) : s.Grows t := by
  have hgrows := h n frame s
  rwa [hrun] at hgrows

/-! ### Who sets a name -/

/-- Whether a name of an object is set to a value in a visit or inside it: by an assignment or a
declaration of the name, or a function of that name, in a visit that has the object as its frame, or
as a field of the object. -/
inductive Sets (stack : Stack) (r : Ref) (name : String) :
    (levels gap : Nat) → Visit → Value → Prop
  | assigned {levels : Nat} {value : Node} {declares : Bool} {line : Int} {s t u : Session}
      {x : Value} (h : (requireUndefined eval declares r name).runIn s = (.ok (), t))
      (hw : (evaluateParts stack levels .operand value r).runIn t = (.ok x, u)) :
      Sets stack r name (levels + 1) 0 ⟨.assign name value declares line, r, s⟩ x
  | named {levels : Nat} {parameters : List String} {body : Node} {line : Int} {s : Session} :
      Sets stack r name (levels + 1) 0 ⟨.function (some name) parameters body line, r, s⟩
        (.object s.store.fresh)
  | field {levels : Nat} {receiver value : Node} {line : Int} {frame : Ref} {s t u : Session}
      {x : Value}
      (h : (evaluateParts stack levels .operand receiver frame).runIn s = (.ok (.object r), t))
      (hw : (evaluateParts stack levels .operand value frame).runIn t = (.ok x, u)) :
      Sets stack r name (levels + 1) 0 ⟨.assignField receiver name value line, frame, s⟩ x
  | skip {levels gap : Nat} {v : Visit} {x : Value} (h : Sets stack r name levels gap v x) :
      Sets stack r name (levels + 1) (gap + 1) v x
  | part {levels : Nat} {v w : Visit} {role : Role} {x : Value}
      (hp : Part (evaluateParts stack levels) v role w)
      (h : Sets stack r name levels (stack.part role) w x) : Sets stack r name (levels + 1) 0 v x

/-- Whether an evaluation leaves alone what an object that is there owns under a name, but for what
is set in it. -/
def KeepsUnlessSet (stack : Stack) (r : Ref) (name : String) (levels gap : Nat) : Prop :=
  ∀ (v : Visit) result t, v.session.store.Has r →
    (evaluateSpaced stack levels gap v.node v.frame).runIn v.session = (result, t) →
    t.store.own? r name = v.session.store.own? r name ∨
      ∃ x, t.store.own? r name = some x ∧ Sets stack r name levels gap v x

section

variable {stack : Stack} {r : Ref} {name : String} {levels gap : Nat} {v w : Visit}
  {s t : Session}

/-- A part that puts its value under a name sets the name, if the object was there. -/
theorem Awaits.sets {x : Value} (h : Awaits (evaluateParts stack levels) v w r name)
    (hr : v.session.store.Has r)
    (hw : (evaluateParts stack levels .operand w.node w.frame).runIn w.session = (.ok x, t)) :
    Sets stack r name (levels + 1) 0 v x := by
  cases h with
  | assigned h => exact .assigned h hw
  | entry => exact absurd rfl hr.ne_fresh
  | fieldValue h =>
      obtain ⟨y, u, hy, hrequired⟩ := Eval.exists_of_runIn_bind_eq_ok h
      obtain ⟨rfl, ⟨q, rfl, hq⟩ | ⟨_, hx, _⟩⟩ := cases_of_requireObject hrequired
      · obtain rfl := Except.ok.inj hq
        exact .field hy hw
      · cases hx

/-- A step changes what an object that is there owns under a name only if it sets the name. -/
theorem Step.own?_eq_or_sets (h : Step (evaluateParts stack levels) v s t)
    (hkeeps : ∀ gap, KeepsUnlessSet stack r name levels gap) (hv : v.session.store.Has r)
    (hs : s.store.Has r) :
    t.store.own? r name = s.store.own? r name ∨
      ∃ x, t.store.own? r name = some x ∧ Sets stack r name (levels + 1) 0 v x := by
  cases h with
  | @part v w role result t hp hw =>
      refine (hkeeps _ w result t hs hw).imp_right ?_
      rintro ⟨x, hx, hsets⟩
      exact ⟨x, hx, .part hp hsets⟩
  | @put v w object name' x t hp hw =>
      have ht : t.store.Has r :=
        hs.mono ((accumulates_evaluateParts stack levels .operand).grows hw).store
      by_cases hset : object = r ∧ name' = name
      · obtain ⟨rfl, rfl⟩ := hset
        exact .inr ⟨x, ht.own?_put _ x, hp.sets hv hw⟩
      · have hsame : (t.put object name' x).store.own? r name = t.store.own? r name :=
          Store.own?_put_of_not hset x
        rw [hsame]
        refine (hkeeps _ w _ t hs hw).imp_right ?_
        rintro ⟨y, hy, hsets⟩
        exact ⟨y, hy, .part hp.part hsets⟩
  | function | record => exact .inl (hs.own?_add _ name)
  | @named name' parameters body line frame s =>
      by_cases hset : frame = r ∧ name' = name
      · obtain ⟨rfl, rfl⟩ := hset
        exact .inr ⟨_, hs.own?_put _ _, .named⟩
      · exact .inl (Store.own?_put_of_not hset _)
  | this => exact .inl (Store.own?_put_of_ref_ne _ hv.ne_fresh _ _ _)
  | enter =>
      refine .inl ?_
      show (Store.object? _ r).bind _ = _
      rw [Session.enter, Store.object?_putAll_of_ne hs.ne_fresh,
        Store.object?_add_of_ne _ _ hs.ne_fresh]
      rfl
  | builtin _ _ hr => exact .inl (by rw [Builtin.store_apply hr])

/-- So it is on the course of a visit. -/
theorem Course.own?_eq_or_sets (h : Course (evaluateParts stack levels) v v.session t)
    (hkeeps : ∀ gap, KeepsUnlessSet stack r name levels gap) (hv : v.session.store.Has r) :
    t.store.own? r name = v.session.store.own? r name ∨
      ∃ x, t.store.own? r name = some x ∧ Sets stack r name (levels + 1) 0 v x := by
  induction h with
  | refl => exact .inl rfl
  | @tail s t hcourse hstep ih =>
      have hgrows := Course.grows hcourse (accumulates_evaluateParts stack levels)
      rcases hstep.own?_eq_or_sets hkeeps hv (hv.mono hgrows.store) with heq | hset
      · rwa [heq]
      · exact .inr hset

end

/-- **What a visit changes of an object that is there was set in the visit.** -/
theorem keepsUnlessSet_evaluateSpaced (stack : Stack) (r : Ref) (name : String)
    (levels gap : Nat) : KeepsUnlessSet stack r name levels gap := by
  intro v result t hv h
  refine evaluateSpaced_induction
    (motive := fun levels gap v t => v.session.store.Has r →
      t.store.own? r name = v.session.store.own? r name ∨
        ∃ x, t.store.own? r name = some x ∧ Sets stack r name levels gap v x)
    (fun _ => .inl rfl) ?_ ?_ h hv
  · intro levels gap v t hkept hv
    refine (hkept hv).imp_right ?_
    rintro ⟨x, hx, hsets⟩
    exact ⟨x, hx, .skip hsets⟩
  · intro levels v t hparts hcourse hv
    exact hcourse.own?_eq_or_sets (fun _ _ _ _ hw h => hparts h hw) hv

/-! ### Declarations -/

/-- A declaration goes on only if the name reads as `undefined`. -/
theorem read_eq_undefined_of_requireUndefined {frame : Ref} {name : String} {s t : Session}
    (h : (requireUndefined eval true frame name).runIn s = (.ok (), t)) :
    s.store.read frame name = .undefined := by
  rw [requireUndefined, Eval.runIn_bind_of_ok (Eval.runIn_read frame name s)] at h
  cases hread : s.store.read frame name with
  | undefined => rfl
  | integer | string | object | node =>
      rw [hread] at h
      obtain ⟨-, x, hx, -⟩ := Eval.raised_of_runIn_mistake Mistake.noConfusion h
      cases hx

/-- What a declaration does that succeeds. -/
theorem exists_of_declaration {eval : Evaluator} {name : String}
    {value : Node} {line : Int} {frame : Ref} {s t : Session} {x : Value}
    (h : (evaluateWith eval (.assign name value true line) frame).runIn s = (.ok x, t)) :
    s.store.read frame name = .undefined ∧ x = .undefined ∧
      ∃ w u, (eval .operand value frame).runIn s = (.ok w, u) ∧ t = u.put frame name w := by
  obtain ⟨_, s', hrequired, hrest⟩ := Eval.exists_of_runIn_bind_eq_ok h
  have hread := read_eq_undefined_of_requireUndefined hrequired
  obtain ⟨rfl, -⟩ := cases_of_requireUndefined hrequired
  obtain ⟨w, u, hw, hput⟩ := Eval.exists_of_runIn_bind_eq_ok hrest
  obtain ⟨hx, rfl⟩ := Prod.mk.inj hput
  exact ⟨hread, (Except.ok.inj hx).symm, w, u, hw, rfl⟩

/-- The frame of a visit in a run of a program has a chain, and the objects on it are there. -/
theorem Visit.Proper.exists_lineage {g : Ref} {v : Visit} (h : v.Proper g) :
    ∃ chain, v.session.store.Lineage v.frame chain ∧ ∀ r ∈ chain, v.session.store.Has r := by
  obtain ⟨chain, hchain⟩ := h.sealed.exists_lineage h.frame
  refine ⟨chain, hchain, fun r hr => ?_⟩
  obtain ⟨o, ho, -⟩ := h.sealed.isFrame_of_mem hchain h.frame r hr
  exact ⟨o, ho⟩

/-- The value of a declaration writes no object on the chain, in a run of a program, but the
declaration's own frame and the global one. -/
theorem own?_eq_of_declaration {stack : Stack} {levels : Nat} {name : String}
    {value : Node} {line : Int} {frame g r : Ref} {chain : List Ref} {s u : Session}
    {result : Except Exit Value} (hv : Visit.Proper g ⟨.assign name value true line, frame, s⟩)
    (hchain : s.store.Lineage frame chain) (hread : s.store.read frame name = .undefined)
    (hw : (evaluateParts stack levels .operand value frame).runIn s = (result, u))
    (hr : r ∈ chain) (hf : r ≠ frame) (hg : r ≠ g) :
    u.store.own? r name = s.store.own? r name := by
  have hpart : Part (evaluateParts stack levels) ⟨.assign name value true line, frame, s⟩ .operand
      ⟨value, frame, s⟩ := by
    refine .assigned ?_
    rw [requireUndefined, Eval.runIn_bind_of_ok (Eval.runIn_read frame name s), hread]
    rfl
  have hproper := hpart.proper (fun role => seals_evaluateSpaced stack levels (stack.part role)) hv
  have hidle : ((evaluateParts stack levels .operand value frame).runIn s).2.store.object? r =
      s.store.object? r :=
    keepsIdle_evaluateSpaced stack levels (stack.part .operand) _ hproper r
      (hv.sealed.isFrame_of_mem hchain hv.frame r hr) hg hf
  rw [hw] at hidle
  rw [Store.own?, Store.own?, hidle]

/-- **A declaration covers nothing that it did not set itself.** Take any frame whose chain of
objects is there and ends. If a declaration in it succeeds, then the name read as `undefined` when
the declaration began. When its value is there and about to be put under the name, the name still
reads as `undefined`, or an object of the chain owns it with the value that it reads as, and the
evaluation of the value has set it there. In a run of a program that object is the declaration's own
frame or the global one. -/
theorem declaration_minds {stack : Stack} {levels gap : Nat} {name : String} {value : Node}
    {line : Int} {frame : Ref} {chain : List Ref} {s t : Session} {x : Value}
    (hchain : s.store.Lineage frame chain) (hhas : ∀ r ∈ chain, s.store.Has r)
    (h : (evaluateSpaced stack levels gap (.assign name value true line) frame).runIn s =
      (.ok x, t)) :
    s.store.read frame name = .undefined ∧ x = .undefined ∧
    ∃ below w u, levels = below + 1 + gap ∧
      (evaluateParts stack below .operand value frame).runIn s = (.ok w, u) ∧
      t = u.put frame name w ∧
      (u.store.read frame name = .undefined ∨ ∃ r ∈ chain,
        u.store.own? r name = some (u.store.read frame name) ∧
        Sets stack r name below (stack.part .operand) ⟨value, frame, s⟩ (u.store.read frame name) ∧
        ∀ g, Visit.Proper g ⟨.assign name value true line, frame, s⟩ → r = frame ∨ r = g) := by
  obtain ⟨below, hlevels, -, hrule⟩ := exists_evaluateWith_of_ok h
  obtain ⟨hread, hx, w, u, hw, ht⟩ := exists_of_declaration hrule
  have hgrows := (accumulates_evaluateParts stack below .operand).grows hw
  have hown : ∀ r ∈ chain, u.store.own? r name = s.store.own? r name ∨
      ∃ y, u.store.own? r name = some y ∧ u.store.own? r name = some y ∧
        Sets stack r name below (stack.part .operand) ⟨value, frame, s⟩ y ∧
        ∀ g, Visit.Proper g ⟨.assign name value true line, frame, s⟩ → r = frame ∨ r = g := by
    intro r hr
    by_cases hwhere :
        ∀ g, Visit.Proper g ⟨.assign name value true line, frame, s⟩ → r = frame ∨ r = g
    · refine (keepsUnlessSet_evaluateSpaced stack r name below (stack.part .operand)
        ⟨value, frame, s⟩ _ u (hhas r hr) hw).imp_right ?_
      rintro ⟨y, hy, hsets⟩
      exact ⟨y, hy, hy, hsets, hwhere⟩
    · push Not at hwhere
      obtain ⟨g, hv, hf, hg⟩ := hwhere
      exact .inl (own?_eq_of_declaration hv hchain hread hw hr hf hg)
  refine ⟨hread, hx, below, w, u, hlevels, hw, ht, ?_⟩
  rcases hchain.read_eq_or (hchain.mono hgrows.store hhas) hown with heq | hset
  · exact .inl (heq.trans hread)
  · exact .inr hset

namespace Declaration

/-- The value sets the global frame, around the frame of the declaration. -/
def outward : Node :=
  .assignField (.name "global" 1) "x" (.constant (.integer 5) 1) 1

/-- There are a global frame and a frame inside it, and nothing has been done. -/
def session : Session := ⟨Store.empty.addGlobal.add (.frame Store.empty.fresh), "", #[]⟩

def inner : Ref := Store.empty.addGlobal.fresh

end Declaration

/-- The declaration succeeds though the name has got a value, which its own value has set. -/
theorem declaration_minds_outward :
    Declaration.session.store.Lineage Declaration.inner [Declaration.inner, Store.empty.fresh] ∧
    (∀ r ∈ [Declaration.inner, Store.empty.fresh], Declaration.session.store.Has r) ∧
    ∃ t, (evaluate .standard 80 (.assign "x" Declaration.outward true 1) Declaration.inner).runIn
        Declaration.session = (.ok .undefined, t) ∧
      Declaration.session.store.read Declaration.inner "x" = .undefined ∧
      ∃ r ∈ [Declaration.inner, Store.empty.fresh], Sets .standard r "x" 79 1
        ⟨Declaration.outward, Declaration.inner, Declaration.session⟩ (.integer 5) := by
  have hchain : Declaration.session.store.Lineage Declaration.inner
      [Declaration.inner, Store.empty.fresh] := .inside rfl (.root rfl)
  have hhas : ∀ r ∈ [Declaration.inner, Store.empty.fresh], Declaration.session.store.Has r := by
    intro r hr
    rcases List.mem_pair.mp hr with rfl | rfl
    · exact ⟨_, rfl⟩
    · exact ⟨_, rfl⟩
  have hrun : ((evaluate .standard 80 (.assign "x" Declaration.outward true 1)
      Declaration.inner).runIn Declaration.session).1 = .ok .undefined := by with_unfolding_all rfl
  obtain ⟨hread, -, below, w, u, hbelow, hw, -, hset⟩ :=
    declaration_minds hchain hhas (Prod.ext hrun rfl)
  obtain rfl : below = 79 := by omega
  have hfive : u.store.read Declaration.inner "x" = .integer 5 := by
    rw [← (Prod.mk.inj hw).2]
    with_unfolding_all rfl
  rw [hfive] at hset
  refine ⟨hchain, hhas, _, Prod.ext hrun rfl, hread, ?_⟩
  obtain ⟨r, hr, -, hsets, -⟩ := hset.resolve_left nofun
  exact ⟨r, hr, hsets⟩

namespace Declaration

/-- A declaration whose value sets the same name. -/
def source : String := "var x = (x = 5); print(x);"

def assignment : Node := .assign "x" (.constant (.integer 5) 1) false 1

def program : Node :=
  .block [.assign "x" assignment true 1, .call (.name "print" 1) [.name "x" 1] 1] 1

end Declaration

/-- A declaration finds a value under its name when it sets the name, and succeeds nevertheless. It
is the first statement of a program that ends without an error. -/
theorem not_declaration_undefined :
    Source.program Declaration.source = .ok Declaration.program ∧
    Reaches .standard Platform.standard.limit 0 (Visit.start Declaration.program)
      (.begins ⟨.assign "x" Declaration.assignment true 1, Store.empty.fresh,
        (Visit.start Declaration.program).session⟩) ∧
    (∃ u, (evaluateParts .standard 79 .operand Declaration.assignment Store.empty.fresh).runIn
        (Visit.start Declaration.program).session = (.ok .undefined, u) ∧
      u.store.read Store.empty.fresh "x" = .integer 5 ∧
      (evaluate .standard 80 (.assign "x" Declaration.assignment true 1) Store.empty.fresh).runIn
        (Visit.start Declaration.program).session =
          (.ok .undefined, u.put Store.empty.fresh "x" .undefined)) ∧
    (execute .standard Declaration.source).output = "undefined\n" ∧
    (execute .standard Declaration.source).ending = .finished := by
  have hpart : Part (evaluateParts .standard 9989)
      ⟨.block ([] ++ Declaration.program.statements) 1, Store.empty.fresh,
        (Visit.start Declaration.program).session⟩ .statement _ := .statement rfl
  refine ⟨by with_unfolding_all rfl, .part (Nat.zero_le _) hpart .begins, ?_, by decide +kernel,
    by decide +kernel⟩
  exact ⟨_, Prod.ext (by with_unfolding_all rfl) rfl, by with_unfolding_all rfl,
    by with_unfolding_all rfl⟩

end Scriptlet
