import Scriptlet.Proofs.Entering
import Scriptlet.Proofs.Operators
import Scriptlet.Proofs.Shadowing
import Scriptlet.Proofs.Takes

/-!
# Call-Free Expressions

Literals, names, fields and operators with two operands make up the *call-free* expressions; a minus
sign before an operand is an operator with a zero that was not written. Evaluating one leaves the
session as it is: no object, no binding and no output changes, however it ends. An operator is a
call all the same, namely of the function that its symbol reads as, so this is true of the states of
a run only, in which no frame reads the symbol as anything else.

Such an expression ends with a value, or by a fault in the operands of an operator. It takes so many
levels for that, wherever it is evaluated in the same state, and with fewer it is cut off: when a
script has called its functions deep inside one another, an expression may be too much.

## Main definitions

* `Node.CallFree`: the call-free expressions.
* `PureEnding`: how the evaluation of one ends.

## Main results

* `Node.CallFree.exists_takes`: a call-free expression in any session that keeps operators out of
  reach.
* `evaluate_callFree`: a call-free expression at any moment of a run.
-/

namespace Scriptlet

open Eval (Takes)

/-- The call-free expressions. -/
inductive Node.CallFree : Node → Prop
  | literal {v : Value} {serial : Nat} {line : Int} : CallFree (.literal v serial line)
  | name {x : String} {line : Int} : CallFree (.name x line)
  | field {receiver : Node} {x : String} {line : Int} (h : CallFree receiver) :
      CallFree (.field receiver x line)
  | operation (op : Operator) {a b : Node} {line : Int} (ha : CallFree a) (hb : CallFree b) :
      CallFree (.operation op.symbol [a, b] line)

/-- How the evaluation of a call-free expression ends, if there are levels for it. -/
inductive PureEnding : Except Exit Value → Prop
  | value (v : Value) : PureEnding (.ok v)
  | fault {f : Fault} (hf : f.OfOperands) : PureEnding (.error (.fault f))

namespace PureEnding

variable {x y : Except Exit Value}

/-- A line does not change how a pure expression ends. -/
theorem onLine (h : PureEnding x) (line : Int) : PureEnding (x.mapError (Exit.onLine line)) := by
  cases h with
  | value v => exact .value v
  | fault hf => exact .fault hf

/-- An operator ends so if its operands do. -/
theorem operation (hx : PureEnding x) (hy : PureEnding y) (op : Operator) :
    PureEnding (x >>= fun v => y >>= fun w => (op.apply v w).mapError .fault) := by
  cases hx with
  | fault hf => exact .fault hf
  | value v =>
      cases hy with
      | fault hf => exact .fault hf
      | value w =>
          dsimp only [bind, Except.bind]
          cases happly : op.apply v w with
          | ok z => exact .value z
          | error f => exact .fault (Operator.ofOperands_of_apply happly)

end PureEnding

namespace Node

variable {P : Session → Prop} {s : Session} {stack : Stack} {frame g : Ref}

/-- A field takes what its receiver takes; a field of a value that is no object is the value. -/
theorem takes_field {receiver : Node} {x : String} {line : Int} {need : Nat}
    {result : Except Exit Value} (hs : P s)
    (h : Takes P s (fun levels => evaluate stack levels receiver frame) (need + 1) result s) :
    Takes P s (fun levels => evaluate stack levels (.field receiver x line) frame)
      (max (need + 1 + stack.part .operand) (stack.rule "FieldAccess") + 1)
      ((result.map fun v => match v with
        | .object r => s.store.read r x
        | v => v).mapError (Exit.onLine line)) s := by
  refine takes_evaluateSpaced (n := .field receiver x line) hs ?_ 0
  cases result with
  | error e => exact .bind_error (h.part .operand)
  | ok v =>
      refine .of_eq (.bind (h.part .operand) (.step fun _ => ?_)) (Nat.max_zero _)
      cases v <;> rfl

/-- **A call-free expression changes nothing**, and ends with a value or by a fault of operands, if
there are levels for it. -/
theorem CallFree.exists_takes {n : Node} (h : n.CallFree) (stack : Stack) (hs : s.store.Sealed g)
    (hg : s.store.Guarded g) (hf : s.store.IsFrame frame) :
    ∃ need result, PureEnding result ∧
      Takes (· = s) s (fun levels => evaluate stack levels n frame) (need + 1) result s := by
  induction h with
  | @literal v serial line =>
      exact ⟨_, _, .value v, takes_literal (P := (· = s)) rfl v serial line 0⟩
  | @name x line => exact ⟨_, _, .value _, takes_name (P := (· = s)) rfl x line 0⟩
  | @field receiver x line _ ih =>
      obtain ⟨need, result, hends, htakes⟩ := ih
      refine ⟨_, _, ?_, takes_field rfl htakes⟩
      cases hends with
      | value v => exact .value _
      | fault hf => exact .fault hf
  | @operation op a b line _ _ iha ihb =>
      obtain ⟨need, x, hx, ha⟩ := iha
      obtain ⟨need', y, hy, hb⟩ := ihb
      obtain ⟨more, -, hnode⟩ := exists_takes_operation stack op need need' x y
      exact ⟨more, _, (hx.operation hy op).onLine line,
        hnode line rfl (hg.read_symbol hs hf op) (hg.installed op) ha hb⟩

end Node

/-! ### Runs of a program -/

/-- **Call-free expressions are pure.** At every moment of a run, on every frame, a call-free
expression takes so many levels. With these it ends with a value or by a fault of operands, and with
fewer it is cut off. In any case it leaves the session as it is, so it ends in the same way when it
is evaluated again. -/
theorem evaluate_callFree {source : String} {program : Node}
    (h : Source.program source = .ok program) {stack : Stack} {levels : Nat} {m : Moment}
    (hm : Reaches stack levels 0 (Visit.start program) m) :
    (∀ v, m = .begins v → m.store.IsFrame v.frame) ∧
    ∀ (frame : Ref) (n : Node), m.store.IsFrame frame → n.CallFree →
      ∃ need result, PureEnding result ∧ ∀ (levels' : Nat) (outcome : Except Exit Value)
        (t : Session), (evaluate stack levels' n frame).runIn m.session = (outcome, t) →
          t = m.session ∧ outcome = (if need ≤ levels' then result else .error .tooDeep) ∧
            (evaluate stack levels' n frame).runIn t = (outcome, t) := by
  have hv := Visit.proper_start (Source.plain_of_program h)
  have hg : (Visit.start program).Guarded (Visit.start program).frame :=
    ⟨.inl (Source.regular_of_program h), Store.guarded_addGlobal⟩
  refine ⟨(hm.outOfReach hv hg).frame, fun frame n hf hn => ?_⟩
  obtain ⟨need, result, hends, htakes⟩ :=
    hn.exists_takes stack (hm.proper hv).sealed (hm.lawful hv hg).1 hf
  refine ⟨need + 1, result, hends, fun levels' outcome t hrun => ?_⟩
  rcases Nat.lt_or_ge levels' (need + 1) with hlt | hle
  · obtain ⟨u, rfl, hdeep⟩ := htakes.short levels' hlt
    obtain ⟨rfl, rfl⟩ := Prod.mk.inj (hdeep.symm.trans hrun)
    exact ⟨rfl, (if_neg (Nat.not_le_of_lt hlt)).symm, hrun⟩
  · obtain ⟨rfl, rfl⟩ := Prod.mk.inj ((htakes.enough levels' hle).symm.trans hrun)
    exact ⟨rfl, (if_pos hle).symm, hrun⟩

namespace Purity

/-- Adds an object to its field. -/
def addition : Node := .operation Operator.plus.symbol [.field (.name "a" 1) "x" 1, .name "o" 1] 1

theorem callFree_addition : addition.CallFree := .operation .plus (.field .name) .name

/-- Makes an object, and a frame in which it has another name. -/
def source : String := "var o = \x7bx: 2\x7d; (function(a) \x7b return a; \x7d)(o);"

/-- How a program ends, and in which session. -/
def outcome (program : Node) : Except Exit Value × Session :=
  (evaluateSpaced .standard 40 0 program ⟨0⟩).runIn (Visit.start program).session

/-- The fault by which the addition ends on the frame of the call, if it does. -/
def fault? (s : Session) : Option Fault :=
  match ((evaluate .standard 40 addition ⟨15⟩).runIn s).1 with
  | .error (.fault f) => some f
  | _ => none

theorem eq_of_fault? {s : Session} {f : Fault} (h : fault? s = some f) :
    ((evaluate .standard 40 addition ⟨15⟩).runIn s).1 = .error (.fault f) := by
  unfold fault? at h
  split at h
  next g hg =>
    obtain rfl := Option.some.inj h
    exact hg
  next => cases h

end Purity

/-- On the frame of a call, after the run, the addition is at fault and changes nothing. -/
theorem evaluate_callFree_addition :
    ∃ program result session, Source.program Purity.source = .ok program ∧
      Reaches .standard 40 0 (Visit.start program)
        (.ends (Visit.start program) result session) ∧
      session.store.names ⟨15⟩ = ["this", "a"] ∧ session.store.IsFrame ⟨15⟩ ∧
      Purity.addition.CallFree ∧
      (evaluate .standard 40 Purity.addition ⟨15⟩).runIn session =
        (.error (.fault (.notAnInteger .plus "JSObject")), session) := by
  let look (s : Session) := (s.store.names ⟨15⟩,
    (s.store.object? ⟨15⟩).map fun o => (o.name, o.action.isNone), Purity.fault? s)
  have hlook : (Source.program Purity.source).toOption.map (fun p => look (Purity.outcome p).2) =
      some (["this", "a"], some ("env", true), some (.notAnInteger .plus "JSObject")) := by
    decide +kernel
  cases hprogram : Source.program Purity.source with
  | error e =>
      rw [hprogram] at hlook
      cases hlook
  | ok program =>
      rw [hprogram] at hlook
      have hends : Reaches .standard 40 0 (Visit.start program)
          (.ends (Visit.start program) (Purity.outcome program).1 (Purity.outcome program).2) :=
        .ends rfl
      obtain ⟨hnames, hrest⟩ := Prod.mk.inj (Option.some.inj hlook)
      obtain ⟨hobject, hfault⟩ := Prod.mk.inj hrest
      obtain ⟨o, ho, hkind⟩ := Option.map_eq_some_iff.mp hobject
      obtain ⟨hname, haction⟩ := Prod.mk.inj hkind
      have hframe : (Purity.outcome program).2.store.IsFrame ⟨15⟩ :=
        ⟨o, ho, hname, Option.isNone_iff_eq_none.mp haction⟩
      refine ⟨program, _, _, rfl, hends, hnames, hframe, Purity.callFree_addition, ?_⟩
      obtain ⟨need, _, -, hpure⟩ := (evaluate_callFree hprogram hends).2 ⟨15⟩ Purity.addition
        hframe Purity.callFree_addition
      obtain ⟨hsession, -, -⟩ := hpure 40 _ _ rfl
      exact Prod.ext (Purity.eq_of_fault? hfault) hsession

/-! ### Calls too deep for an expression -/

namespace Purity

/-- A field of a field, and so on, of what a name is bound to. -/
def fields (x : String) : (k : Nat) → Node
  | 0 => .name x 1
  | k + 1 => .field (fields x k) "a" 1

theorem callFree_fields (x : String) (k : Nat) : (fields x k).CallFree := by
  induction k with
  | zero => exact .name
  | succ k ih => exact .field ih

/-- Fields take two levels each on the standard stack. -/
theorem exists_takes_fields (x : String) (k : Nat) (frame : Ref) (s : Session) :
    ∃ v, Takes (· = s) s (fun levels => evaluate .standard levels (fields x k) frame)
      (2 * k + 3) (.ok v) s := by
  induction k with
  | zero => exact ⟨_, takes_name (P := (· = s)) rfl x 1 0⟩
  | succ k ih =>
      obtain ⟨v, hv⟩ := ih
      have hfield : Takes (· = s) s
          (fun levels => evaluate .standard levels (fields x (k + 1)) frame)
          (max (2 * k + 2 + 1 + 1) 2 + 1) (.ok _) s := Node.takes_field (P := (· = s)) rfl hv
      exact ⟨_, hfield.of_eq (by omega)⟩

/-- The statements of a function that reads twenty fields of its argument, one of the other, and
then calls the argument with itself. -/
def body : Node :=
  .block [fields "g" 20, .call (.name "g" 1) [.name "g" 1] 1] 1

/-- Calls such a function with itself. -/
def runaway : String :=
  "var f = function(g) \x7b g.a.a.a.a.a.a.a.a.a.a.a.a.a.a.a.a.a.a.a.a; g(g); \x7d; f(f);"

def program : Node :=
  .block [.assign "f" (.function none ["g"] body 1) true 1,
    .call (.name "f" 1) [.name "f" 1] 1] 1

theorem program_runaway : Source.program runaway = .ok program := by
  with_unfolding_all rfl

/-- The session in which the function has its name. -/
def declared : Session :=
  ((Visit.start program).session.add
    (.function anonymousName (.closure ["g"] body Store.empty.fresh))).put Store.empty.fresh "f"
      (.object (Visit.start program).session.store.fresh)

/-- Whether a name reads as the function with the body above. -/
structure Calls (s : Store) (frame : Ref) (x : String) (f : Ref) : Prop where
  read : s.read frame x = .object f
  action : ∃ home, s.action? f = some (.closure ["g"] body home)

/-- A call of the function with itself gets to the body, if there are levels for it. -/
theorem exists_part_call {levels : Nat} {frame f : Ref} {x : String} {s : Session}
    (h : Calls s.store frame x f) (hlevels : 6 ≤ levels) :
    ∃ frame' t, Calls t.store frame' "g" f ∧
      Part (evaluateParts .standard levels) ⟨.call (.name x 1) [.name x 1] 1, frame, s⟩ .body
        ⟨body, frame', t⟩ := by
  obtain ⟨home, haction⟩ := h.action
  have hname (gap : Nat) (hgap : gap ≤ 3) :
      (evaluateSpaced .standard levels gap (.name x 1) frame).runIn s = (.ok (.object f), s) := by
    have htakes : Takes (· = s) s
        (fun levels => evaluateSpaced .standard levels gap (.name x 1) frame) (2 + 1 + gap)
        (.ok (s.store.read frame x)) s := takes_name (P := (· = s)) rfl x 1 gap
    rw [htakes.enough levels (by omega), h.read]
  have hcallee : (evaluateParts .standard levels .operand (.name x 1) frame >>=
      requireFunction (evaluateParts .standard levels)).runIn s = (.ok f, s) := by
    refine (Eval.runIn_bind_of_ok (hname 1 (by decide)) _).trans ?_
    rw [requireFunction, Eval.runIn_bind_of_ok (Eval.runIn_store s), haction]
    rfl
  have harguments : (runArguments (evaluateParts .standard levels) [.name x 1] frame).runIn s =
      (.ok [.object f], s) := by
    rw [runArguments, List.mapM_cons, List.mapM_nil]
    exact Eval.runIn_bind_of_ok (hname 3 (by decide)) _
  have hroom : (evaluateParts .standard levels).admits s.store f = true := by
    rw [Evaluator.admits, haction]
    exact decide_eq_true hlevels
  refine ⟨_, _, ⟨?_, home, ?_⟩, .body (.intro (.call hcallee) harguments hroom) ⟨haction, rfl⟩⟩
  · -- the parameter is a name of the new frame
    refine Store.read_of_own? ?_
    rw [Session.enter, Store.own?, Store.object?_enter_self]
    rfl
  · rw [Session.enter, Store.action?_putAll]
    exact Store.action?_add haction

/-- Where there are too few levels for the call, there are none for the fields either. -/
theorem exists_fields_of_calls {levels : Nat} (hlevels : 0 < levels) {frame f : Ref} {s : Session}
    (h : Calls s.store frame "g" f) :
    ∃ w t, w.node = fields "g" 20 ∧
      Reaches .standard levels 0 ⟨body, frame, s⟩ (.ends w (.error .tooDeep) t) := by
  -- the fields are cut off in this call, or in the one inside it, which has fewer levels
  induction levels using Nat.strong_induction_on generalizing frame s with
  | _ levels ih =>
      obtain ⟨levels, rfl⟩ := Nat.exists_eq_add_one_of_ne_zero (Nat.ne_of_gt hlevels)
      obtain ⟨v, hfields⟩ := exists_takes_fields "g" 20 frame s
      rcases Nat.lt_or_ge levels 43 with hfew | hmany
      · obtain ⟨t, rfl, hdeep⟩ := hfields.short levels hfew
        exact ⟨⟨fields "g" 20, frame, t⟩, t, rfl, .part (Nat.zero_le _)
          (.statement (runIn_runStatements_nil _ _ _)) (.ends hdeep)⟩
      · have hdone : (runStatements (evaluateParts .standard levels) [fields "g" 20] frame).runIn s
            = (.ok (), s) :=
          Eval.runIn_bind_of_ok (Eval.runIn_bind_of_ok (hfields.enough levels hmany) _) _
        obtain ⟨below, rfl⟩ := Nat.exists_eq_add_of_le' (show 4 ≤ levels by omega)
        obtain ⟨frame', t, hcalls, hbody⟩ :=
          exists_part_call h (show 6 ≤ below + 3 by omega)
        obtain ⟨w, u, hw, hreaches⟩ := ih below (by omega) (by omega) hcalls
        have hrule : 1 ≤ below + 3 := Nat.le_add_left 1 (below + 2)
        exact ⟨w, u, hw, .part (Nat.zero_le _) (.statement hdone)
          (.part hrule hbody (.skip (.skip (.skip hreaches))))⟩

end Purity

/-- A function calls itself until there are too few levels for reading the fields: a call-free
expression of the script ends neither with a value nor by a fault of operands. -/
theorem not_pure_runaway :
    Source.program Purity.runaway = .ok Purity.program ∧
      ∃ w t, w.node.CallFree ∧
        Reaches .standard 9990 0 (Visit.start Purity.program) (.ends w (.error .tooDeep) t) := by
  refine ⟨Purity.program_runaway, ?_⟩
  have hdone : (runStatements (evaluateParts .standard 9989)
      [.assign "f" (.function none ["g"] Purity.body 1) true 1] Store.empty.fresh).runIn
        (Visit.start Purity.program).session = (.ok (), Purity.declared) := rfl
  have hcalls : Purity.Calls Purity.declared.store Store.empty.fresh "f" ⟨13⟩ := ⟨rfl, _, rfl⟩
  obtain ⟨frame, t, hbody, hpart⟩ :=
    Purity.exists_part_call hcalls (show 6 ≤ 9988 by decide)
  obtain ⟨w, u, hw, hreaches⟩ :=
    Purity.exists_fields_of_calls (show 0 < 9985 by decide) hbody
  refine ⟨w, u, hw ▸ Purity.callFree_fields "g" 20, .part (Nat.zero_le _) (.statement hdone) ?_⟩
  exact .part (by decide) hpart (.skip (.skip (.skip hreaches)))

end Scriptlet
