import Scriptlet.Proofs.Cutoff
import Scriptlet.Proofs.Inversion

/-!
# What an Evaluation Takes

A single evaluation takes so many levels: with these it goes one way, however many more there are,
and with fewer it is cut off. The number is put together from what the steps take, each counted from
where it happens. It is the largest of those that come before the evaluation ends, so a fault that
is met early may spare what would have gone deeper.

Where an evaluation is cut off it may have changed the session already. What is known of the session
then is carried along.

## Main definitions

* `Eval.Takes`: an evaluation that takes so many levels.
* `Platform.HasRoom`: room to make a program of a text, and for as many levels.

## Main results

* `Eval.Takes.bind`, `Eval.Takes.sub`: one evaluation after another, and one further down.
* `takes_evaluateSpaced`: a node takes what its rule takes.
* `Eval.exists_takes`: what goes one way with many levels takes so many.
* `exists_takes_operation`: an operator node with operands that change nothing.
* `Eval.Takes.executes`: what becomes of a text.
-/

namespace Scriptlet

namespace Eval

variable {α β : Type}

/-- Whether an evaluation takes `need` levels: with so many, and with more, it ends in one way. With
fewer it is cut off in a session of which `P` is true. -/
structure Takes (P : Session → Prop) (s : Session) (e : (levels : Nat) → Eval α) (need : Nat)
    (result : Except Exit α) (t : Session) : Prop where
  enough : ∀ levels, need ≤ levels → (e levels).runIn s = (result, t)
  short : ∀ levels, levels < need → ∃ u, P u ∧ (e levels).runIn s = (.error .tooDeep, u)

namespace Takes

variable {P : Session → Prop} {s t u : Session} {e e' : (levels : Nat) → Eval α} {need more : Nat}
  {result : Except Exit α}

/-- Only how an evaluation goes counts. -/
theorem congr (h : Takes P s e need result t)
    (he : ∀ levels, (e' levels).runIn s = (e levels).runIn s) : Takes P s e' need result t where
  enough levels hle := (he levels).trans (h.enough levels hle)
  short levels hlt := by
    rw [he]
    exact h.short levels hlt

/-- The number may be written in another way. -/
theorem of_eq (h : Takes P s e need result t) (hn : need = more) : Takes P s e more result t :=
  hn ▸ h

/-- What happens at once takes nothing. -/
theorem step {x : Except Exit α} (h : ∀ levels, (e levels).runIn s = (x, t)) :
    Takes P s e 0 x t where
  enough levels _ := h levels
  short _ hlt := absurd hlt (Nat.not_lt_zero _)

/-- A value that is there takes nothing. -/
theorem pure (a : α) : Takes P s (fun _ => Pure.pure a) 0 (.ok a) s := step fun _ => rfl

/-- Room for so many levels takes as many. -/
theorem reserve (hs : P s) (need : Nat) :
    Takes P s (fun levels => Eval.reserve levels need) need (.ok ()) s where
  enough levels hle := runIn_reserve_of_le hle s
  short levels hlt := by
    refine ⟨s, hs, ?_⟩
    rw [Eval.reserve, if_neg (Nat.not_le_of_lt hlt)]
    rfl

/-- Some levels further down it takes as many more. -/
theorem sub (h : Takes P s e need result t) (hpos : 0 < need) (k : Nat) :
    Takes P s (fun levels => e (levels - k)) (need + k) result t where
  enough levels hle := h.enough (levels - k) (by omega)
  short levels hlt := h.short (levels - k) (by omega)

/-- What is known of the session when an evaluation is cut off. -/
theorem cut {Q : Session → Prop} (h : Takes P s e need result t)
    (hq : ∀ levels u, (e levels).runIn s = (.error .tooDeep, u) → Q u) :
    Takes Q s e need result t where
  enough := h.enough
  short levels hlt := by
    obtain ⟨u, -, hrun⟩ := h.short levels hlt
    exact ⟨u, hq levels u hrun, hrun⟩

/-! #### Sequences -/

/-- One evaluation after another: as many levels as the one or the other takes. -/
theorem bind {f : (levels : Nat) → α → Eval β} {a : α} {result : Except Exit β}
    (he : Takes P s e need (.ok a) t) (hf : Takes P t (fun levels => f levels a) more result u) :
    Takes P s (fun levels => e levels >>= f levels) (max need more) result u where
  enough levels hle := by
    rw [runIn_bind_of_ok (he.enough levels (by omega)), hf.enough levels (by omega)]
  short levels hlt := by
    by_cases hneed : levels < need
    · obtain ⟨v, hv, hrun⟩ := he.short levels hneed
      refine ⟨v, hv, ?_⟩
      rw [runIn_bind, hrun]
    · obtain ⟨v, hv, hrun⟩ := hf.short levels (by omega)
      refine ⟨v, hv, ?_⟩
      rw [runIn_bind_of_ok (he.enough levels (by omega)), hrun]

/-- Nothing comes after an evaluation that is left early. -/
theorem bind_error {f : (levels : Nat) → α → Eval β} {x : Exit}
    (he : Takes P s e need (.error x) t) :
    Takes P s (fun levels => e levels >>= f levels) need (.error x) t where
  enough levels hle := by rw [runIn_bind, he.enough levels hle]
  short levels hlt := by
    obtain ⟨v, hv, hrun⟩ := he.short levels hlt
    refine ⟨v, hv, ?_⟩
    rw [runIn_bind, hrun]

end Takes

/-- **What goes one way with many levels takes so many**, if more levels only let it go on where it
was cut off before. -/
theorem exists_takes {s t : Session} {e : (levels : Nat) → Eval α} {result : Except Exit α}
    (hshort : ∀ {few many : Nat}, few ≤ many → ShortOf (e few) (e many))
    (hx : result ≠ .error .tooDeep)
    (h : ∀ᶠ levels in Filter.atTop, (e levels).runIn s = (result, t)) :
    ∃ need, Takes (fun u => ∃ more, t.output = u.output ++ more) s e need result t := by
  obtain ⟨enough, henough⟩ := Filter.eventually_atTop.mp h
  have hends : ∃ levels, ((e levels).runIn s).1 ≠ .error .tooDeep :=
    ⟨enough, by rwa [henough enough le_rfl]⟩
  classical
  refine ⟨Nat.find hends, fun levels hle => ?_, fun levels hlt => ?_⟩
  · -- with as many levels as both are enough for, the two evaluations are one
    have hleast := ((hshort hle).cutOf s).whole_eq (Nat.find_spec hends)
    have hlevels : ((e levels).runIn s).1 ≠ .error .tooDeep := hleast ▸ Nat.find_spec hends
    have hmore := ((hshort (le_max_left levels enough)).cutOf s).whole_eq hlevels
    rw [← hmore, henough _ (le_max_right levels enough)]
  · have hdeep := not_not.mp (Nat.find_min hends hlt)
    have hmore := ((hshort (le_max_left levels enough)).cutOf s).output hdeep
    rw [henough _ (le_max_right levels enough)] at hmore
    exact ⟨_, hmore, Prod.ext hdeep rfl⟩

end Eval

open Eval (Takes)

section

variable {P : Session → Prop} {stack : Stack} {s t : Session} {frame f : Ref} {need : Nat}
  {result : Except Exit Value}

/-! ### Nodes -/

/-- **A node takes what its rule takes**, and one level for itself. -/
theorem takes_evaluateSpaced {n : Node} (hs : P s)
    (h : Takes P s (fun levels => evaluateWith (evaluateParts stack levels) n frame) need result t)
    (gap : Nat) :
    Takes P s (fun levels => evaluateSpaced stack levels gap n frame)
      (max need (stack.rule n.kind) + 1 + gap) (result.mapError (Exit.onLine n.line)) t where
  enough levels hle := by
    obtain ⟨below, hbelow⟩ := Nat.exists_eq_add_of_le' (show 1 ≤ levels - gap by omega)
    rw [evaluateSpaced_eq_sub, hbelow, runIn_evaluateSpaced_succ (by omega),
      h.enough below (by omega)]
  short levels hlt := by
    rw [evaluateSpaced_eq_sub]
    cases hbelow : levels - gap with
    | zero => exact ⟨s, hs, rfl⟩
    | succ below =>
        rcases Nat.lt_or_ge below (stack.rule n.kind) with hrule | hrule
        · exact ⟨s, hs, runIn_evaluateSpaced_of_lt hrule frame s⟩
        · obtain ⟨u, hu, hrun⟩ := h.short below (by omega)
          refine ⟨u, hu, ?_⟩
          rw [runIn_evaluateSpaced_succ hrule, hrun]
          rfl

/-- A literal takes its rule and one level for itself. -/
theorem takes_literal (hs : P s) (v : Value) (serial : Nat) (line : Int) (gap : Nat) :
    Takes P s (fun levels => evaluateSpaced stack levels gap (.literal v serial line) frame)
      (stack.rule "Literal" + 1 + gap) (.ok v) s := by
  have hrule : Takes P s (fun levels =>
      evaluateWith (evaluateParts stack levels) (.literal v serial line) frame) 0 (.ok v) s :=
    .pure v
  have h := takes_evaluateSpaced hs hrule gap
  rwa [Nat.zero_max] at h

/-- So does a name, whatever is read. -/
theorem takes_name (hs : P s) (x : String) (line : Int) (gap : Nat) :
    Takes P s (fun levels => evaluateSpaced stack levels gap (.name x line) frame)
      (stack.rule "LocalVarAccess" + 1 + gap) (.ok (s.store.read frame x)) s := by
  have hrule : Takes P s (fun levels =>
      evaluateWith (evaluateParts stack levels) (.name x line) frame) 0
        (.ok (s.store.read frame x)) s := .step fun _ => Eval.runIn_read frame x s
  have h := takes_evaluateSpaced hs hrule gap
  rwa [Nat.zero_max] at h

/-- A part of a node takes what lies between as well. -/
theorem Eval.Takes.part {n : Node}
    (h : Takes P s (fun levels => evaluate stack levels n frame) (need + 1) result t)
    (role : Role) :
    Takes P s (fun levels => evaluateParts stack levels role n frame)
      (need + 1 + stack.part role) result t := by
  refine (h.sub (Nat.succ_pos need) (stack.part role)).congr fun levels => ?_
  exact congrArg (Eval.runIn · s) (evaluateSpaced_eq_sub stack levels (stack.part role) n frame)

/-- A call of what a name is bound to begins with the name. -/
theorem takes_call {x : String} {place line : Int} {operands : List Node} {a : Action} (hs : P s)
    (hread : s.store.read frame x = .object f) (ha : s.store.action? f = some a)
    (h : Takes P s (fun levels => do
      let values ← operands.mapM fun n => evaluateParts stack levels .argument n frame
      invoke (evaluateParts stack levels) f .undefined values) need result t) :
    Takes P s (fun levels =>
        evaluateWith (evaluateParts stack levels) (.call (.name x place) operands line) frame)
      (max (stack.rule "LocalVarAccess" + 1 + stack.part .operand) need) result t := by
  have hname : Takes P s (fun levels =>
      evaluateParts stack levels .operand (.name x place) frame)
        (stack.rule "LocalVarAccess" + 1 + stack.part .operand) (.ok (s.store.read frame x)) s :=
    takes_name hs x place (stack.part .operand)
  have hfunction : Takes P s (fun levels =>
      requireFunction (evaluateParts stack levels) (s.store.read frame x)) 0 (.ok f) s := by
    refine .step fun levels => ?_
    rw [hread, requireFunction, Eval.runIn_bind_of_ok (Eval.runIn_store s), ha]
    rfl
  refine .bind hname (.of_eq (.bind hfunction h) (Nat.zero_max _))

/-- A built-in function takes what it minds itself. -/
theorem takes_invoke_of_builtin {b : Builtin} {values : List Value} {receiver : Value}
    (ha : s.store.action? f = some (.builtin b))
    (h : Takes P s (fun levels => b.apply stack levels values) need result t) :
    Takes P s (fun levels => invoke (evaluateParts stack levels) f receiver values) need result
      t := by
  refine h.congr fun levels => ?_
  have hroom : (evaluateParts stack levels).admits s.store f = true := by
    rw [Evaluator.admits, ha]
  rw [runIn_invoke_of_admits hroom]
  exact runIn_call_of_builtin _ (i := ⟨f, receiver, values, s⟩) ha

/-- An operator takes what its stack says. -/
theorem takes_operator (hs : P s) (op : Operator) (values : List Value) :
    Takes P s (fun levels => (Builtin.operator op).apply stack levels values)
      (stack.operation op values (op.applyTo values)) ((op.applyTo values).mapError .fault) s := by
  refine .of_eq (.bind (.reserve hs _) (.step fun _ => ?_)) (Nat.max_zero _)
  cases op.applyTo values with
  | ok v => rfl
  | error f => rfl

/-- One operand takes what it takes as an argument. -/
theorem takes_operand {n : Node} {v : Value}
    (h : Takes P s (fun levels => evaluate stack levels n frame) (need + 1) (.ok v) t) :
    Takes P s (fun levels => [n].mapM fun n => evaluateParts stack levels .argument n frame)
      (need + 1 + stack.part .argument) (.ok [v]) t := by
  simp only [List.mapM_cons, List.mapM_nil]
  exact .of_eq (.bind (h.part .argument) (.bind (.pure []) (.pure [v]))) (by simp)

/-- A block of one statement takes what the statement takes. -/
theorem takes_block {n : Node} {line : Int}
    (h : Takes P s (fun levels => evaluate stack levels n frame) (need + 1) result t) :
    Takes P s (fun levels => evaluateWith (evaluateParts stack levels) (.block [n] line) frame)
      (need + 1 + stack.part .statement) (result.map fun _ => .undefined) t := by
  cases result with
  | error x => exact .bind_error (.bind_error (.bind_error (h.part .statement)))
  | ok v =>
      exact .of_eq (.bind (.bind (.bind (h.part .statement) (.pure ())) (.pure ()))
        (.pure Value.undefined)) (by simp)

end

/-! ### Operators -/

variable {stack : Stack} {a b : Nat} {x y : Except Exit Value}

/-- Two operands that change nothing take what the one or the other takes, and the second one
nothing if the evaluation ends in the first one. -/
theorem exists_takes_operands (stack : Stack) (a b : Nat) (x y : Except Exit Value) :
    ∃ need, ((∃ v, x = .ok v) → (∃ w, y = .ok w) → max a b + stack.part .argument < need) ∧
      ∀ {P : Session → Prop} {s : Session} {frame : Ref} {m n : Node},
        Takes P s (fun levels => evaluate stack levels m frame) (a + 1) x s →
        Takes P s (fun levels => evaluate stack levels n frame) (b + 1) y s →
        Takes P s (fun levels => [m, n].mapM fun n => evaluateParts stack levels .argument n frame)
          need (x >>= fun v => y >>= fun w => .ok [v, w]) s := by
  simp only [List.mapM_cons, List.mapM_nil]
  cases x with
  | error x => exact ⟨_, nofun, fun hm _ => .bind_error (hm.part .argument)⟩
  | ok v =>
      cases y with
      | error y =>
          exact ⟨_, fun _ => nofun, fun hm hn => .bind (hm.part .argument)
            (.bind_error (.bind_error (hn.part .argument)))⟩
      | ok w =>
          refine ⟨_, fun _ _ => ?_, fun hm hn => .bind (hm.part .argument)
            (.bind (.bind (hn.part .argument) (.bind (.pure []) (.pure [w]))) (.pure [v, w]))⟩
          omega

/-- **An operator node takes what its operands and its operator take**, if the operands change
nothing. How much that is depends on what they take, and on how they end, but not on where they are
evaluated: an operand in which the node ends leaves out what would come after. -/
theorem exists_takes_operation (stack : Stack) (op : Operator) (a b : Nat)
    (x y : Except Exit Value) :
    ∃ need, ((∃ v, x = .ok v) → (∃ w, y = .ok w) → max a b + stack.part .argument < need) ∧
      ∀ {P : Session → Prop} {s : Session} {frame f : Ref} {m n : Node} (line : Int), P s →
        s.store.read frame op.symbol = .object f →
        s.store.action? f = some (.builtin (.operator op)) →
        Takes P s (fun levels => evaluate stack levels m frame) (a + 1) x s →
        Takes P s (fun levels => evaluate stack levels n frame) (b + 1) y s →
        Takes P s (fun levels => evaluate stack levels (.operation op.symbol [m, n] line) frame)
          (need + 1) ((x >>= fun v => y >>= fun w =>
            (op.apply v w).mapError .fault).mapError (Exit.onLine line)) s := by
  obtain ⟨more, hmore, hoperands⟩ := exists_takes_operands stack a b x y
  -- the rule of a call, which is on the line of its name here
  have node {P : Session → Prop} {s : Session} {frame f : Ref} {m n : Node} {line : Int}
      {need : Nat} {result : Except Exit Value} (hs : P s)
      (hread : s.store.read frame op.symbol = .object f)
      (haction : s.store.action? f = some (.builtin (.operator op)))
      (h : Takes P s (fun levels => do
        let values ← [m, n].mapM fun n => evaluateParts stack levels .argument n frame
        invoke (evaluateParts stack levels) f .undefined values) need result s) :
      Takes P s (fun levels => evaluate stack levels (.operation op.symbol [m, n] line) frame)
        (max (max (stack.rule "LocalVarAccess" + 1 + stack.part .operand) need)
          (stack.rule "FunCall") + 1) (result.mapError (Exit.onLine line)) s :=
    takes_evaluateSpaced (n := .operation op.symbol [m, n] line) hs
      (takes_call hs hread haction h) 0
  -- an operand in which the evaluation ends spares what would come behind it
  cases x with
  | error x =>
      exact ⟨_, nofun, fun line hs hr ha hm hn => node hs hr ha (.bind_error (hoperands hm hn))⟩
  | ok v =>
      cases y with
      | error y =>
          exact ⟨_, fun _ => nofun, fun line hs hr ha hm hn =>
            node hs hr ha (.bind_error (hoperands hm hn))⟩
      | ok w =>
          refine ⟨_, fun hx hy => ?_, fun line hs hr ha hm hn => node hs hr ha
            (.bind (hoperands hm hn) (takes_invoke_of_builtin ha (takes_operator hs op [v, w])))⟩
          have hneed := hmore hx hy
          omega

/-! ### Programs -/

/-- A program ends as its evaluation does. -/
theorem executeProgram_of_evaluate {on : Platform} {program : Node} {t : Session}
    {result : Except Exit Value}
    (h : (evaluate on.stack on.limit program Store.empty.fresh).runIn
      (Session.empty.started program) = (result, t)) (hx : ∀ v, result ≠ .error (.returned v)) :
    (executeProgram on program).output = t.output ∧
      (executeProgram on program).ending = .ofResult result := by
  rw [output_executeProgram, ending_executeProgram, runIn_inOwnGlobal, Eval.runIn_bind,
    Eval.runIn_discard, Eval.refuseReturn, Eval.runIn_tryCatch]
  rw [show Session.empty.store.fresh = Store.empty.fresh from rfl, h]
  cases result with
  | ok v => exact ⟨rfl, rfl⟩
  | error x =>
      cases x with
      | returned v => exact absurd rfl (hx v)
      | mistake | fault | tooDeep => exact ⟨rfl, rfl⟩

/-- Whether a platform has room to make a program of a text, and to evaluate it so deep. -/
def Platform.HasRoom (on : Platform) (source : String) (need : Nat) : Prop :=
  on.lowers (Source.tokenTexts source) = true ∧ need ≤ on.limit

/-- What becomes of a text whose program takes so many levels. It ends as the program does, or too
deep if there is no room for it. -/
theorem Eval.Takes.executes {P : Session → Prop} {on : Platform} {source : String} {program : Node}
    {need : Nat} {result : Except Exit Value} {t : Session}
    (h : Takes P (Session.empty.started program)
      (fun levels => evaluate on.stack levels program Store.empty.fresh) need result t)
    (hprogram : Source.program source = .ok program)
    (hx : ∀ v, result ≠ .error (.returned v)) :
    (on.HasRoom source need →
      (execute on source).ending = .ofResult result ∧ (execute on source).output = t.output) ∧
    (¬on.HasRoom source need → (execute on source).ending = .tooDeep ∧
      ((execute on source).output = "" ∨ ∃ u, P u ∧ (execute on source).output = u.output)) := by
  refine ⟨fun ⟨hlowers, hneed⟩ => ?_, fun hroom => ?_⟩
  · obtain ⟨houtput, hending⟩ := executeProgram_of_evaluate (h.enough on.limit hneed) hx
    rw [execute_of_lowers hprogram hlowers]
    exact ⟨hending, houtput⟩
  · cases hlowers : on.lowers (Source.tokenTexts source) with
    | false =>
        rw [execute_of_not_lowers hprogram hlowers]
        exact ⟨rfl, .inl rfl⟩
    | true =>
        have hlimit : on.limit < need := Nat.lt_of_not_le fun hle => hroom ⟨hlowers, hle⟩
        obtain ⟨u, hu, hdeep⟩ := h.short on.limit hlimit
        obtain ⟨houtput, hending⟩ := executeProgram_of_evaluate hdeep (by simp)
        rw [execute_of_lowers hprogram hlowers]
        exact ⟨hending, .inr ⟨u, hu, houtput⟩⟩

end Scriptlet
