import Scriptlet.Proofs.Course
import Scriptlet.Proofs.Persistence

/-!
# What an Evaluation Leaves There

An evaluation takes nothing back. However it ends, the objects that were there before it are there
behind it, with the same name, parent and action, and with the names that they owned in the same
order; what was printed is still printed, and more may stand behind it. Nothing is asked of the
session here, nor of the node: frames may be any objects, in any state.

Printing is the one way to print, and it needs the texts of all arguments before it writes any.

## Main definitions

* `Session.Grows`: a later session, in which nothing was taken back.
* `Accumulates`: evaluations that leave such a session behind.

## Main results

* `runIn_printLine`: what printing writes, if it writes anything.
* `accumulates_evaluateSpaced`, `evaluate_accumulates`: an evaluation takes nothing back.
-/

namespace Scriptlet

/-! ### Printing -/

/-- How an evaluation is left that needs a text where there is none. -/
def NoText.exit : NoText → Exit
  | oversized => .fault .oversizedNumeral
  | tooDeep => .tooDeep

/-- Where there is no text, the exit is one that is raised. -/
theorem NoText.raised_exit (why : NoText) : why.exit.Raised := by
  cases why <;> trivial

/-- Writing a text changes nothing. -/
theorem Eval.runIn_written (text : Except NoText String) (s : Session) :
    (Eval.written text).runIn s = (text.mapError NoText.exit, s) := by
  rcases text with (_ | _) | _ <;> rfl

/-- Nor does writing several. -/
theorem Eval.runIn_mapM_written (texts : Value → Except NoText String) (values : List Value)
    (s : Session) :
    (values.mapM fun v => Eval.written (texts v)).runIn s =
      ((values.mapM texts).mapError NoText.exit, s) := by
  induction values with
  | nil => rfl
  | cons v rest ih =>
      rw [List.mapM_cons, List.mapM_cons, Eval.runIn_bind, Eval.runIn_written]
      cases texts v with
      | error why => rfl
      | ok text =>
          show Eval.runIn (_ >>= _) s = _
          rw [Eval.runIn_bind, ih]
          cases List.mapM texts rest <;> rfl

section

variable (stack : Stack) (levels : Nat) (arguments : List Value) (s : Session)

/-- A line is written if every value on it has a text. -/
theorem runIn_printLine : (printLine stack levels arguments).runIn s =
    match arguments.mapM (s.store.printed stack.text (levels - stack.above .print)) with
    | .error why => (.error why.exit, s)
    | .ok printed =>
      (.ok .undefined, { s with output := s.output ++ (" ".intercalate printed ++ "\n") }) := by
  rw [printLine, Eval.runIn_bind, Eval.runIn_store]
  dsimp only
  rw [Eval.runIn_bind, Eval.runIn_mapM_written]
  cases arguments.mapM (s.store.printed stack.text (levels - stack.above .print)) <;> rfl

/-- Computing an operator changes nothing. -/
theorem Builtin.runIn_operator (op : Operator) :
    ((Builtin.operator op).apply stack levels arguments).runIn s =
      (if stack.operation op arguments (op.applyTo arguments) ≤ levels then
        (op.applyTo arguments).mapError .fault else .error .tooDeep, s) := by
  rw [apply, Eval.reserve]
  split
  · cases op.applyTo arguments <;> rfl
  · rfl

end

section

variable {stack : Stack} {levels : Nat} {arguments : List Value} {s t : Session}

/-- A note of what is printed leaves objects and output alone. -/
theorem cases_of_notePrinting {result : Except Exit Unit}
    (h : (notePrinting stack levels arguments).runIn s = (result, t)) :
    t.store = s.store ∧ t.output = s.output ∧ (result = .ok () ∨ result = .error .tooDeep) := by
  unfold notePrinting at h
  split at h
  next =>
    rcases Eval.cases_of_runIn_bind h with ⟨x, hx, rfl⟩ | ⟨_, u, hu, hnote⟩
    · obtain ⟨rfl, ⟨-, hw⟩ | ⟨-, hw⟩⟩ := Eval.cases_of_runIn_reserve hx
      · cases hw
      · exact ⟨rfl, rfl, .inr hw⟩
    obtain ⟨rfl, -⟩ := Eval.cases_of_runIn_reserve hu
    rw [Eval.runIn_bind_of_ok (Eval.runIn_store u)] at hnote
    split at hnote
    · obtain ⟨rfl, rfl⟩ := Prod.mk.inj hnote
      exact ⟨rfl, rfl, .inl rfl⟩
    · obtain ⟨rfl, rfl⟩ := Prod.mk.inj hnote
      exact ⟨rfl, rfl, .inl rfl⟩
    · obtain ⟨rfl, rfl⟩ := Prod.mk.inj hnote
      exact ⟨rfl, rfl, .inr rfl⟩
  next =>
    obtain ⟨rfl, rfl⟩ := Prod.mk.inj h
    exact ⟨rfl, rfl, .inl rfl⟩

/-- Printing leaves the objects alone. It writes something, or one of the values has no text. -/
theorem Builtin.cases_of_print {result : Except Exit Value}
    (h : (Builtin.print.apply stack levels arguments).runIn s = (result, t)) :
    t.store = s.store ∧
      ((result = .ok .undefined ∧ ∃ more, t.output = s.output ++ more) ∨
        ((∃ why : NoText, result = .error why.exit) ∧ t.output = s.output)) := by
  rcases Eval.cases_of_runIn_bind h with ⟨x, hx, rfl⟩ | ⟨_, u, hu, hnoted⟩
  · obtain ⟨rfl, ⟨-, hw⟩ | ⟨-, hw⟩⟩ := Eval.cases_of_runIn_reserve hx
    · cases hw
    · obtain rfl := Except.error.inj hw
      exact ⟨rfl, .inr ⟨⟨.tooDeep, rfl⟩, rfl⟩⟩
  obtain ⟨rfl, -⟩ := Eval.cases_of_runIn_reserve hu
  rcases Eval.cases_of_runIn_bind hnoted with ⟨x, hx, rfl⟩ | ⟨_, w, hw, hline⟩
  · obtain ⟨hstore, houtput, hx | hx⟩ := cases_of_notePrinting hx
    · cases hx
    · obtain rfl := Except.error.inj hx
      exact ⟨hstore, .inr ⟨⟨.tooDeep, rfl⟩, houtput⟩⟩
  obtain ⟨hstore, houtput, -⟩ := cases_of_notePrinting hw
  rw [← hstore, ← houtput]
  rw [runIn_printLine] at hline
  split at hline
  next why hwhy =>
    obtain ⟨rfl, rfl⟩ := Prod.mk.inj hline
    exact ⟨rfl, .inr ⟨⟨why, rfl⟩, rfl⟩⟩
  next printed hprinted =>
    obtain ⟨rfl, rfl⟩ := Prod.mk.inj hline
    exact ⟨rfl, .inl ⟨rfl, _, rfl⟩⟩

/-- A built-in function makes and changes no object. -/
theorem Builtin.store_apply {b : Builtin} {result : Except Exit Value}
    (h : (b.apply stack levels arguments).runIn s = (result, t)) : t.store = s.store := by
  cases b with
  | print => exact (cases_of_print h).1
  | operator op =>
      rw [runIn_operator] at h
      rw [(Prod.mk.inj h).2]

end

/-! ### Sessions in which nothing is taken back -/

/-- Whether a session is a later one, in which no object and no output was taken back. -/
structure Session.Grows (s t : Session) : Prop where
  store : s.store.Grows t.store
  output : ∃ more, t.output = s.output ++ more

namespace Session.Grows

variable {s t u : Session}

/-- A session is as large as it is. -/
theorem refl (s : Session) : s.Grows s := ⟨.refl s.store, "", by simp⟩

/-- What has grown twice has grown. -/
theorem trans (h : s.Grows t) (h' : t.Grows u) : s.Grows u := by
  obtain ⟨more, hmore⟩ := h.output
  obtain ⟨more', hmore'⟩ := h'.output
  refine ⟨h.store.trans h'.store, more ++ more', ?_⟩
  rw [hmore', hmore, String.append_assoc]

/-- Where nothing is printed, only the objects count. -/
theorem of_store (h : s.store.Grows t.store) (ho : t.output = s.output) : s.Grows t :=
  ⟨h, "", by simp [ho]⟩

end Session.Grows

/-- A built-in function takes nothing away. -/
theorem Builtin.grows_apply {stack : Stack} {levels : Nat} {b : Builtin} {arguments : List Value}
    {s t : Session} {result : Except Exit Value}
    (h : (b.apply stack levels arguments).runIn s = (result, t)) : s.Grows t := by
  have hstore : s.store.Grows t.store := store_apply h ▸ .refl s.store
  cases b with
  | print =>
      rcases (cases_of_print h).2 with ⟨-, houtput⟩ | ⟨-, houtput⟩
      · exact ⟨hstore, houtput⟩
      · exact .of_store hstore houtput
  | operator op =>
      rw [runIn_operator] at h
      obtain ⟨-, rfl⟩ := Prod.mk.inj h
      exact .refl s

/-! ### Evaluations -/

/-- Whether evaluations take nothing back. -/
def Accumulates (run : Node → Ref → Eval Value) : Prop :=
  ∀ n frame (s : Session), s.Grows ((run n frame).runIn s).2

section

variable {eval : Evaluator} {v : Visit} {s t : Session}

/-- A step of a visit takes nothing back, if its parts do not. -/
theorem Step.grows (h : Step eval v s t) (heval : ∀ role, Accumulates (eval role)) :
    s.Grows t := by
  cases h with
  | @part v w role result t hp hw =>
      have hpart := heval role w.node w.frame w.session
      rwa [hw] at hpart
  | @put v w object name x t hp hw =>
      have hpart := heval .operand w.node w.frame w.session
      rw [hw] at hpart
      exact hpart.trans (.of_store (Store.grows_put _ _ _ _) rfl)
  | function | record => exact .of_store (Store.grows_add _ _) rfl
  | named | this => exact .of_store (Store.grows_put _ _ _ _) rfl
  | enter => exact .of_store (.trans (Store.grows_add _ _) (Store.grows_putAll _ _ _)) rfl
  | builtin _ _ hr => exact Builtin.grows_apply hr

/-- Nor does anything that a rule does. -/
theorem Course.grows (h : Course eval v s t) (heval : ∀ role, Accumulates (eval role)) :
    s.Grows t := by
  induction h with
  | refl => exact .refl _
  | tail _ hstep ih => exact ih.trans (hstep.grows heval)

end

/-- An evaluation takes nothing back. -/
theorem accumulates_evaluateSpaced (stack : Stack) (levels gap : Nat) :
    Accumulates (evaluateSpaced stack levels gap) := by
  intro n frame s
  refine evaluateSpaced_induction (motive := fun _ _ v t => v.session.Grows t) (.refl _) id ?_
    (v := ⟨n, frame, s⟩) (Prod.eta _).symm
  intro levels v t hparts hcourse
  exact hcourse.grows fun role n frame s => hparts (w := ⟨n, frame, s⟩) (Prod.eta _).symm

/-- Nor does the evaluation of a part. -/
theorem accumulates_evaluateParts (stack : Stack) (levels : Nat) (role : Role) :
    Accumulates (evaluateParts stack levels role) :=
  accumulates_evaluateSpaced stack levels (stack.part role)

/-- **An evaluation takes nothing back**, whatever node it is of, in whatever frame and session, and
however it ends: with a value, by a `return`, by a mistake or a fault, or because it is nested too
deeply. Every object that was there is there behind it, with the same name, parent and action, and
the names that it owned come first among those that it owns, in the same order. The output that
was there comes first in the output. -/
theorem evaluate_accumulates (stack : Stack) (levels : Nat) (n : Node) (frame : Ref) (s : Session) :
    (∀ r o, s.store.object? r = some o → ∃ o',
      ((evaluate stack levels n frame).runIn s).2.store.object? r = some o' ∧
      o'.name = o.name ∧ o'.parent = o.parent ∧ o'.action = o.action ∧
      o.entries.names <+: o'.entries.names) ∧
    ∃ more, ((evaluate stack levels n frame).runIn s).2.output = s.output ++ more := by
  have hgrows : s.Grows ((evaluate stack levels n frame).runIn s).2 :=
    accumulates_evaluateSpaced stack levels 0 n frame s
  refine ⟨fun r o ho => ?_, hgrows.output⟩
  obtain ⟨o', ho', h⟩ := hgrows.store r o ho
  exact ⟨o', ho', h.name, h.parent, h.action, h.names⟩

namespace Accumulation

/-- A declaration, a line that is printed, and a call of nothing. -/
def node : Node :=
  .block [.assign "x" (.constant (.integer 1) 1) true 1,
    .call (.name "print" 2) [.constant (.string "a") 2] 2, .call (.name "y" 3) [] 3] 1

/-- There is a global frame, and nothing has been done. -/
def session : Session := ⟨Store.empty.addGlobal, "", #[]⟩

end Accumulation

/-- The mistake takes nothing back of what was declared and printed before it. -/
theorem accumulates_lateMistake :
    ∃ s, (evaluate .standard 40 Accumulation.node Store.empty.fresh).runIn Accumulation.session =
        (.error (.mistake (.notAFunction "undefined") (some 3)), s) ∧
      (∃ o o', Accumulation.session.store.object? Store.empty.fresh = some o ∧
        s.store.object? Store.empty.fresh = some o' ∧ o.entries.names <+: o'.entries.names) ∧
      s.store.names Store.empty.fresh =
        Accumulation.session.store.names Store.empty.fresh ++ ["x"] ∧
      s.output = "a\n" := by
  have hends : ((evaluate .standard 40 Accumulation.node Store.empty.fresh).runIn
      Accumulation.session).1 = .error (.mistake (.notAFunction "undefined") (some 3)) := by
    with_unfolding_all rfl
  obtain ⟨o, ho⟩ : ∃ o, Accumulation.session.store.object? Store.empty.fresh = some o := ⟨_, rfl⟩
  obtain ⟨hobjects, -⟩ :=
    evaluate_accumulates .standard 40 Accumulation.node Store.empty.fresh Accumulation.session
  obtain ⟨o', ho', -, -, -, hnames⟩ := hobjects Store.empty.fresh o ho
  exact ⟨_, Prod.ext hends rfl, ⟨o, o', ho, ho', hnames⟩,
    by with_unfolding_all rfl, by with_unfolding_all rfl⟩

end Scriptlet
