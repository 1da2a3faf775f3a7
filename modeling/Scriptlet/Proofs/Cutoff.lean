import Scriptlet.Execution
import Scriptlet.Proofs.Accumulation
import Scriptlet.Proofs.Depth

/-!
# What the Limit on Nesting Cuts Off

Whatever a run does takes levels: visits inside one another, and also what happens in a visit, such
as calls, mistakes, and the texts of values that are printed, noted or shown in an error message.
Where there are too few, the run is cut off. Nothing that is evaluated can see how many there are,
and whatever is on its way out passes everything around it. So with more levels there is the same
run, which goes on where it was cut off before.

`ShortOf` says that of two evaluations. It is shown of the single steps, each of which takes its
levels in its own way, and it is kept when evaluations are put together. So the rule of a node is
short of the same rule with more levels if its parts are (`Evaluator.ShortOf.evaluateWith`), and the
rest is an induction on the levels.

## Main definitions

* `CutOf`: an outcome that is another one, or was cut off on the way there.
* `Eval.ShortOf`: an evaluation that has such outcomes in every session.

## Main results

* `shortOf_evaluateSpaced`: an evaluation with fewer levels.
* `limit_cutsOff`: what that means for visits, for built-in functions and for programs.
-/

namespace Scriptlet

/-- Whether an outcome is another one, or was cut off on the way there: what had been printed by
then comes first in the output of the other. -/
structure CutOf {α : Type} (cut whole : Except Exit α × Session) : Prop where
  whole_eq : cut.1 ≠ .error .tooDeep → whole = cut
  output : cut.1 = .error .tooDeep → ∃ more, whole.2.output = cut.2.output ++ more

namespace Eval

variable {α β : Type}

/-- Whether an evaluation is another one that may be cut off on the way. The other one takes no
output back, so that what was printed before the cut stays printed. -/
structure ShortOf (e e' : Eval α) : Prop where
  cutOf (s : Session) : CutOf (e.runIn s) (e'.runIn s)
  output (s : Session) : ∃ more, (e'.runIn s).2.output = s.output ++ more

/-! ### Single steps -/

namespace ShortOf

/-- What is cut off at once is short of everything that takes no output back. -/
theorem tooDeep {e : Eval α} (h : ∀ s : Session, ∃ more, (e.runIn s).2.output = s.output ++ more) :
    ShortOf (throw .tooDeep) e where
  cutOf s := ⟨absurd rfl, fun _ => h s⟩
  output := h

/-- What prints nothing and takes no levels is the same in any case. -/
theorem same {e : Eval α} (h : ∀ s : Session, (e.runIn s).2.output = s.output) : ShortOf e e where
  cutOf _ := ⟨fun _ => rfl, fun _ => ⟨"", String.append_empty.symm⟩⟩
  output s := ⟨"", (h s).trans String.append_empty.symm⟩

/-- A value that is known before. -/
theorem pure (a : α) : ShortOf (pure a : Eval α) (Pure.pure a) := same fun _ => rfl

/-- An exit that takes no levels. -/
theorem throw (x : Exit) : ShortOf (throw x : Eval α) (MonadExcept.throw x) := same fun _ => rfl

/-- Printing a text. -/
theorem write (text : String) : ShortOf (write text) (Eval.write text) where
  cutOf _ := ⟨fun _ => rfl, nofun⟩
  output _ := ⟨text, rfl⟩

/-- What needs levels may be cut off. -/
theorem reserve {few many : Nat} (h : few ≤ many) (need : Nat) :
    ShortOf (reserve few need) (Eval.reserve many need) := by
  unfold Eval.reserve
  split
  next hle =>
    rw [if_pos (hle.trans h)]
    exact .pure ()
  next =>
    refine .tooDeep fun s => ⟨"", ?_⟩
    rw [String.append_empty]
    split <;> rfl

/-- A text that needs levels may be cut off. -/
theorem written {text text' : Except NoText String} (h : NoText.ShortOf text text') :
    ShortOf (written text) (Eval.written text') := by
  by_cases hdeep : text = .error .tooDeep
  · subst hdeep
    refine .tooDeep fun s => ⟨"", ?_⟩
    rw [String.append_empty, Eval.runIn_written]
  · rw [h hdeep]
    exact same fun s => by rw [Eval.runIn_written]

/-! ### Evaluations put together -/

variable {e e' : Eval α}

/-- One evaluation after another: the first may be cut off, or else the second. -/
theorem bind {f f' : α → Eval β} (he : ShortOf e e') (hf : ∀ a, ShortOf (f a) (f' a)) :
    ShortOf (e >>= f) (e' >>= f') := by
  have houtput (s : Session) (x : Except Exit α) (t : Session) (hx : e'.runIn s = (x, t)) :
      ∃ more, ((e' >>= f').runIn s).2.output = t.output ++ more := by
    rw [runIn_bind, hx]
    cases x with
    | error x => exact ⟨"", String.append_empty.symm⟩
    | ok a => exact (hf a).output t
  refine ⟨fun s => ?_, fun s => ?_⟩
  · have hcut := he.cutOf s
    rcases hx : e.runIn s with ⟨x, t⟩
    rw [hx] at hcut
    by_cases hdeep : x = .error .tooDeep
    · subst hdeep
      -- both are cut off then, and with more levels the second one only adds to the output
      have hrun : (e >>= f).runIn s = (.error .tooDeep, t) := by rw [runIn_bind, hx]
      rw [hrun]
      refine ⟨absurd rfl, fun _ => ?_⟩
      obtain ⟨more, hmore⟩ := hcut.output rfl
      obtain ⟨rest, hrest⟩ := houtput s _ _ (Prod.eta _).symm
      exact ⟨more ++ rest, by rw [hrest, hmore, String.append_assoc]⟩
    · have hsame := hcut.whole_eq hdeep
      rw [runIn_bind, runIn_bind, hx, hsame]
      cases x with
      | error x => exact ⟨fun _ => rfl, fun _ => ⟨"", String.append_empty.symm⟩⟩
      | ok a => exact (hf a).cutOf t
  · obtain ⟨more, hmore⟩ := he.output s
    obtain ⟨rest, hrest⟩ := houtput s _ _ (Prod.eta _).symm
    exact ⟨more ++ rest, by rw [hrest, hmore, String.append_assoc]⟩

/-- What depends on the objects at the moment. -/
theorem store_bind {f f' : Store → Eval α} (h : ∀ s, ShortOf (f s) (f' s)) :
    ShortOf (store >>= f) (store >>= f') :=
  bind (same fun _ => rfl) h

/-- A result that is thrown away. -/
theorem discard (h : ShortOf e e') : ShortOf (discard e) (Functor.discard e') :=
  bind h fun _ => .pure ()

/-- A row of evaluations. -/
theorem mapM {k k' : α → Eval β} (h : ∀ a, ShortOf (k a) (k' a)) (as : List α) :
    ShortOf (as.mapM k) (as.mapM k') := by
  induction as with
  | nil => exact .pure []
  | cons a rest ih =>
      rw [List.mapM_cons, List.mapM_cons]
      exact (h a).bind fun b => ih.bind fun bs => .pure (b :: bs)

/-- A row of evaluations without results. -/
theorem forM {k k' : α → Eval Unit} (h : ∀ a, ShortOf (k a) (k' a)) (as : List α) :
    ShortOf (as.forM k) (as.forM k') := by
  induction as with
  | nil => exact .pure ()
  | cons a rest ih => exact (h a).bind fun _ => ih

/-- A handler that lets the cut pass, and prints nothing, keeps evaluations short of others. -/
theorem tryCatch {handler : Exit → Eval α} (h : ShortOf e e')
    (hpass : handler .tooDeep = MonadExcept.throw .tooDeep)
    (hquiet : ∀ x (s : Session), ((handler x).runIn s).2.output = s.output) :
    ShortOf (tryCatch e handler) (MonadExcept.tryCatch e' handler) := by
  have houtput (s : Session) : ((MonadExcept.tryCatch e' handler).runIn s).2.output =
      (e'.runIn s).2.output := by
    rw [runIn_tryCatch]
    rcases e'.runIn s with ⟨x | a, t⟩
    · exact hquiet x t
    · rfl
  refine ⟨fun s => ?_, fun s => by rw [houtput]; exact h.output s⟩
  have hcut := h.cutOf s
  rcases hx : e.runIn s with ⟨x, t⟩
  rw [hx] at hcut
  by_cases hdeep : x = .error .tooDeep
  · subst hdeep
    have hrun : (MonadExcept.tryCatch e handler).runIn s = (.error .tooDeep, t) := by
      rw [runIn_tryCatch, hx]
      dsimp only
      rw [hpass]
      rfl
    rw [hrun]
    refine ⟨absurd rfl, fun _ => ?_⟩
    rw [houtput]
    exact hcut.output rfl
  · have hsame := hcut.whole_eq hdeep
    rw [runIn_tryCatch, runIn_tryCatch, hx, hsame]
    refine ⟨fun _ => rfl, fun _ => ⟨"", String.append_empty.symm⟩⟩

/-- A mistake may get a line. -/
theorem onLine (line : Int) (h : ShortOf e e') : ShortOf (onLine line e) (Eval.onLine line e') := by
  rw [onLine_eq, onLine_eq]
  exact h.tryCatch rfl fun _ _ => rfl

/-- A `return` may end a body. -/
theorem catchReturn {e e' : Eval Value} (h : ShortOf e e') :
    ShortOf (catchReturn e) (Eval.catchReturn e') :=
  h.tryCatch rfl fun x _ => by cases x <;> rfl

/-- A `return` may be a mistake. -/
theorem refuseReturn {e e' : Eval Value} (h : ShortOf e e') :
    ShortOf (refuseReturn e) (Eval.refuseReturn e') :=
  h.tryCatch rfl fun x _ => by cases x <;> rfl

end ShortOf

end Eval

/-! ### The rules of evaluation -/

/-- Whether evaluations with an evaluator are those with another one, which has the same stack and
as many levels or more, unless they are cut off. -/
structure Evaluator.ShortOf (eval eval' : Evaluator) : Prop where
  stack : eval'.stack = eval.stack
  levels : eval.levels ≤ eval'.levels
  run (role : Role) (n : Node) (frame : Ref) :
    Eval.ShortOf (eval role n frame) (eval' role n frame)

open Eval (ShortOf)

/-- A built-in function with fewer levels. -/
theorem Builtin.shortOf_apply (stack : Stack) {few many : Nat} (h : few ≤ many) (b : Builtin)
    (arguments : List Value) :
    ShortOf (b.apply stack few arguments) (b.apply stack many arguments) := by
  cases b with
  | print =>
      refine .bind (.reserve h _) fun _ => .bind ?_ fun _ => .store_bind fun s => ?_
      · unfold notePrinting
        split
        · have hbelow := Nat.sub_le_sub_right h (stack.above .record)
          refine .bind (.reserve h _) fun _ => .store_bind fun s => ?_
          have hdescribed : NoText.ShortOf
              (arguments.mapM (s.describe stack.text (few - stack.above .record)))
              (arguments.mapM (s.describe stack.text (many - stack.above .record))) :=
            .mapM fun v _ => s.shortOf_describe hbelow v
          by_cases hdeep : arguments.mapM (s.describe stack.text (few - stack.above .record)) =
              .error .tooDeep
          · rw [hdeep]
            refine .tooDeep fun t => ⟨"", ?_⟩
            rw [String.append_empty]
            split <;> rfl
          · rw [hdescribed hdeep]
            exact .same fun t => by split <;> rfl
        · exact .pure ()
      · have hbelow := Nat.sub_le_sub_right h (stack.above .print)
        refine .bind (.mapM (fun v => .written (s.shortOf_printed hbelow v)) _) fun texts => ?_
        exact .bind (.write _) fun _ => .pure _
  | operator op =>
      refine .bind (.reserve h _) fun _ => ?_
      exact .same fun s => by split <;> rfl

namespace Evaluator.ShortOf

variable {eval eval' : Evaluator} {α : Type}

/-- A mistake needs levels to be made. -/
theorem mistake (h : eval.ShortOf eval') (m : Mistake) :
    Eval.ShortOf (eval.mistake m : Eval α) (eval'.mistake m) := by
  unfold Evaluator.mistake
  rw [h.stack]
  exact .bind (.reserve h.levels _) fun _ => .throw _

/-- A mistake that shows a value. -/
theorem mistake_shown (h : eval.ShortOf eval') (purpose : Purpose) (v : Value)
    (m : String → Mistake) :
    Eval.ShortOf (do eval.mistake (m (← eval.shown purpose v)) : Eval α)
      (do eval'.mistake (m (← eval'.shown purpose v))) := by
  refine .bind (.store_bind fun s => ?_) fun text => h.mistake (m text)
  rw [h.stack]
  exact .written (s.shortOf_display (Nat.sub_le_sub_right h.levels _) v)

/-- A value that should be an object. -/
theorem requireObject (h : eval.ShortOf eval') (purpose : String) (v : Value) :
    Eval.ShortOf (requireObject eval purpose v) (Scriptlet.requireObject eval' purpose v) := by
  cases v with
  | object r => exact .pure r
  | undefined | integer | string | node =>
      exact h.mistake_shown .receiver _ (.notAnObject · purpose)

/-- A value that should be a function. -/
theorem requireFunction (h : eval.ShortOf eval') (v : Value) :
    Eval.ShortOf (requireFunction eval v) (Scriptlet.requireFunction eval' v) := by
  cases v with
  | object r =>
      refine .store_bind fun s => ?_
      split
      · exact .pure r
      · exact h.mistake_shown .callee _ .notAFunction
  | undefined | integer | string | node => exact h.mistake_shown .callee _ .notAFunction

/-- A name that should be one of a method. -/
theorem requireMethod (h : eval.ShortOf eval') (object : Ref) (name : String) :
    Eval.ShortOf (requireMethod eval object name) (Scriptlet.requireMethod eval' object name) := by
  refine .bind (.same fun _ => rfl) fun v => ?_
  cases v with
  | undefined => exact h.mistake_shown .method (.object object) (.noMethod · name)
  | object r =>
      refine .store_bind fun s => ?_
      split
      · exact .pure r
      · exact h.mistake _
  | integer | string | node => exact h.mistake _

/-- A value that should be a condition. -/
theorem requireBoolean (h : eval.ShortOf eval') (v : Value) :
    Eval.ShortOf (requireBoolean eval v) (Scriptlet.requireBoolean eval' v) := by
  unfold Scriptlet.requireBoolean
  split
  · exact .pure true
  · exact .pure false
  · exact h.mistake_shown .condition _ .notABoolean

/-- A name that should be undefined. -/
theorem requireUndefined (h : eval.ShortOf eval') (declares : Bool) (frame : Ref) (name : String) :
    Eval.ShortOf (requireUndefined eval declares frame name)
      (Scriptlet.requireUndefined eval' declares frame name) := by
  refine .bind (.same fun _ => rfl) fun v => ?_
  split
  · exact .pure ()
  · exact .pure ()
  · exact h.mistake _

/-- A call of an object. -/
theorem call (h : eval.ShortOf eval') (f : Ref) (receiver : Value) (arguments : List Value) :
    Eval.ShortOf (call eval f receiver arguments)
      (Scriptlet.call eval' f receiver arguments) := by
  refine .store_bind fun s => ?_
  rcases s.object? f with _ | ⟨name, parent, _ | action, entries⟩
  · exact h.mistake_shown .callee _ .notAFunction
  · exact h.mistake_shown .callee _ .notAFunction
  cases action with
  | closure parameters body home =>
      dsimp only
      split
      · refine .bind (.same fun _ => rfl) fun frame => .bind (.same fun _ => rfl) fun _ => ?_
        exact .bind (.same fun _ => rfl) fun _ => (h.run .body body frame).catchReturn
      · exact .throw _
  | builtin b =>
      dsimp only
      rw [h.stack]
      exact b.shortOf_apply _ h.levels arguments
  | constant v => exact .pure v

/-- Where there is room for a call, there is with more levels. -/
theorem admits (h : eval.ShortOf eval') {s : Store} {f : Ref} (hroom : eval.admits s f = true) :
    eval'.admits s f = true := by
  unfold Evaluator.admits at hroom ⊢
  rw [h.stack]
  generalize s.action? f = action at hroom ⊢
  cases action with
  | none => exact decide_eq_true ((of_decide_eq_true hroom).trans h.levels)
  | some action =>
      cases action with
      | builtin => rfl
      | closure | constant => exact decide_eq_true ((of_decide_eq_true hroom).trans h.levels)

/-- A call for which there must be room. -/
theorem invoke (h : eval.ShortOf eval') (f : Ref) (receiver : Value) (arguments : List Value) :
    Eval.ShortOf (invoke eval f receiver arguments)
      (Scriptlet.invoke eval' f receiver arguments) := by
  have hcall := h.call f receiver arguments
  refine .store_bind fun s => ?_
  by_cases hroom : eval.admits s f = true
  · rw [if_pos hroom, if_pos (h.admits hroom)]
    exact hcall
  · rw [if_neg hroom]
    refine .tooDeep fun t => ?_
    split
    · exact hcall.output t
    · exact ⟨"", String.append_empty.symm⟩

/-- **The rule of a node** ends as it does with more levels if its parts do, unless it is cut
off. -/
theorem evaluateWith (h : eval.ShortOf eval') (n : Node) (frame : Ref) :
    Eval.ShortOf (evaluateWith eval n frame) (Scriptlet.evaluateWith eval' n frame) := by
  have part (n : Node) := h.run .operand n frame
  have arguments (ns : List Node) :
      Eval.ShortOf (ns.mapM fun n => eval .argument n frame)
        (ns.mapM fun n => eval' .argument n frame) :=
    .mapM (fun n => h.run .argument n frame) ns
  cases n with
  | block ns line =>
      exact .bind (.forM (fun n => (h.run .statement n frame).discard) ns) fun _ => .pure _
  | literal v serial line => exact .pure v
  | call callee ns line =>
      refine .bind (part callee) fun v => .bind (h.requireFunction v) fun f => ?_
      exact .bind (arguments ns) fun values => h.invoke f .undefined values
  | name x line => exact .same fun _ => rfl
  | assign x value declares line =>
      refine .bind (h.requireUndefined declares frame x) fun _ => .bind (part value) fun v => ?_
      exact .bind (.same fun _ => rfl) fun _ => .pure _
  | function name parameters body line =>
      refine .bind (.same fun _ => rfl) fun f => .bind (.same fun _ => rfl) fun _ => .pure _
  | giveBack value line => exact .bind (part value) fun v => .throw _
  | branch condition consequence alternative line =>
      refine .bind (part condition) fun v => .bind (h.requireBoolean v) fun b => ?_
      cases b with
      | true => exact part consequence
      | false => exact part alternative
  | record es line =>
      refine .bind (.same fun _ => rfl) fun object => .bind (.forM (fun e => ?_) es) fun _ => ?_
      · exact .bind (part e.2) fun v => .same fun _ => rfl
      · exact .bind (.same fun _ => rfl) fun _ => .pure _
  | field receiver x line =>
      refine .bind (part receiver) fun v => ?_
      cases v with
      | object r => exact .same fun _ => rfl
      | undefined | integer | string | node => exact .pure _
  | assignField receiver x value line =>
      refine .bind (part receiver) fun v => .bind (h.requireObject _ v) fun object => ?_
      refine .bind (part value) fun w => ?_
      exact .bind (.same fun _ => rfl) fun _ => .pure _
  | callMethod receiver x ns line =>
      refine .bind (part receiver) fun v => .bind (h.requireObject _ v) fun object => ?_
      refine .bind (h.requireMethod object x) fun f => .bind (arguments ns) fun values => ?_
      exact h.invoke f (.object object) values

end Evaluator.ShortOf

/-! ### Limits -/

/-- An evaluation takes no output back. -/
theorem exists_output_evaluateSpaced (stack : Stack) (levels gap : Nat) (n : Node) (frame : Ref)
    (s : Session) : ∃ more,
      ((evaluateSpaced stack levels gap n frame).runIn s).2.output = s.output ++ more :=
  (accumulates_evaluateSpaced stack levels gap n frame s).output

/-- **An evaluation with fewer levels** is the same evaluation, unless it is cut off. -/
theorem shortOf_evaluateSpaced (stack : Stack) {few many : Nat} (h : few ≤ many) (gap : Nat)
    (n : Node) (frame : Ref) :
    ShortOf (evaluateSpaced stack few gap n frame) (evaluateSpaced stack many gap n frame) := by
  induction few generalizing many gap n frame with
  | zero => exact .tooDeep (exists_output_evaluateSpaced stack many gap n frame)
  | succ few ih =>
      obtain ⟨many, rfl⟩ := Nat.exists_eq_add_one_of_ne_zero (Nat.ne_zero_of_lt h)
      have hle : few ≤ many := Nat.le_of_succ_le_succ h
      cases gap with
      | succ gap => exact ih hle gap n frame
      | zero =>
          have houtput := exists_output_evaluateSpaced stack (many + 1) 0 n frame
          rw [evaluateSpaced] at houtput ⊢
          rw [evaluateSpaced]
          by_cases hrule : stack.rule n.kind ≤ few
          · have hparts : Evaluator.ShortOf (evaluateParts stack few) (evaluateParts stack many) :=
              ⟨rfl, hle, fun role => ih hle (stack.part role)⟩
            rw [if_pos hrule, if_pos (hrule.trans hle)]
            exact (hparts.evaluateWith n frame).onLine n.line
          · rw [if_neg hrule]
            exact .tooDeep houtput

/-- A program in a global frame of its own. -/
theorem shortOf_inOwnGlobal (stack : Stack) {few many : Nat} (h : few ≤ many) (program : Node) :
    ShortOf (inOwnGlobal stack few program) (inOwnGlobal stack many program) := by
  have hopened : ShortOf openGlobal openGlobal := by
    refine .same fun s => ?_
    have hrun : openGlobal.runIn s =
        (.ok s.store.fresh, { s with store := s.store.addGlobal }) := rfl
    rw [hrun]
  refine hopened.bind fun frame => .bind (.same fun _ => rfl) fun _ => ?_
  refine .bind (shortOf_evaluateSpaced stack h 0 program frame).refuseReturn.discard fun _ => ?_
  exact .same fun _ => rfl

/-- **The limit on nesting only cuts off.** Whatever node is evaluated, in whatever frame and
session, and however many levels everything takes: where the evaluation is not cut off under one
limit, it ends with the same result and in the same session under every higher one; where it is,
what was printed by then is printed first under the higher limit. So it is with a call of a built-in
function, `print` and what it writes included, and with a program in a global frame of its own. -/
theorem limit_cutsOff {few many : Nat} (h : few ≤ many) (stack : Stack) :
    (∀ (n : Node) (frame : Ref) (s : Session),
      CutOf ((evaluate stack few n frame).runIn s) ((evaluate stack many n frame).runIn s)) ∧
    (∀ (gap : Nat) (n : Node) (frame : Ref) (s : Session),
      CutOf ((evaluateSpaced stack few gap n frame).runIn s)
        ((evaluateSpaced stack many gap n frame).runIn s)) ∧
    (∀ (b : Builtin) (arguments : List Value) (s : Session),
      CutOf ((b.apply stack few arguments).runIn s) ((b.apply stack many arguments).runIn s)) ∧
    ∀ (program : Node) (s : Session),
      CutOf ((inOwnGlobal stack few program).runIn s) ((inOwnGlobal stack many program).runIn s) :=
  ⟨fun n frame => (shortOf_evaluateSpaced stack h 0 n frame).cutOf,
    fun gap n frame => (shortOf_evaluateSpaced stack h gap n frame).cutOf,
    fun b arguments => (b.shortOf_apply stack h arguments).cutOf,
    fun program => (shortOf_inOwnGlobal stack h program).cutOf⟩

namespace Cutoff

/-- A function that prints a line and calls itself without end. -/
def runaway : Node :=
  .block [.function (some "f") []
    (.block [.call (.name "print" 1) [.constant (.string "a") 1] 1, .call (.name "f" 1) [] 1] 1) 1,
    .call (.name "f" 1) [] 1] 1

end Cutoff

/-- A program ends too deep if its evaluation was cut off. -/
theorem Ending.ofResult_eq_tooDeep_iff {result : Except Exit Value} :
    ofResult result = .tooDeep ↔ result = .error .tooDeep := by
  rcases result with x | _
  · cases x with
    | tooDeep => exact ⟨fun _ => rfl, fun _ => rfl⟩
    | returned | mistake | fault => exact ⟨nofun, nofun⟩
  · exact ⟨nofun, nofun⟩

open Cutoff in
/-- The lower limit cuts off a function that calls itself without end when it has printed two
lines, and these are the first lines under a higher limit. -/
theorem limit_cutsOff_runaway :
    20 ≤ 40 ∧
    ((evaluate .standard 20 runaway ⟨0⟩).runIn (Visit.start runaway).session).1 =
      .error .tooDeep ∧
    ((evaluate .standard 20 runaway ⟨0⟩).runIn (Visit.start runaway).session).2.output =
      "a\na\n" ∧
    ∃ more, ((evaluate .standard 40 runaway ⟨0⟩).runIn (Visit.start runaway).session).2.output =
      "a\na\n" ++ more := by
  have houtput : ((evaluate .standard 20 runaway ⟨0⟩).runIn
      (Visit.start runaway).session).2.output = "a\na\n" := by decide +kernel
  have hending : Ending.ofResult ((evaluate .standard 20 runaway ⟨0⟩).runIn
      (Visit.start runaway).session).1 = .tooDeep := by decide +kernel
  have hresult := Ending.ofResult_eq_tooDeep_iff.mp hending
  obtain ⟨more, hmore⟩ := ((limit_cutsOff (by decide : 20 ≤ 40) .standard).1 runaway ⟨0⟩
    (Visit.start runaway).session).output hresult
  exact ⟨by decide, hresult, houtput, more, houtput ▸ hmore⟩

end Scriptlet
