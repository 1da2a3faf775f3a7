import Scriptlet.Proofs.Code
import Scriptlet.Proofs.Operators

/-!
# Who Is to Blame

A mistake is made by the rule of one node, while the visits around it are still open: they have
begun and have not ended. Every one of them ends in the same mistake, in the session in which it was
made, and the innermost one whose node has a line puts that line on it. `OpenVisits` says which
visits were open; a body that was entered is inside the call that has entered it.

In a run of a program every node has a line, so the line of a mistake is that of the node whose rule
has made it. Only a `return` that is in no function is noticed after all visits have ended.

## Main definitions

* `OpenVisits`: the visits that were open when a mistake was made, from the inside out.
* `innermostLine`: the first line among visits that is not zero.

## Main results

* `Part.runIn_evaluateWith_of_error`: a visit ends as a part of it has failed.
* `runIn_evaluateSpaced_eq_mistake_iff`: what the line of a mistake is.
* `line_of_mistake`: the same for visits and for programs.
-/

namespace Scriptlet

/-- A built-in function fails by a fault, or for want of levels. -/
theorem Builtin.cases_of_error {stack : Stack} {levels : Nat} {b : Builtin} {arguments : List Value}
    {s t : Session} {x : Exit} (h : (b.apply stack levels arguments).runIn s = (.error x, t)) :
    (∃ f, x = .fault f) ∨ x = .tooDeep := by
  cases b with
  | operator op =>
      rw [runIn_operator] at h
      obtain ⟨hx, -⟩ := Prod.mk.inj h
      split at hx
      · cases ha : op.applyTo arguments with
        | ok v =>
            rw [ha] at hx
            cases hx
        | error f =>
            rw [ha] at hx
            exact .inl ⟨f, (Except.error.inj hx).symm⟩
      · exact .inr (Except.error.inj hx).symm
  | print =>
      rcases (cases_of_print h).2 with ⟨hx, -⟩ | ⟨⟨why, hx⟩, -⟩
      · cases hx
      · obtain rfl := Except.error.inj hx
        cases why with
        | oversized => exact .inl ⟨_, rfl⟩
        | tooDeep => exact .inr rfl

/-- Apart from a fault, a visit leaves early by the exit of a part, because it is a `return`, or by
an exit of its own. -/
theorem Ends.cases_of_error {eval : Evaluator} {v : Visit} {x : Exit}
    {t : Session} (h : Ends eval v (.error x) t) (hx : ∀ f, x ≠ .fault f) :
    (∃ role w, Part eval v role w ∧ (eval role w.node w.frame).runIn w.session = (.error x, t) ∧
        (role = .body → ∀ y, x ≠ .returned y)) ∨
      (∃ value line y, v.node = .giveBack value line ∧ x = .returned y) ∨ x.Raised := by
  generalize hresult : Except.error x = result at h
  cases h with
  | exit hp hw hreturn =>
      obtain rfl := Except.error.inj hresult
      exact .inl ⟨_, _, hp, hw, hreturn⟩
  | giveBack => exact .inr (.inl ⟨_, _, _, rfl, Except.error.inj hresult⟩)
  | raised hraised =>
      obtain rfl := Except.error.inj hresult
      exact .inr (.inr hraised)
  | builtin _ _ hr =>
      rw [← hresult] at hr
      rcases Builtin.cases_of_error hr with ⟨f, hf⟩ | rfl
      · exact absurd hf (hx f)
      · exact .inr (.inr trivial)
  | _ => cases hresult

/-! ### A part that fails -/

namespace Eval

variable {α β : Type} {s t u : Session} {x : Exit}

/-- An exit is that of what comes later as well. -/
theorem runIn_bind_of_error {e : Eval α} (h : e.runIn s = (.error x, t)) (f : α → Eval β) :
    (e >>= f).runIn s = (.error x, t) := by
  rw [runIn_bind, h]

/-- The end of a call lets everything through but a return. -/
theorem runIn_catchReturn_of_error {e : Eval Value} (h : e.runIn s = (.error x, t))
    (hx : ∀ v, x ≠ .returned v) : (catchReturn e).runIn s = (.error x, t) := by
  rw [catchReturn, runIn_tryCatch, h]
  cases x with
  | returned v => exact absurd rfl (hx v)
  | mistake | fault | tooDeep => rfl

end Eval

section

variable {eval : Evaluator} {v w : Visit} {role : Role} {s t u : Session}
  {x : Exit}

/-- The exit of a statement is that of the row. -/
theorem runIn_runStatements_of_error {done rest : List Node} {n : Node} {frame : Ref}
    (hdone : (runStatements eval done frame).runIn s = (.ok (), t))
    (h : (eval .statement n frame).runIn t = (.error x, u)) :
    (runStatements eval (done ++ n :: rest) frame).runIn s = (.error x, u) := by
  rw [runStatements_append, Eval.runIn_bind_of_ok hdone]
  exact Eval.runIn_bind_of_error (Eval.runIn_bind_of_error h _) _

/-- The exit of an argument is that of the row. -/
theorem runIn_runArguments_of_error {done rest : List Node} {n : Node} {frame : Ref}
    {values : List Value} (hdone : (runArguments eval done frame).runIn s = (.ok values, t))
    (h : (eval .argument n frame).runIn t = (.error x, u)) :
    (runArguments eval (done ++ n :: rest) frame).runIn s = (.error x, u) := by
  rw [runArguments_append, Eval.runIn_bind_of_ok hdone]
  refine Eval.runIn_bind_of_error ?_ _
  rw [runArguments, List.mapM_cons]
  exact Eval.runIn_bind_of_error h _

/-- The exit of an entry is that of the row. -/
theorem runIn_runEntries_of_error {done rest : List (String × Node)} {key : String} {n : Node}
    {object frame : Ref} (hdone : (runEntries eval done object frame).runIn s = (.ok (), t))
    (h : (eval .operand n frame).runIn t = (.error x, u)) :
    (runEntries eval (done ++ (key, n) :: rest) object frame).runIn s = (.error x, u) := by
  rw [runEntries_append, Eval.runIn_bind_of_ok hdone]
  exact Eval.runIn_bind_of_error (Eval.runIn_bind_of_error h _) _

/-- A visit ends as a part of it has failed, at once. That a body returns is no failure. -/
theorem Part.runIn_evaluateWith_of_error (h : Part eval v role w)
    (hw : (eval role w.node w.frame).runIn w.session = (.error x, t))
    (hx : role = .body → ∀ y, x ≠ .returned y) :
    (evaluateWith eval v.node v.frame).runIn v.session = (.error x, t) := by
  cases h with
  | @first v n h =>
      obtain ⟨node, frame, s⟩ := v
      cases node with
      | call | giveBack | branch | field | assignField | callMethod =>
          obtain rfl := Option.some.inj h
          exact Eval.runIn_bind_of_error hw _
      | block | literal | name | assign | function | record => cases h
  | statement h => exact Eval.runIn_bind_of_error (runIn_runStatements_of_error h hw) _
  | argument hp h =>
      rw [hp.runIn_evaluateWith]
      exact Eval.runIn_bind_of_error (runIn_runArguments_of_error h hw) _
  | body hi he =>
      cases hi with
      | intro hp ha hroom =>
          rw [hp.runIn_evaluateWith, Eval.runIn_bind_of_ok ha, runIn_invoke_of_admits hroom,
            he.runIn_call]
          exact Eval.runIn_catchReturn_of_error hw (hx rfl)
  | assigned h =>
      rw [evaluateWith, Eval.runIn_bind_of_ok h]
      exact Eval.runIn_bind_of_error hw _
  | @chosen _ _ _ _ _ b _ _ h =>
      rw [evaluateWith, ← bind_assoc, Eval.runIn_bind_of_ok h]
      cases b with
      | true => exact hw
      | false => exact hw
  | entry h =>
      rw [evaluateWith, Eval.runIn_bind_of_ok (Eval.runIn_add _ _)]
      exact Eval.runIn_bind_of_error (runIn_runEntries_of_error h hw) _
  | fieldValue h =>
      rw [evaluateWith, ← bind_assoc, Eval.runIn_bind_of_ok h]
      exact Eval.runIn_bind_of_error hw _

end

/-! ### Visits that are open -/

/-- The visits that were open when a mistake was made that ended them in the session `t`, from the
inside out, when evaluations nest no deeper than `levels` and the first `gap` of these are left
out. -/
inductive OpenVisits (stack : Stack) (m : Mistake) (t : Session) :
    (levels gap : Nat) → Visit → List Visit → Prop
  /-- The rule of the node has made the mistake; what was evaluated inside it had ended. -/
  | made {levels : Nat} {v : Visit} (hrule : stack.rule v.node.kind ≤ levels)
      (h : (evaluateWith (evaluateParts stack levels) v.node v.frame).runIn v.session =
        (.error (.mistake m none), t))
      (hparts : ∀ role w, Part (evaluateParts stack levels) v role w → ∀ m' l u,
        (evaluateParts stack levels role w.node w.frame).runIn w.session ≠
          (.error (.mistake m' l), u)) :
      OpenVisits stack m t (levels + 1) 0 v [v]
  /-- The mistake was made in a part. -/
  | inside {levels : Nat} {v w : Visit} {role : Role} {ws : List Visit}
      (hrule : stack.rule v.node.kind ≤ levels) (hp : Part (evaluateParts stack levels) v role w)
      (h : OpenVisits stack m t levels (stack.part role) w ws) :
      OpenVisits stack m t (levels + 1) 0 v (ws ++ [v])
  | skip {levels gap : Nat} {v : Visit} {ws : List Visit}
      (h : OpenVisits stack m t levels gap v ws) :
      OpenVisits stack m t (levels + 1) (gap + 1) v ws

/-- The first line among visits that is not zero. -/
def innermostLine (ws : List Visit) : Option Int := (ws.map fun w => w.node.line).find? (· ≠ 0)

/-- No line is found exactly where none is known. -/
theorem innermostLine_eq_none_iff {ws : List Visit} :
    innermostLine ws = none ↔ ∀ w ∈ ws, w.node.line = 0 := by
  simp [innermostLine]

/-- The visit around others has a say only if none of them has a line. -/
theorem onLine_innermostLine (ws : List Visit) (v : Visit) (m : Mistake) :
    Exit.onLine v.node.line (.mistake m (innermostLine ws)) =
      .mistake m (innermostLine (ws ++ [v])) := by
  rw [innermostLine, innermostLine, List.map_append, List.find?_append]
  cases (ws.map fun w => w.node.line).find? (· ≠ 0) with
  | some l => rfl
  | none =>
      by_cases hline : v.node.line = 0
      · simp [Exit.onLine, hline]
      · simp [Exit.onLine, hline]

section

variable {stack : Stack} {m : Mistake} {t : Session} {levels gap : Nat} {v : Visit}

/-- A visit ends in the mistake that was made in it, on the innermost line. -/
theorem OpenVisits.runIn {ws : List Visit} (h : OpenVisits stack m t levels gap v ws) :
    (evaluateSpaced stack levels gap v.node v.frame).runIn v.session =
      (.error (.mistake m (innermostLine ws)), t) := by
  induction h with
  | @made levels v hrule h =>
      have hline := onLine_innermostLine [] v m
      rw [runIn_evaluateSpaced_succ hrule, h]
      exact congrArg (fun x => (Except.error x, t)) hline
  | @inside levels v w role ws hrule hp _ ih =>
      have h := hp.runIn_evaluateWith_of_error ih fun _ _ => Exit.noConfusion
      rw [runIn_evaluateSpaced_succ hrule, h]
      exact congrArg (fun x => (Except.error x, t)) (onLine_innermostLine ws v m)
  | skip _ ih => exact ih

/-- Whenever a visit ends in a mistake, there are visits that were open when it was made. -/
theorem exists_openVisits {line : Option Int}
    (h : (evaluateSpaced stack levels gap v.node v.frame).runIn v.session =
      (.error (.mistake m line), t)) : ∃ ws, OpenVisits stack m t levels gap v ws := by
  induction levels generalizing gap v line with
  | zero => cases (Prod.mk.inj h).1
  | succ levels ih =>
      cases gap with
      | succ gap => exact (ih h).imp fun _ => .skip
      | zero =>
          obtain ⟨hlevels, l, hrule⟩ := exists_of_runIn_evaluateSpaced_eq_mistake h
          by_cases hparts : ∃ role w, Part (evaluateParts stack levels) v role w ∧ ∃ m' l' u,
              (evaluateParts stack levels role w.node w.frame).runIn w.session =
                (.error (.mistake m' l'), u)
          · obtain ⟨role, w, hp, m', l', u, hw⟩ := hparts
            -- the mistake of the part is the one in which the visit ends
            have heq := hp.runIn_evaluateWith_of_error hw fun _ _ => Exit.noConfusion
            obtain ⟨hx, rfl⟩ := Prod.mk.inj (heq.symm.trans hrule)
            obtain ⟨rfl, -⟩ := Exit.mistake.inj (Except.error.inj hx)
            obtain ⟨ws, hws⟩ := ih hw
            exact ⟨ws ++ [v], .inside hlevels hp hws⟩
          · have hnone : ∀ role w, Part (evaluateParts stack levels) v role w → ∀ m' l' u,
                (evaluateParts stack levels role w.node w.frame).runIn w.session ≠
                  (.error (.mistake m' l'), u) := fun role w hp m' l' u hw =>
              hparts ⟨role, w, hp, m', l', u, hw⟩
            refine ⟨[v], .made hlevels ?_ hnone⟩
            rcases (course_evaluateWith hrule).2.cases_of_error (fun _ => Exit.noConfusion) with
              ⟨role, w, hp, hw, -⟩ | ⟨_, _, _, -, hx⟩ | hx
            · exact absurd hw (hnone role w hp m l _)
            · cases hx
            · cases l with
              | none => exact hrule
              | some l => exact hx.elim

/-- **The line of a mistake is the innermost one among the visits that were open.** -/
theorem runIn_evaluateSpaced_eq_mistake_iff {line : Option Int} :
    (evaluateSpaced stack levels gap v.node v.frame).runIn v.session =
        (.error (.mistake m line), t) ↔
      ∃ ws, OpenVisits stack m t levels gap v ws ∧ line = innermostLine ws := by
  constructor
  · intro h
    obtain ⟨ws, hws⟩ := exists_openVisits h
    obtain ⟨hx, -⟩ := Prod.mk.inj (h.symm.trans hws.runIn)
    exact ⟨ws, hws, (Exit.mistake.inj (Except.error.inj hx)).2⟩
  · rintro ⟨ws, hws, rfl⟩
    exact hws.runIn

theorem OpenVisits.ne_nil {ws : List Visit} (h : OpenVisits stack m t levels gap v ws) :
    ws ≠ [] := by
  induction h with
  | made => exact List.cons_ne_nil _ _
  | inside => exact List.append_ne_nil_of_right_ne_nil _ (List.cons_ne_nil _ _)
  | skip _ ih => exact ih

/-- The visits that were open are visits of the run. -/
theorem OpenVisits.reaches {ws : List Visit} (h : OpenVisits stack m t levels gap v ws) :
    ∀ w ∈ ws, Reaches stack levels gap v (.begins w) := by
  induction h with
  | made => exact List.forall_mem_singleton.mpr .begins
  | inside hrule hp _ ih =>
      exact List.forall_mem_append.mpr
        ⟨fun w hw => .part hrule hp (ih w hw), List.forall_mem_singleton.mpr .begins⟩
  | skip _ ih => exact fun w hw => .skip (ih w hw)

end

/-! ### Programs -/

/-- The line of a mistake in a program is the line of the node whose rule has made it. -/
theorem line_of_mistaken {on : Platform} {source : String} {m : Mistake} {line : Option Int}
    (h : (execute on source).ending = .mistaken m line) :
    m = .strayReturn ∧ line = none ∨
      ∃ l, line = some l ∧ 1 ≤ l ∧ l ≤ 1 + source.toList.count '\n' := by
  rcases cases_of_execute on source with ⟨why, -, he⟩ | ⟨program, -, hp, he⟩
  · rw [he] at h
    cases why <;> cases h
  · rw [he, ending_executeProgram] at h
    cases hrun : ((inOwnGlobal on.stack on.limit program).runIn .empty).1 with
    | ok _ =>
        rw [hrun] at h
        cases h
    | error x =>
        rw [hrun] at h
        rcases exit_of_inOwnGlobal hrun with rfl | ⟨⟨t, hvisit⟩, hx⟩
        · obtain ⟨rfl, rfl⟩ := Ending.mistaken.inj h
          exact .inl ⟨rfl, rfl⟩
        right
        cases x with
        | returned y => exact absurd rfl (hx y)
        | fault | tooDeep => cases h
        | mistake m' line' =>
            obtain ⟨rfl, rfl⟩ := Ending.mistaken.inj h
            obtain ⟨ws, hws, rfl⟩ :=
              (runIn_evaluateSpaced_eq_mistake_iff (v := Visit.start program)).mp hvisit
            have hrange (w : Visit) (hw : w ∈ ws) :=
              Source.line_mem_of_program (Source.worded_of_program hp)
                ((hws.reaches w hw).contains (Visit.codeOf_start program))
            obtain ⟨w, rest, rfl⟩ := List.exists_cons_of_ne_nil hws.ne_nil
            obtain ⟨hle, hge⟩ := hrange w List.mem_cons_self
            have hne : w.node.line ≠ 0 := by omega
            refine ⟨w.node.line, ?_, hle, hge⟩
            simp [innermostLine, hne]

/-- **A mistake has the line of the innermost node that has one.** A visit ends in a mistake exactly
if visits were open when it was made, and then its line is the innermost one among theirs; there is
none only if all their nodes are without a line. A program that makes a mistake makes it on a line
of its text, unless it is a `return` outside of all functions. -/
theorem line_of_mistake :
    (∀ (stack : Stack) (levels : Nat) (v : Visit) (m : Mistake) (line : Option Int) (t : Session),
      ((evaluate stack levels v.node v.frame).runIn v.session = (.error (.mistake m line), t) ↔
        ∃ ws, OpenVisits stack m t levels 0 v ws ∧ line = innermostLine ws) ∧
      ∀ ws, OpenVisits stack m t levels 0 v ws →
        (innermostLine ws = none ↔ ∀ w ∈ ws, w.node.line = 0)) ∧
    ∀ (on : Platform) (source : String) (m : Mistake) (line : Option Int),
      (execute on source).ending = .mistaken m line → m = .strayReturn ∧ line = none ∨
        ∃ l, line = some l ∧ 1 ≤ l ∧ l ≤ 1 + source.toList.count '\n' :=
  ⟨fun _ _ _ _ _ _ => ⟨runIn_evaluateSpaced_eq_mistake_iff, fun _ _ => innermostLine_eq_none_iff⟩,
    fun _ _ _ _ => line_of_mistaken⟩

namespace Blame

/-- A function on lines of its own, in which a name is called that nothing is bound to. -/
def source : String := "f = function()\n  \x7b g();\n  \x7d;\nf();"

/-- Such a call, made by hand. -/
def visit : Visit := ⟨.call (.name "g" 0) [] 0, ⟨0⟩, .empty⟩

end Blame

/-- The mistake has the line of the inner call, not that of the call around it; where no node has a
line, it has none. -/
theorem line_unboundCalled :
    (execute .standard Blame.source).ending = .mistaken (.notAFunction "undefined") (some 2) ∧
    (∃ l, some 2 = some l ∧ 1 ≤ l ∧ l ≤ 1 + (Blame.source.toList.count '\n' : Int)) ∧
    ∃ ws, OpenVisits .standard (.notAFunction "undefined") .empty 10 0 Blame.visit ws ∧
      none = innermostLine ws := by
  have hending : (execute .standard Blame.source).ending =
      .mistaken (.notAFunction "undefined") (some 2) := by
    decide +kernel
  have hvisit : (evaluate .standard 10 Blame.visit.node Blame.visit.frame).runIn
      Blame.visit.session = (.error (.mistake (.notAFunction "undefined") none), .empty) := by
    with_unfolding_all rfl
  have hline := (line_of_mistake.2 _ _ _ _ hending).resolve_left fun h => nomatch h.1
  exact ⟨hending, hline, (line_of_mistake.1 .standard 10 Blame.visit _ none _).1.mp hvisit⟩

end Scriptlet
