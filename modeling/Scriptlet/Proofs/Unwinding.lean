import Scriptlet.Proofs.Blame

/-!
# What a Return Unwinds

A `return` leaves everything that is being evaluated in the body it stands in, and nothing around
that: the call that has entered the body ends with the value, wherever the call stands and whatever
the store holds. So a `return` is on its way out of a node only if the node has one that is in none
of the functions below it. The functions that a node calls are of no account, since each of them
ends in its own call.

What is reported as a `return` outside of a function is therefore visible in the source. No other
mistake is reported in these words.

## Main definitions

* `Node.ReturnsOutside`: a node has a `return` that is in none of its functions.

## Main results

* `runIn_call_ne_returned`: a call does not end in a `return`.
* `Node.ReturnsOutside.of_runIn`: a visit ends in one only if its node has one outside.
* `return_unwinds_call`: all of this for calls, nodes and programs.
-/

namespace Scriptlet

/-- Whether a node has a `return` that is in none of its functions. -/
inductive Node.ReturnsOutside : Node → Prop
  | here {value : Node} {line : Int} : (Node.giveBack value line).ReturnsOutside
  | child {n m : Node} (hm : m ∈ n.children)
      (hn : ∀ name parameters body line, n ≠ .function name parameters body line)
      (h : m.ReturnsOutside) : n.ReturnsOutside

/-! ### Calls -/

/-- Whatever runs the bodies, and whatever the store holds, a call does not end in a `return`. -/
theorem runIn_call_ne_returned (eval : Evaluator) (i : Invocation) (x : Value) (t : Session) :
    (call eval i.function i.receiver i.arguments).runIn i.session ≠ (.error (.returned x), t) := by
  intro h
  rcases cases_of_call h with ⟨-, y, hy, hraised⟩ | ⟨_, _, _, -, hbody⟩ | ⟨b, -, hb⟩ |
    ⟨y, -, hy, -⟩
  · obtain rfl := Except.error.inj hy
    exact hraised
  · rcases Eval.cases_of_runIn_catchReturn hbody with ⟨y, hy, -⟩ | ⟨y, hy, -, hne⟩
    · cases hy
    · exact hne x (Except.error.inj hy).symm
  · rcases Builtin.cases_of_error hb with ⟨f, hf⟩ | hdeep
    · cases hf
    · cases hdeep
  · cases hy

/-- The call that has entered a body ends with what the body returns. -/
theorem Invocation.Enters.runIn_call_of_returned {eval : Evaluator} {i : Invocation}
    {parameters : List String} {body : Node} {home : Ref} (he : i.Enters parameters body home)
    {x : Value} {t : Session} (h : (eval .body body i.session.store.fresh).runIn
      (i.session.enter home (i.names parameters)) = (.error (.returned x), t)) :
    (call eval i.function i.receiver i.arguments).runIn i.session = (.ok x, t) := by
  rw [he.runIn_call, Eval.catchReturn, Eval.runIn_tryCatch, h]
  rfl

/-! ### Nodes -/

section

variable {stack : Stack} {levels gap : Nat} {v w : Visit} {role : Role} {t : Session}

/-- A part other than a body is outside of all functions if the node is. -/
theorem Part.returnsOutside {eval : Evaluator} (h : Part eval v role w)
    (hrole : role ≠ .body) (hw : w.node.ReturnsOutside) : v.node.ReturnsOutside := by
  refine .child (h.mem_children hrole) ?_ hw
  -- a function is evaluated without its body
  rintro name parameters body line hv
  obtain ⟨node, frame, s⟩ := v
  obtain rfl : node = .function name parameters body line := hv
  cases h with
  | first hfirst => cases hfirst
  | argument hp => cases hp
  | body hi => cases hi with | intro hp => cases hp

/-- A visit ends in a `return` only if its node has one that is in no function. -/
theorem Node.ReturnsOutside.of_runIn {x : Value}
    (h : (evaluateSpaced stack levels gap v.node v.frame).runIn v.session =
      (.error (.returned x), t)) : v.node.ReturnsOutside := by
  induction levels generalizing gap v with
  | zero => cases (Prod.mk.inj h).1
  | succ levels ih =>
      cases gap with
      | succ gap => exact ih h
      | zero =>
          rcases cases_of_runIn_evaluateSpaced h with ⟨-, hx⟩ | ⟨below, y, hbelow, -, hrule, hx⟩
          · cases hx
          obtain rfl : below = levels := by omega
          obtain rfl : y = .error (.returned x) := by
            cases y with
            | ok => cases hx
            | error y => rw [Exit.eq_of_onLine_eq_returned (Except.error.inj hx).symm]
          rcases (course_evaluateWith hrule).2.cases_of_error (fun _ => Exit.noConfusion) with
            ⟨role, w, hp, hw, hbody⟩ | ⟨value, line, _, hv, -⟩ | hx
          · exact hp.returnsOutside (fun hrole => hbody hrole x rfl) (ih hw)
          · rw [hv]
            exact .here
          · exact hx.elim

/-- No visit ends in a stray `return`, which is noticed when all visits have ended. -/
theorem runIn_evaluateSpaced_ne_strayReturn {line : Option Int} :
    (evaluateSpaced stack levels gap v.node v.frame).runIn v.session ≠
      (.error (.mistake .strayReturn line), t) := by
  intro h
  induction levels generalizing gap v line with
  | zero => cases (Prod.mk.inj h).1
  | succ levels ih =>
      cases gap with
      | succ gap => exact ih h
      | zero =>
          obtain ⟨-, l, hrule⟩ := exists_of_runIn_evaluateSpaced_eq_mistake h
          rcases (course_evaluateWith hrule).2.cases_of_error (fun _ => Exit.noConfusion) with
            ⟨role, w, -, hw, -⟩ | ⟨_, _, _, -, hx⟩ | hx
          · exact ih hw
          · cases hx
          · cases l with
            | none => exact hx rfl
            | some l => exact hx

end

/-! ### Programs -/

/-- The message of a stray `return` is that of no other mistake. -/
theorem Mistake.eq_strayReturn_of_message {m : Mistake}
    (h : m.message = "return outside of a function") : m = .strayReturn := by
  -- each of the others has a character that is not in it
  have hne {c : Char} (hc : c ∈ m.message.toList)
      (hnot : c ∉ "return outside of a function".toList) : m = .strayReturn :=
    absurd (h ▸ hc) hnot
  cases m with
  | strayReturn => rfl
  | alreadyDefined name =>
      have hc : 'y' ∈ (name ++ " already defined").toList := by simp
      exact hne hc (by decide)
  | notAFunction shown =>
      have hc : 'y' ∈ ("type error: " ++ shown ++ " is not a function").toList := by simp
      exact hne hc (by decide)
  | notAnObject shown purpose =>
      have hc : '(' ∈ (shown ++ " is not an object (" ++ purpose ++ ")").toList := by simp
      exact hne hc (by decide)
  | noMethod shown name =>
      have hc : '\'' ∈ (shown ++ " doesn't have a method called " ++ name).toList := by simp
      exact hne hc (by decide)
  | notAMethod name =>
      have hc : 'm' ∈ (name ++ " is not a method").toList := by simp
      exact hne hc (by decide)
  | argumentCount function expected given =>
      have hc : ':' ∈ ("invalid number of arguments: " ++ function ++ " expects " ++
          toString expected ++ "; got " ++ toString given).toList := by simp
      exact hne hc (by decide)
  | notABoolean shown =>
      have hc : 'v' ∈ ("invalid boolean value " ++ shown).toList := by simp
      exact hne hc (by decide)

/-- A program that does not return is left as any node is. -/
theorem Eval.runIn_refuseReturn_of_ne {e : Eval Value} {s : Session}
    (h : ∀ x, (e.runIn s).1 ≠ .error (.returned x)) : (refuseReturn e).runIn s = e.runIn s := by
  rw [refuseReturn, runIn_tryCatch]
  rcases he : e.runIn s with ⟨y | a, t⟩
  · rw [he] at h
    cases y with
    | returned x => exact absurd rfl (h x)
    | mistake | fault | tooDeep => rfl
  · rfl

/-- A stray `return` stands in the program, outside of all functions. -/
theorem returnsOutside_of_ending {on : Platform} {source : String} {line : Option Int}
    (h : (execute on source).ending = .mistaken .strayReturn line) :
    ∃ program, Source.program source = .ok program ∧ program.ReturnsOutside := by
  rcases cases_of_execute on source with ⟨why, -, he⟩ | ⟨program, -, hp, he⟩
  · rw [he] at h
    cases why <;> cases h
  refine ⟨program, hp, ?_⟩
  by_contra houtside
  -- then the run ends as its first visit does, which is neither way to come to such an end
  have hne (x : Value) : ((evaluate on.stack on.limit program Session.empty.store.fresh).runIn
      (Session.empty.started program)).1 ≠ .error (.returned x) := fun hx =>
    houtside (.of_runIn (v := Visit.start program) (Prod.ext hx rfl))
  rw [he, ending_executeProgram, runIn_inOwnGlobal] at h
  generalize hrun : (discard _ >>= _ : Eval Unit).runIn _ = outcome at h
  obtain ⟨x | u, t⟩ := outcome
  · rcases Eval.cases_of_runIn_bind hrun with ⟨y, hy, hx⟩ | ⟨_, u, -, hnote⟩
    · obtain rfl := Except.error.inj hx
      rcases Eval.cases_of_runIn_discard hy with ⟨z, hz, hx⟩ | ⟨_, _, hx⟩
      · obtain rfl := Except.error.inj hx
        rw [Eval.runIn_refuseReturn_of_ne hne] at hz
        cases x with
        | returned y => exact hne y (congrArg Prod.fst hz)
        | mistake m l =>
            obtain ⟨rfl, -⟩ := Ending.mistaken.inj h
            exact runIn_evaluateSpaced_ne_strayReturn (v := Visit.start program) hz
        | fault | tooDeep => cases h
      · cases hx
    · cases (Prod.mk.inj hnote).1
  · cases h

/-- **A `return` ends the call whose body it stands in, and nothing else.** No call ends in a
`return`: the one that has entered the body ends with the value instead. A visit of a node ends in
one only if the node has a `return` that is in none of its functions, and so does a program. -/
theorem return_unwinds_call :
    (∀ (eval : Evaluator) (i : Invocation) (x : Value) (t : Session),
      (call eval i.function i.receiver i.arguments).runIn i.session ≠ (.error (.returned x), t)) ∧
    (∀ (eval : Evaluator) (i : Invocation) (parameters : List String) (body : Node) (home : Ref),
      i.Enters parameters body home → ∀ (x : Value) (t : Session),
      (eval .body body i.session.store.fresh).runIn (i.session.enter home (i.names parameters)) =
          (.error (.returned x), t) →
        (call eval i.function i.receiver i.arguments).runIn i.session = (.ok x, t)) ∧
    (∀ (stack : Stack) (levels : Nat) (v : Visit), ¬v.node.ReturnsOutside →
      ∀ (x : Value) (t : Session),
      (evaluate stack levels v.node v.frame).runIn v.session ≠ (.error (.returned x), t)) ∧
    ∀ (on : Platform) (source : String) (m : Mistake) (line : Option Int),
      (execute on source).ending = .mistaken m line →
        m.message = "return outside of a function" →
          ∃ program, Source.program source = .ok program ∧ program.ReturnsOutside := by
  refine ⟨runIn_call_ne_returned, fun eval i ps body home he x t => he.runIn_call_of_returned,
    fun stack levels v hv x t h => hv (.of_runIn h), fun on source m line h hm => ?_⟩
  rw [Mistake.eq_strayReturn_of_message hm] at h
  exact returnsOutside_of_ending h

namespace Unwinding

/-- A body that returns from inside a choice, before it would make a mistake. -/
def body : Node :=
  .block [.branch (.constant (.integer 1) 1) (.block [.giveBack (.constant (.integer 7) 1) 1] 1)
    (.block [] 1) 1, .call (.name "unbound" 1) [] 1] 1

/-- A session in which a function with this body was made. -/
def session : Session :=
  Session.empty.add (.function anonymousName (.closure [] body ⟨0⟩))

/-- A call of it. -/
def invocation : Invocation := ⟨⟨0⟩, .undefined, [], session⟩

/-- A node that makes such a function and calls it. -/
def caller : Node := .call (.function none [] body 1) [] 1

end Unwinding

/-- The body leaves the choice and the block, and the call ends with the value; a node that makes
and calls such a function has no `return` outside, whereas a program with the choice has one. -/
theorem unwound_choice :
    (call (evaluateParts .standard 20) ⟨0⟩ .undefined []).runIn Unwinding.session =
      (.ok (.integer 7), Unwinding.session.enter ⟨0⟩ [("this", .undefined)]) ∧
    ¬Unwinding.caller.ReturnsOutside ∧
    (∀ x t, (evaluate .standard 20 Unwinding.caller ⟨0⟩).runIn Unwinding.session ≠
      (.error (.returned x), t)) ∧
    ∃ program, Source.program "if (1) \x7b return 7; \x7d" = .ok program ∧
      program.ReturnsOutside := by
  have houtside : ¬Unwinding.caller.ReturnsOutside := by
    rintro (_ | ⟨hm, -, h⟩)
    obtain rfl := List.mem_singleton.mp hm
    cases h with
    | child _ hn => exact hn _ _ _ _ rfl
  have hstray : (execute .standard "if (1) \x7b return 7; \x7d").ending =
      .mistaken .strayReturn none := by
    decide +kernel
  refine ⟨return_unwinds_call.2.1 (evaluateParts .standard 20) Unwinding.invocation []
      Unwinding.body ⟨0⟩ ⟨rfl, rfl⟩ (.integer 7) _ rfl, houtside,
    return_unwinds_call.2.2.1 .standard 20 ⟨Unwinding.caller, ⟨0⟩, Unwinding.session⟩ houtside,
    return_unwinds_call.2.2.2 _ _ _ _ hstray rfl⟩

end Scriptlet
