import Scriptlet.Proofs.Inversion

/-!
# The Course of a Visit

From its beginning to its end a visit takes the session through a row of *steps*. A step is a
whole part, after which its value may be put under a name, or something that the visit does
itself: it makes an object, enters a function, or prints. `Step` lists all steps, and `Ends` lists
all the ways in which a visit can end.

Whatever is to hold of the objects in all sessions of a run is shown of the steps, one by one, and
whatever is to hold of values and exits is shown of the endings. No other proof has to go through
the rules of evaluation again.

## Main definitions

* `Step`, `Course`: what a visit does to the session, once and any number of times.
* `Ends`: how a visit ends, and where its result comes from.

## Main results

* `course_evaluateWith`: a visit ends on its course, in one of these ways.
* `evaluateSpaced_induction`: what holds along the course of every visit holds of every visit.
* `Part.course`, `Invokes.course`, `Passes.course`: all that a visit comes to is on its course.
-/

namespace Scriptlet

/-! ### Steps and endings -/

section

variable (eval : Evaluator)

/-- A part of a visit that puts the value of the part under a name of an object. -/
inductive Awaits : Visit → Visit → (object : Ref) → (name : String) → Prop
  | assigned {name : String} {value : Node} {declares : Bool} {line : Int} {frame : Ref}
      {s t : Session} (h : (requireUndefined eval declares frame name).runIn s = (.ok (), t)) :
      Awaits ⟨.assign name value declares line, frame, s⟩ ⟨value, frame, t⟩ frame name
  | entry {done rest : List (String × Node)} {key : String} {n : Node} {line : Int} {frame : Ref}
      {s t : Session}
      (h : (runEntries eval done s.store.fresh frame).runIn (s.add (.record none)) = (.ok (), t)) :
      Awaits ⟨.record (done ++ (key, n) :: rest) line, frame, s⟩ ⟨n, frame, t⟩ s.store.fresh key
  | fieldValue {receiver value : Node} {name : String} {line : Int} {frame object : Ref}
      {s t : Session}
      (h : (eval .operand receiver frame >>=
        requireObject eval ("cannot assign field '" ++ name ++ "'")).runIn s = (.ok object, t)) :
      Awaits ⟨.assignField receiver name value line, frame, s⟩ ⟨value, frame, t⟩ object name

/-- What a visit does to the session in one step. -/
inductive Step : Visit → Session → Session → Prop
  | part {v w : Visit} {role : Role} {result : Except Exit Value} {t : Session}
      (hp : Part eval v role w)
      (hw : (eval role w.node w.frame).runIn w.session = (result, t)) : Step v w.session t
  | put {v w : Visit} {object : Ref} {name : String} {x : Value} {t : Session}
      (hp : Awaits eval v w object name)
      (hw : (eval .operand w.node w.frame).runIn w.session = (.ok x, t)) :
      Step v w.session (t.put object name x)
  | function {name : Option String} {parameters : List String} {body : Node} {line : Int}
      {frame : Ref} {s : Session} :
      Step ⟨.function name parameters body line, frame, s⟩ s
        (s.add (.function (name.getD anonymousName) (.closure parameters body frame)))
  | named {name : String} {parameters : List String} {body : Node} {line : Int}
      {frame : Ref} {s : Session} :
      Step ⟨.function (some name) parameters body line, frame, s⟩
        (s.add (.function name (.closure parameters body frame)))
        ((s.add (.function name (.closure parameters body frame))).put frame name
          (.object s.store.fresh))
  | record {entries : List (String × Node)} {line : Int} {frame : Ref} {s : Session} :
      Step ⟨.record entries line, frame, s⟩ s (s.add (.record none))
  | this {entries : List (String × Node)} {line : Int} {frame : Ref} {s t : Session}
      (h : (runEntries eval entries s.store.fresh frame).runIn (s.add (.record none)) =
        (.ok (), t)) :
      Step ⟨.record entries line, frame, s⟩ t
        (t.put s.store.fresh "this" (.object s.store.fresh))
  | enter {v : Visit} {i : Invocation} {parameters : List String} {body : Node} {home : Ref}
      {names : List (String × Value)} (hi : Invokes eval v i) (he : i.Enters parameters body home)
      (hn : names <+: i.names parameters) : Step v i.session (i.session.enter home names)
  | builtin {v : Visit} {i : Invocation} {b : Builtin} {result : Except Exit Value} {t : Session}
      (hi : Invokes eval v i) (ha : i.session.store.action? i.function = some (.builtin b))
      (hr : (b.apply eval.stack eval.levels i.arguments).runIn i.session = (result, t)) :
      Step v i.session t

/-- What a visit does to the session in any number of steps. -/
def Course (v : Visit) : Session → Session → Prop := Relation.ReflTransGen (Step eval v)

/-- The ways in which a visit ends. -/
inductive Ends : Visit → Except Exit Value → Session → Prop
  | undefined {v : Visit} {t : Session} : Ends v (.ok .undefined) t
  | literal {x : Value} {serial : Nat} {line : Int} {frame : Ref} {s : Session} :
      Ends ⟨.literal x serial line, frame, s⟩ (.ok x) s
  | name {name : String} {line : Int} {frame : Ref} {s : Session} :
      Ends ⟨.name name line, frame, s⟩ (.ok (s.store.read frame name)) s
  | function {name : Option String} {parameters : List String} {body : Node} {line : Int}
      {frame : Ref} {s t : Session} :
      Ends ⟨.function name parameters body line, frame, s⟩ (.ok (.object s.store.fresh)) t
  | record {entries : List (String × Node)} {line : Int} {frame : Ref} {s t : Session} :
      Ends ⟨.record entries line, frame, s⟩ (.ok (.object s.store.fresh)) t
  | field {receiver : Node} {name : String} {line : Int} {frame r : Ref} {s t : Session}
      (hw : (eval .operand receiver frame).runIn s = (.ok (.object r), t)) :
      Ends ⟨.field receiver name line, frame, s⟩ (.ok (t.store.read r name)) t
  | receiver {receiver value : Node} {name : String} {line : Int} {frame : Ref}
      {s t : Session} :
      Ends ⟨.assignField receiver name value line, frame, s⟩ (.ok (.node receiver)) t
  | value {receiver : Node} {name : String} {line : Int} {frame : Ref} {s t : Session} {x : Value}
      (hw : (eval .operand receiver frame).runIn s = (.ok x, t)) (hx : ∀ r, x ≠ .object r) :
      Ends ⟨.field receiver name line, frame, s⟩ (.ok x) t
  | chosen {condition consequence alternative : Node} {line : Int} {frame : Ref} {b : Bool}
      {s t u : Session} {x : Value}
      (hb : (eval .operand condition frame >>= requireBoolean eval).runIn s = (.ok b, t))
      (hw : (eval .operand (if b then consequence else alternative) frame).runIn t = (.ok x, u)) :
      Ends ⟨.branch condition consequence alternative line, frame, s⟩ (.ok x) u
  | body {v w : Visit} {x : Value} {t : Session} (hp : Part eval v .body w)
      (hw : (eval .body w.node w.frame).runIn w.session = (.ok x, t)) : Ends v (.ok x) t
  | returned {v w : Visit} {x : Value} {t : Session} (hp : Part eval v .body w)
      (hw : (eval .body w.node w.frame).runIn w.session = (.error (.returned x), t)) :
      Ends v (.ok x) t
  | constant {v : Visit} {i : Invocation} {x : Value} (hi : Invokes eval v i)
      (ha : i.session.store.action? i.function = some (.constant x)) : Ends v (.ok x) i.session
  | builtin {v : Visit} {i : Invocation} {b : Builtin} {result : Except Exit Value} {t : Session}
      (hi : Invokes eval v i) (ha : i.session.store.action? i.function = some (.builtin b))
      (hr : (b.apply eval.stack eval.levels i.arguments).runIn i.session = (result, t)) :
      Ends v result t
  | giveBack {value : Node} {line : Int} {frame : Ref} {s t : Session} {x : Value}
      (hw : (eval .operand value frame).runIn s = (.ok x, t)) :
      Ends ⟨.giveBack value line, frame, s⟩ (.error (.returned x)) t
  | exit {v w : Visit} {role : Role} {x : Exit} {t : Session} (hp : Part eval v role w)
      (hw : (eval role w.node w.frame).runIn w.session = (.error x, t))
      (hx : role = .body → ∀ y, x ≠ .returned y) : Ends v (.error x) t
  | raised {v : Visit} {x : Exit} {t : Session} (hx : x.Raised) : Ends v (.error x) t

end

section

variable {eval : Evaluator}

theorem Awaits.part {v w : Visit} {object : Ref} {name : String} (h : Awaits eval v w object name) :
    Part eval v .operand w := by
  cases h with
  | assigned h => exact .assigned h
  | entry h => exact .entry h
  | fieldValue h => exact .fieldValue h

section

variable {v : Visit} {n : Node} {frame : Ref} {s t : Session}

theorem Part.step {role : Role} {result : Except Exit Value} (hp : Part eval v role ⟨n, frame, s⟩)
    (h : (eval role n frame).runIn s = (result, t)) : Step eval v s t := .part hp h

theorem Awaits.step {object : Ref} {name : String} {x : Value}
    (hp : Awaits eval v ⟨n, frame, s⟩ object name)
    (h : (eval .operand n frame).runIn s = (.ok x, t)) : Step eval v s (t.put object name x) :=
  .put hp h

end

/-! ### Rows of parts -/

/-- Statements of a block, some of which have been evaluated before. -/
theorem course_runStatements {done more rest : List Node} {line : Int} {frame : Ref}
    {s t u : Session} {result : Except Exit Unit}
    (hdone : (runStatements eval done frame).runIn s = (.ok (), t))
    (h : (runStatements eval more frame).runIn t = (result, u)) :
    Course eval ⟨.block (done ++ more ++ rest) line, frame, s⟩ t u ∧ ∀ x, result = .error x →
      Ends eval ⟨.block (done ++ more ++ rest) line, frame, s⟩ (.error x) u := by
  have hpart {before after : List Node} {n : Node} {w : Session} (hn : more = before ++ n :: after)
      (hw : (runStatements eval before frame).runIn t = (.ok (), w)) :
      Part eval ⟨.block (done ++ more ++ rest) line, frame, s⟩ .statement ⟨n, frame, w⟩ := by
    have hsplit : done ++ more ++ rest = (done ++ before) ++ n :: (after ++ rest) := by simp [hn]
    rw [hsplit]
    refine .statement ?_
    rw [runStatements_append]
    exact (Eval.runIn_bind_of_ok hdone _).trans hw
  have hstep : ∀ before n after w result w', more = before ++ n :: after →
      (runStatements eval before frame).runIn t = (.ok (), w) →
        (discard (eval .statement n frame)).runIn w = (result, w') →
          Course eval ⟨.block (done ++ more ++ rest) line, frame, s⟩ w w' := by
    intro before n after w result w' hn hw hw'
    rcases Eval.cases_of_runIn_discard hw' with ⟨x, hx, -⟩ | ⟨v, hv, -⟩
    · exact .single ((hpart hn hw).step hx)
    · exact .single ((hpart hn hw).step hv)
  obtain ⟨hcourse, herror⟩ := Eval.cases_of_runIn_forM hstep h
  refine ⟨hcourse, fun x hx => ?_⟩
  obtain ⟨before, n, after, w, hn, hw, hw'⟩ := herror x hx
  rcases Eval.cases_of_runIn_discard hw' with ⟨y, hy, hxy⟩ | ⟨_, _, hv⟩
  · obtain rfl := Except.error.inj hxy
    exact .exit (hpart hn hw) hy nofun
  · cases hv

/-- Arguments of a call, some of which have been evaluated before. -/
theorem course_runArguments {v : Visit} {f : Ref} {receiver : Value} {done more rest : List Node}
    {values : List Value} {s t u : Session} {result : Except Exit (List Value)}
    (hp : Prepares eval v f receiver (done ++ more ++ rest) s)
    (hdone : (runArguments eval done v.frame).runIn s = (.ok values, t))
    (h : (runArguments eval more v.frame).runIn t = (result, u)) :
    Course eval v t u ∧ ∀ x, result = .error x → Ends eval v (.error x) u := by
  have hpart {before after : List Node} {n : Node} {bs : List Value} {w : Session}
      (hn : more = before ++ n :: after)
      (hw : (runArguments eval before v.frame).runIn t = (.ok bs, w)) :
      Part eval v .argument ⟨n, v.frame, w⟩ := by
    have hsplit : done ++ more ++ rest = (done ++ before) ++ n :: (after ++ rest) := by simp [hn]
    rw [hsplit] at hp
    have hall : (runArguments eval (done ++ before) v.frame).runIn s = (.ok (values ++ bs), w) := by
      rw [runArguments_append]
      exact (Eval.runIn_bind_of_ok hdone _).trans (Eval.runIn_bind_of_ok hw _)
    exact .argument hp hall
  have hstep : ∀ before n after bs w result w', more = before ++ n :: after →
      (runArguments eval before v.frame).runIn t = (.ok bs, w) →
        (eval .argument n v.frame).runIn w = (result, w') → Course eval v w w' :=
    fun before n after bs w result w' hn hw hw' => .single ((hpart hn hw).step hw')
  obtain ⟨hcourse, herror⟩ := Eval.cases_of_runIn_mapM hstep h
  refine ⟨hcourse, fun x hx => ?_⟩
  obtain ⟨before, n, after, bs, w, hn, hw, hw'⟩ := herror x hx
  exact .exit (hpart hn hw) hw' nofun

/-- Entries of a record, some of which have been evaluated before. -/
theorem course_runEntries {done more rest : List (String × Node)} {line : Int} {frame : Ref}
    {s t u : Session} {result : Except Exit Unit}
    (hdone : (runEntries eval done s.store.fresh frame).runIn (s.add (.record none)) = (.ok (), t))
    (h : (runEntries eval more s.store.fresh frame).runIn t = (result, u)) :
    Course eval ⟨.record (done ++ more ++ rest) line, frame, s⟩ t u ∧ ∀ x, result = .error x →
      Ends eval ⟨.record (done ++ more ++ rest) line, frame, s⟩ (.error x) u := by
  have hawaits {before after : List (String × Node)} {e : String × Node} {w : Session}
      (hn : more = before ++ e :: after)
      (hw : (runEntries eval before s.store.fresh frame).runIn t = (.ok (), w)) :
      Awaits eval ⟨.record (done ++ more ++ rest) line, frame, s⟩ ⟨e.2, frame, w⟩ s.store.fresh
        e.1 := by
    have hsplit : done ++ more ++ rest = (done ++ before) ++ e :: (after ++ rest) := by simp [hn]
    rw [hsplit]
    refine .entry ?_
    rw [runEntries_append]
    exact (Eval.runIn_bind_of_ok hdone _).trans hw
  have hstep : ∀ before e after w result w', more = before ++ e :: after →
      (runEntries eval before s.store.fresh frame).runIn t = (.ok (), w) →
        (do Eval.put s.store.fresh e.1 (← eval .operand e.2 frame) : Eval Unit).runIn w =
          (result, w') → Course eval ⟨.record (done ++ more ++ rest) line, frame, s⟩ w w' := by
    intro before e after w result w' hn hw hw'
    rcases Eval.cases_of_runIn_bind hw' with ⟨x, hx, -⟩ | ⟨x, _, hx, hput⟩
    · exact .single ((hawaits hn hw).part.step hx)
    · obtain ⟨-, rfl⟩ := Prod.mk.inj hput
      exact .single ((hawaits hn hw).step hx)
  obtain ⟨hcourse, herror⟩ := Eval.cases_of_runIn_forM hstep h
  refine ⟨hcourse, fun x hx => ?_⟩
  obtain ⟨before, e, after, w, hn, hw, hw'⟩ := herror x hx
  rcases Eval.cases_of_runIn_bind hw' with ⟨y, hy, hxy⟩ | ⟨_, _, _, hput⟩
  · obtain rfl := Except.error.inj hxy
    exact .exit (hawaits hn hw).part hy nofun
  · cases hput

/-! ### Calls -/

/-- The call that a visit makes when all arguments have been evaluated. -/
theorem course_call {v : Visit} {i : Invocation} {t : Session} {result : Except Exit Value}
    (hi : Invokes eval v i)
    (h : (call eval i.function i.receiver i.arguments).runIn i.session = (result, t)) :
    Course eval v i.session t ∧ Ends eval v result t := by
  rcases cases_of_call h with ⟨rfl, x, rfl, hx⟩ | ⟨parameters, body, home, he, hbody⟩ |
    ⟨b, ha, hb⟩ | ⟨x, ha, rfl, rfl⟩
  · exact ⟨.refl, .raised hx⟩
  · have hpart := Part.body hi he
    have henter : Course eval v i.session _ := .single (.enter hi he List.prefix_rfl)
    rcases Eval.cases_of_runIn_catchReturn hbody with ⟨x, rfl, hx | hx⟩ | ⟨x, rfl, hx, hne⟩
    · exact ⟨henter.tail (.part hpart hx), .body hpart hx⟩
    · exact ⟨henter.tail (.part hpart hx), .returned hpart hx⟩
    · exact ⟨henter.tail (.part hpart hx), .exit hpart hx fun _ => hne⟩
  · exact ⟨.single (.builtin hi ha hb), .builtin hi ha hb⟩
  · exact ⟨.refl, .constant hi ha⟩

/-- The arguments that a call still has to evaluate, and the call itself. -/
theorem course_invoke {v : Visit} {f : Ref} {receiver : Value} {done more : List Node}
    {values : List Value} {s t u : Session} {result : Except Exit Value}
    (hp : Prepares eval v f receiver (done ++ more) s)
    (hdone : (runArguments eval done v.frame).runIn s = (.ok values, t))
    (h : (do invoke eval f receiver (values ++ (← runArguments eval more v.frame)) :
      Eval Value).runIn t = (result, u)) :
    Course eval v t u ∧ Ends eval v result u := by
  have hrow := @course_runArguments eval v f receiver done more [] values s t
  rw [List.append_nil] at hrow
  rcases Eval.cases_of_runIn_bind h with ⟨x, hx, rfl⟩ | ⟨values', w, hw, hinvoke⟩
  · obtain ⟨hcourse, herror⟩ := hrow hp hdone hx
    exact ⟨hcourse, herror x rfl⟩
  have hall : (runArguments eval (done ++ more) v.frame).runIn s =
      (.ok (values ++ values'), w) := by
    rw [runArguments_append]
    exact (Eval.runIn_bind_of_ok hdone _).trans (Eval.runIn_bind_of_ok hw _)
  rcases cases_of_invoke hinvoke with ⟨rfl, rfl⟩ | ⟨hroom, hcall⟩
  · exact ⟨(hrow hp hdone hw).1, .raised trivial⟩
  obtain ⟨hcourse, hends⟩ := course_call (.intro hp hall hroom) hcall
  exact ⟨(hrow hp hdone hw).1.trans hcourse, hends⟩

/-! ### Visits -/

/-- What a part of a visit is required to be. -/
theorem cases_of_required {α : Type} {require : Value → Eval α}
    (hrequire : ∀ x u u' result, (require x).runIn u = (result, u') →
      u' = u ∧ ((∃ a, result = .ok a) ∨ ∃ x, result = .error x ∧ x.Raised))
    {v : Visit} {n : Node} {frame : Ref} {s t : Session} {result : Except Exit α}
    (hp : Part eval v .operand ⟨n, frame, s⟩)
    (h : (eval .operand n frame >>= require).runIn s = (result, t)) :
    Course eval v s t ∧ ∀ x, result = .error x → Ends eval v (.error x) t := by
  rcases Eval.cases_of_runIn_bind h with ⟨x, hx, rfl⟩ | ⟨x, u, hx, hrequired⟩
  · refine ⟨.single (.part hp hx), fun y hy => ?_⟩
    obtain rfl := Except.error.inj hy
    exact .exit hp hx nofun
  · obtain ⟨rfl, ⟨a, rfl⟩ | ⟨x, rfl, hraised⟩⟩ := hrequire _ _ _ _ hrequired
    · exact ⟨.single (.part hp hx), nofun⟩
    · refine ⟨.single (.part hp hx), fun y hy => ?_⟩
      obtain rfl := Except.error.inj hy
      exact .raised hraised

theorem cases_of_requiredObject {v : Visit} {n : Node} {frame : Ref} {purpose : String}
    {s t : Session} {result : Except Exit Ref} (hp : Part eval v .operand ⟨n, frame, s⟩)
    (h : (eval .operand n frame >>= requireObject eval purpose).runIn s = (result, t)) :
    Course eval v s t ∧ ∀ x, result = .error x → Ends eval v (.error x) t :=
  cases_of_required (fun _ _ _ _ hx => (cases_of_requireObject hx).imp_right
    (Or.imp_left fun ⟨r, _, hr⟩ => ⟨r, hr⟩)) hp h

/-- What a visit does when it is known what is called. -/
theorem Prepares.runIn_evaluateWith {v : Visit} {f : Ref} {receiver : Value} {arguments : List Node}
    {s : Session} (h : Prepares eval v f receiver arguments s) :
    (evaluateWith eval v.node v.frame).runIn v.session =
      (runArguments eval arguments v.frame >>= invoke eval f receiver).runIn s := by
  cases h with
  | call h =>
      rw [evaluateWith, ← bind_assoc]
      exact Eval.runIn_bind_of_ok h _
  | callMethod ho hf =>
      rw [evaluateWith, ← bind_assoc]
      exact (Eval.runIn_bind_of_ok ho _).trans (Eval.runIn_bind_of_ok hf _)

/-- What a visit prepares to call, it comes to on its course. -/
theorem Prepares.course {v : Visit} {f : Ref} {receiver : Value} {arguments : List Node}
    {s : Session} (h : Prepares eval v f receiver arguments s) : Course eval v v.session s := by
  cases h with
  | call h =>
      refine (cases_of_required (fun _ _ _ _ hx => ?_) (.first rfl) h).1
      exact (cases_of_requireFunction hx).imp_right (Or.imp_left fun ⟨r, _, hr⟩ => ⟨r, hr⟩)
  | callMethod ho hf =>
      obtain ⟨rfl, -⟩ := cases_of_requireMethod hf
      exact (cases_of_requiredObject (.first rfl) ho).1

/-- The rest of a visit when it is known what is called. -/
theorem Prepares.course_invoke {v : Visit} {f : Ref} {receiver : Value} {arguments : List Node}
    {s t : Session} {result : Except Exit Value} (hp : Prepares eval v f receiver arguments s)
    (h : (runArguments eval arguments v.frame >>= invoke eval f receiver).runIn s =
      (result, t)) :
    Course eval v s t ∧ Ends eval v result t :=
  Scriptlet.course_invoke hp (runIn_runArguments_nil eval v.frame s) h

/-- A visit ends on its course, in one of the ways that there are. -/
theorem course_evaluateWith {v : Visit} {result : Except Exit Value} {t : Session}
    (h : (evaluateWith eval v.node v.frame).runIn v.session = (result, t)) :
    Course eval v v.session t ∧ Ends eval v result t := by
  obtain ⟨node, frame, s⟩ := v
  dsimp only at h
  have single {n : Node} (hn : node.first? = some n) :
      Part eval ⟨node, frame, s⟩ .operand ⟨n, frame, s⟩ := .first hn
  cases node with
  | block statements line =>
      have hrow := @course_runStatements eval [] statements [] line frame s s
      rw [List.append_nil] at hrow
      rcases Eval.cases_of_runIn_bind h with ⟨x, hx, rfl⟩ | ⟨_, u, hu, hpure⟩
      · exact ⟨(hrow rfl hx).1, (hrow rfl hx).2 x rfl⟩
      · obtain ⟨rfl, rfl⟩ := Prod.mk.inj hpure
        exact ⟨(hrow rfl hu).1, .undefined⟩
  | literal x serial line =>
      obtain ⟨rfl, rfl⟩ := Prod.mk.inj h
      exact ⟨.refl, .literal⟩
  | call callee arguments line =>
      rw [evaluateWith, ← bind_assoc] at h
      rcases Eval.cases_of_runIn_bind h with ⟨x, hx, rfl⟩ | ⟨f, u, hu, hinvoke⟩
      · have hrequired := cases_of_required
          (fun _ _ _ _ hx => (cases_of_requireFunction hx).imp_right
            (Or.imp_left (Exists.imp fun _ => And.right))) (single rfl) hx
        exact ⟨hrequired.1, hrequired.2 x rfl⟩
      · have hp : Prepares eval ⟨.call callee arguments line, frame, s⟩ f .undefined arguments u :=
          .call hu
        obtain ⟨hcourse, hends⟩ := hp.course_invoke hinvoke
        exact ⟨hp.course.trans hcourse, hends⟩
  | name name line =>
      obtain ⟨rfl, rfl⟩ := Prod.mk.inj h
      exact ⟨.refl, .name⟩
  | assign name value declares line =>
      rcases Eval.cases_of_runIn_bind h with ⟨x, hx, rfl⟩ | ⟨_, u, hu, hassign⟩
      · obtain ⟨rfl, hx | ⟨y, hy, hraised⟩⟩ := cases_of_requireUndefined hx
        · cases hx
        · obtain rfl := Except.error.inj hy
          exact ⟨.refl, .raised hraised⟩
      obtain ⟨rfl, -⟩ := cases_of_requireUndefined hu
      have hawaits : Awaits eval ⟨.assign name value declares line, frame, u⟩ ⟨value, frame, u⟩
          frame name := .assigned hu
      rcases Eval.cases_of_runIn_bind hassign with ⟨x, hx, rfl⟩ | ⟨x, w, hx, hput⟩
      · exact ⟨.single (hawaits.part.step hx), .exit hawaits.part hx Role.noConfusion⟩
      · obtain ⟨rfl, rfl⟩ := Prod.mk.inj hput
        exact ⟨.single (hawaits.step hx), .undefined⟩
  | function name parameters body line =>
      cases name with
      | none =>
          obtain ⟨rfl, rfl⟩ := Prod.mk.inj h
          exact ⟨.single .function, .function⟩
      | some name =>
          obtain ⟨rfl, rfl⟩ := Prod.mk.inj h
          exact ⟨.tail (.single .function) .named, .function⟩
  | giveBack value line =>
      rcases Eval.cases_of_runIn_bind h with ⟨x, hx, rfl⟩ | ⟨x, u, hx, hthrow⟩
      · exact ⟨.single ((single rfl).step hx), .exit (single rfl) hx Role.noConfusion⟩
      · obtain ⟨rfl, rfl⟩ := Prod.mk.inj hthrow
        exact ⟨.single ((single rfl).step hx), .giveBack hx⟩
  | branch condition consequence alternative line =>
      rw [evaluateWith, ← bind_assoc] at h
      have hrequire := fun {result : Except Exit Bool} {t : Session}
        (hx : (eval .operand condition frame >>= requireBoolean eval).runIn s = (result, t)) =>
          cases_of_required (fun _ _ _ _ hx => cases_of_requireBoolean hx) (single rfl) hx
      rcases Eval.cases_of_runIn_bind h with ⟨x, hx, rfl⟩ | ⟨b, u, hu, hchosen⟩
      · exact ⟨(hrequire hx).1, (hrequire hx).2 x rfl⟩
      have hp : Part eval ⟨.branch condition consequence alternative line, frame, s⟩ .operand
          ⟨if b then consequence else alternative, frame, u⟩ := .chosen hu
      have hw : (eval .operand (if b then consequence else alternative) frame).runIn u =
          (result, t) := by
        cases b with
        | true => exact hchosen
        | false => exact hchosen
      refine ⟨(hrequire hu).1.tail (hp.step hw), ?_⟩
      cases result with
      | error x => exact .exit hp hw Role.noConfusion
      | ok x => exact .chosen hu hw
  | record entries line =>
      have hrow := @course_runEntries eval [] entries [] line frame s (s.add (.record none))
      rw [List.append_nil] at hrow
      rw [evaluateWith, Eval.runIn_bind_of_ok (Eval.runIn_add (.record none) s)] at h
      rcases Eval.cases_of_runIn_bind h with ⟨x, hx, rfl⟩ | ⟨_, u, hu, hthis⟩
      · exact ⟨.head .record (hrow rfl hx).1, (hrow rfl hx).2 x rfl⟩
      · obtain ⟨rfl, rfl⟩ := Prod.mk.inj hthis
        exact ⟨.tail (.head .record (hrow rfl hu).1) (.this hu), .record⟩
  | field receiver name line =>
      rcases Eval.cases_of_runIn_bind h with ⟨x, hx, rfl⟩ | ⟨x, u, hx, hread⟩
      · exact ⟨.single ((single rfl).step hx), .exit (single rfl) hx Role.noConfusion⟩
      cases x with
      | object r =>
          obtain ⟨rfl, rfl⟩ := Prod.mk.inj hread
          exact ⟨.single ((single rfl).step hx), .field hx⟩
      | undefined | integer | string | node =>
          obtain ⟨rfl, rfl⟩ := Prod.mk.inj hread
          exact ⟨.single ((single rfl).step hx), .value hx fun _ => Value.noConfusion⟩
  | assignField receiver name value line =>
      rw [evaluateWith, ← bind_assoc] at h
      rcases Eval.cases_of_runIn_bind h with ⟨x, hx, rfl⟩ | ⟨object, u, hu, hassign⟩
      · have hrequired := cases_of_requiredObject (single rfl) hx
        exact ⟨hrequired.1, hrequired.2 x rfl⟩
      have hcourse := (cases_of_requiredObject (single rfl) hu).1
      have hawaits : Awaits eval ⟨.assignField receiver name value line, frame, s⟩
          ⟨value, frame, u⟩ object name := .fieldValue hu
      rcases Eval.cases_of_runIn_bind hassign with ⟨x, hx, rfl⟩ | ⟨x, w, hx, hput⟩
      · exact ⟨hcourse.tail (hawaits.part.step hx), .exit hawaits.part hx Role.noConfusion⟩
      · obtain ⟨rfl, rfl⟩ := Prod.mk.inj hput
        exact ⟨hcourse.tail (hawaits.step hx), .receiver⟩
  | callMethod receiver name arguments line =>
      rw [evaluateWith, ← bind_assoc] at h
      rcases Eval.cases_of_runIn_bind h with ⟨x, hx, rfl⟩ | ⟨object, u, hu, hmethod⟩
      · have hrequired := cases_of_requiredObject (single rfl) hx
        exact ⟨hrequired.1, hrequired.2 x rfl⟩
      have hcourse := (cases_of_requiredObject (single rfl) hu).1
      rcases Eval.cases_of_runIn_bind hmethod with ⟨x, hx, rfl⟩ | ⟨f, w, hf, hinvoke⟩
      · obtain ⟨rfl, ⟨_, -, hx⟩ | ⟨y, hy, hraised⟩⟩ := cases_of_requireMethod hx
        · cases hx
        · obtain rfl := Except.error.inj hy
          exact ⟨hcourse, .raised hraised⟩
      · have hp : Prepares eval ⟨.callMethod receiver name arguments line, frame, s⟩ f
            (.object object) arguments w := .callMethod hu hf
        obtain ⟨hcourse, hends⟩ := hp.course_invoke hinvoke
        exact ⟨hp.course.trans hcourse, hends⟩

/-- **Induction along courses.** Let something be said of where a visit begins and where it ends.
It holds of all visits if it holds of those that are cut off, is not lost where levels are skipped,
and holds along the course of a visit as soon as it holds of all visits one level below. -/
theorem evaluateSpaced_induction {stack : Stack}
    {motive : (levels gap : Nat) → Visit → Session → Prop}
    (cut : ∀ {levels gap v}, motive levels gap v v.session)
    (skip : ∀ {levels gap v t}, motive levels gap v t → motive (levels + 1) (gap + 1) v t)
    (course : ∀ {levels v t},
      (∀ {gap w result u}, (evaluateSpaced stack levels gap w.node w.frame).runIn w.session =
        (result, u) → motive levels gap w u) →
      Course (evaluateParts stack levels) v v.session t → motive (levels + 1) 0 v t)
    {levels gap : Nat} {v : Visit} {result : Except Exit Value} {t : Session}
    (h : (evaluateSpaced stack levels gap v.node v.frame).runIn v.session = (result, t)) :
    motive levels gap v t := by
  induction levels generalizing gap v result t with
  | zero =>
      obtain ⟨-, rfl⟩ := Prod.mk.inj h
      exact cut
  | succ levels ih =>
      cases gap with
      | succ gap => exact skip (ih h)
      | zero =>
          rcases cases_of_runIn_evaluateSpaced h with ⟨rfl, -⟩ | ⟨below, _, hlevels, -, hrule, -⟩
          · exact cut
          · obtain rfl : below = levels := by omega
            exact course ih (course_evaluateWith hrule).1

/-- The call that a visit makes, it comes to on its course. -/
theorem Invokes.course {v : Visit} {i : Invocation} (h : Invokes eval v i) :
    Course eval v v.session i.session := by
  cases h with
  | @intro f receiver arguments values s t hp ha hroom =>
      have hrow := @course_runArguments eval v f receiver [] arguments [] [] s s
      rw [List.append_nil] at hrow
      exact hp.course.trans (hrow hp rfl ha).1

/-- Every part of a visit begins on the course of the visit. -/
theorem Part.course {v w : Visit} {role : Role} (h : Part eval v role w) :
    Course eval v v.session w.session := by
  cases h with
  | first => exact .refl
  | statement h => exact (course_runStatements (runIn_runStatements_nil eval _ _) h).1
  | argument hp h =>
      exact hp.course.trans (course_runArguments hp (runIn_runArguments_nil eval _ _) h).1
  | body hi he => exact hi.course.tail (.enter hi he List.prefix_rfl)
  | assigned h =>
      obtain ⟨rfl, -⟩ := cases_of_requireUndefined h
      exact .refl
  | chosen h =>
      exact (cases_of_required (fun _ _ _ _ hx => cases_of_requireBoolean hx) (.first rfl) h).1
  | entry h => exact .head .record (course_runEntries (runIn_runEntries_nil eval _ _ _) h).1
  | fieldValue h => exact (cases_of_requiredObject (.first rfl) h).1

/-- The sessions in between are on the course of a visit. -/
theorem Passes.course {v : Visit} {s : Session} (h : Passes eval v s) :
    Course eval v v.session s := by
  cases h with
  | function => exact .single .function
  | record h => exact .head .record (course_runEntries (runIn_runEntries_nil eval _ _ _) h).1
  | frame hi he hn => exact hi.course.tail (.enter hi he hn)

end

end Scriptlet
