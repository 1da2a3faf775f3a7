import Scriptlet.Eval.Evaluate

/-!
# The Moments of a Run

A run is more than its outcome: nodes are evaluated inside one another, functions are called, and
the session changes on the way. A *visit* is the evaluation of a node in a frame, and `Part` says
which visits a visit is made of. What happens in a visit and in its parts, theirs included, are
the *moments* that it reaches.

Whatever is to hold all the time in a run is shown of the moments by induction: a visit hands on
to its parts what it has itself. `evaluateWith_congr` shows that no part is missing.

## Main definitions

* `Visit`, `Part`: an evaluation, and those that it needs.
* `Invocation`, `Invokes`: a call of a function, with its receiver and its arguments.
* `Passes`: the sessions in between, while objects are filled.
* `Moment`, `Reaches`: what happens in a visit, at any depth.

## Main results

* `evaluateWith_congr`: how a visit ends depends on its parts alone.
-/

namespace Scriptlet

/-- An evaluation of a node in a frame, which begins in a session. -/
structure Visit where
  /-- What is evaluated. -/
  node : Node
  /-- Where names are read and set. -/
  frame : Ref
  /-- What was done before. -/
  session : Session

/-- A call of a function, before the call does anything. -/
structure Invocation where
  /-- What is called. -/
  function : Ref
  /-- What `this` is to be. -/
  receiver : Value
  /-- The values of the arguments. -/
  arguments : List Value
  /-- What was done before. -/
  session : Session

/-- The session with one more object. -/
def Session.add (s : Session) (o : Object) : Session := { s with store := s.store.add o }

/-- The session in which a name of an object is set. -/
def Session.put (s : Session) (r : Ref) (name : String) (v : Value) : Session :=
  { s with store := s.store.put r name v }

/-- The session with one more frame inside `home`, in which names are set. -/
def Session.enter (s : Session) (home : Ref) (names : List (String × Value)) : Session :=
  { s with store := (s.store.add (.frame home)).putAll s.store.fresh names }

/-- The names that a call sets in its frame. -/
def Invocation.names (i : Invocation) (parameters : List String) : List (String × Value) :=
  ("this", i.receiver) :: parameters.zip i.arguments

/-- Whether a call enters a body, which needs as many arguments as there are parameters. -/
def Invocation.Enters (i : Invocation) (parameters : List String) (body : Node) (home : Ref) :
    Prop :=
  i.session.store.action? i.function = some (.closure parameters body home) ∧
    i.arguments.length = parameters.length

/-- The part of a node that is evaluated before anything else is done. -/
def Node.first? : Node → Option Node
  | .call n _ _ | .giveBack n _ | .branch n _ _ _ | .field n _ _ | .assignField n _ _ _
  | .callMethod n _ _ _ => some n
  | _ => none

/-! ### A visit and its parts -/

section

variable (eval : Evaluator)

/-- Evaluates the statements of a block. -/
def runStatements (statements : List Node) (frame : Ref) : Eval Unit :=
  statements.forM fun n => discard (eval .statement n frame)

/-- Evaluates the arguments of a call. -/
def runArguments (arguments : List Node) (frame : Ref) : Eval (List Value) :=
  arguments.mapM fun n => eval .argument n frame

/-- Fills a record with its entries. -/
def runEntries (entries : List (String × Node)) (object frame : Ref) : Eval Unit :=
  entries.forM fun (key, n) => do Eval.put object key (← eval .operand n frame)

/-- What a call is about to call, and which arguments it is yet to evaluate. -/
inductive Prepares : Visit → (function : Ref) → (receiver : Value) → List Node → Session → Prop
  | call {callee : Node} {arguments : List Node} {line : Int} {frame f : Ref} {s t : Session}
      (h : (eval .operand callee frame >>= requireFunction eval).runIn s = (.ok f, t)) :
      Prepares ⟨.call callee arguments line, frame, s⟩ f .undefined arguments t
  | callMethod {receiver : Node} {name : String} {arguments : List Node} {line : Int}
      {frame object f : Ref} {s t u : Session}
      (ho : (eval .operand receiver frame >>=
        requireObject eval ("cannot call method '" ++ name ++ "'")).runIn s = (.ok object, t))
      (hf : (requireMethod eval object name).runIn t = (.ok f, u)) :
      Prepares ⟨.callMethod receiver name arguments line, frame, s⟩ f (.object object) arguments u

/-- The call that a visit makes, after all arguments have been evaluated, if it has the levels. -/
inductive Invokes (v : Visit) : Invocation → Prop
  | intro {f : Ref} {receiver : Value} {arguments : List Node} {values : List Value}
      {s t : Session} (hp : Prepares eval v f receiver arguments s)
      (ha : (runArguments eval arguments v.frame).runIn s = (.ok values, t))
      (hroom : eval.admits t.store f = true) : Invokes v ⟨f, receiver, values, t⟩

/-- The visits that a visit is made of. -/
inductive Part : Visit → Role → Visit → Prop
  | first {v : Visit} {n : Node} (h : v.node.first? = some n) :
      Part v .operand ⟨n, v.frame, v.session⟩
  | statement {done rest : List Node} {n : Node} {line : Int} {frame : Ref} {s t : Session}
      (h : (runStatements eval done frame).runIn s = (.ok (), t)) :
      Part ⟨.block (done ++ n :: rest) line, frame, s⟩ .statement ⟨n, frame, t⟩
  | argument {v : Visit} {f : Ref} {receiver : Value} {done rest : List Node} {n : Node}
      {values : List Value} {s t : Session}
      (hp : Prepares eval v f receiver (done ++ n :: rest) s)
      (h : (runArguments eval done v.frame).runIn s = (.ok values, t)) :
      Part v .argument ⟨n, v.frame, t⟩
  | body {v : Visit} {i : Invocation} {parameters : List String} {body : Node} {home : Ref}
      (hi : Invokes eval v i) (he : i.Enters parameters body home) :
      Part v .body
        ⟨body, i.session.store.fresh, i.session.enter home (i.names parameters)⟩
  | assigned {name : String} {value : Node} {declares : Bool} {line : Int} {frame : Ref}
      {s t : Session} (h : (requireUndefined eval declares frame name).runIn s = (.ok (), t)) :
      Part ⟨.assign name value declares line, frame, s⟩ .operand ⟨value, frame, t⟩
  | chosen {condition consequence alternative : Node} {line : Int} {frame : Ref} {b : Bool}
      {s t : Session}
      (h : (eval .operand condition frame >>= requireBoolean eval).runIn s = (.ok b, t)) :
      Part ⟨.branch condition consequence alternative line, frame, s⟩ .operand
        ⟨if b then consequence else alternative, frame, t⟩
  | entry {done rest : List (String × Node)} {key : String} {n : Node} {line : Int} {frame : Ref}
      {s t : Session}
      (h : (runEntries eval done s.store.fresh frame).runIn (s.add (.record none)) = (.ok (), t)) :
      Part ⟨.record (done ++ (key, n) :: rest) line, frame, s⟩ .operand ⟨n, frame, t⟩
  | fieldValue {receiver value : Node} {name : String} {line : Int} {frame object : Ref}
      {s t : Session}
      (h : (eval .operand receiver frame >>=
        requireObject eval ("cannot assign field '" ++ name ++ "'")).runIn s = (.ok object, t)) :
      Part ⟨.assignField receiver name value line, frame, s⟩ .operand ⟨value, frame, t⟩

/-- The sessions in which a visit has made an object and is still filling it. -/
inductive Passes : Visit → Session → Prop
  | function {name : Option String} {parameters : List String} {body : Node} {line : Int}
      {frame : Ref} {s : Session} :
      Passes ⟨.function name parameters body line, frame, s⟩
        (s.add (.function (name.getD anonymousName) (.closure parameters body frame)))
  | record {done rest : List (String × Node)} {line : Int} {frame : Ref} {s t : Session}
      (h : (runEntries eval done s.store.fresh frame).runIn (s.add (.record none)) = (.ok (), t)) :
      Passes ⟨.record (done ++ rest) line, frame, s⟩ t
  | frame {v : Visit} {i : Invocation} {parameters : List String} {body : Node} {home : Ref}
      {names : List (String × Value)} (hi : Invokes eval v i) (he : i.Enters parameters body home)
      (hn : names <+: i.names parameters) : Passes v (i.session.enter home names)

end

/-! ### No part is missing -/

namespace Eval

variable {α β : Type} {s : Session}

/-- What comes behind an evaluation that has a result. -/
theorem runIn_bind_of_ok {e : Eval α} {a : α} {t : Session} (h : e.runIn s = (.ok a, t))
    (f : α → Eval β) : (e >>= f).runIn s = (f a).runIn t := by
  rw [runIn_bind, h]

/-- Two evaluations in sequence, of which the second must agree where it is reached. -/
theorem runIn_bind_congr {e e' : Eval α} {f f' : α → Eval β} (he : e.runIn s = e'.runIn s)
    (hf : ∀ a t, e.runIn s = (.ok a, t) → (f a).runIn t = (f' a).runIn t) :
    (e >>= f).runIn s = (e' >>= f').runIn s := by
  rw [runIn_bind, runIn_bind, ← he]
  rcases h : e.runIn s with ⟨_ | a, t⟩
  · rfl
  · exact hf a t h

/-- Rows of evaluations agree if each agrees where it is reached. -/
theorem runIn_mapM_congr {f f' : α → Eval β} {as : List α}
    (h : ∀ done a rest bs t, as = done ++ a :: rest → (done.mapM f).runIn s = (.ok bs, t) →
      (f a).runIn t = (f' a).runIn t) :
    (as.mapM f).runIn s = (as.mapM f').runIn s := by
  induction as generalizing s with
  | nil => rfl
  | cons a rest ih =>
      rw [List.mapM_cons, List.mapM_cons]
      refine runIn_bind_congr (h [] a rest [] s rfl rfl) fun b t hb => ?_
      refine runIn_bind_congr (ih fun done a' rest' bs u hrest hdone => ?_) fun _ _ _ => rfl
      refine h (a :: done) a' rest' (b :: bs) u (by rw [hrest]; rfl) ?_
      rw [List.mapM_cons, runIn_bind_of_ok hb, runIn_bind_of_ok hdone]
      rfl

/-- So do rows without results. -/
theorem runIn_forM_congr {f f' : α → Eval Unit} {as : List α}
    (h : ∀ done a rest t, as = done ++ a :: rest → (done.forM f).runIn s = (.ok (), t) →
      (f a).runIn t = (f' a).runIn t) :
    (as.forM f).runIn s = (as.forM f').runIn s := by
  induction as generalizing s with
  | nil => rfl
  | cons a rest ih =>
      show (f a >>= fun _ => rest.forM f).runIn s = (f' a >>= fun _ => rest.forM f').runIn s
      refine runIn_bind_congr (h [] a rest s rfl rfl) fun b t hb => ?_
      refine ih fun done a' rest' u hrest hdone => ?_
      refine h (a :: done) a' rest' u (by rw [hrest]; rfl) ?_
      show (f a >>= fun _ => done.forM f).runIn s = _
      rw [runIn_bind_of_ok hb, hdone]

/-- So does the evaluation of a body. -/
theorem runIn_catchReturn_congr {e e' : Eval Value} (h : e.runIn s = e'.runIn s) :
    (catchReturn e).runIn s = (catchReturn e').runIn s := by
  rw [catchReturn, catchReturn, runIn_tryCatch, runIn_tryCatch, h]

end Eval

section

variable {eval : Evaluator} {run : Role → Node → Ref → Eval Value}

/-- How a call ends depends on the body that it enters. -/
theorem call_congr (i : Invocation)
    (h : ∀ parameters body home, i.Enters parameters body home →
      (eval .body body i.session.store.fresh).runIn (i.session.enter home (i.names parameters)) =
        (run .body body i.session.store.fresh).runIn (i.session.enter home (i.names parameters))) :
    (call eval i.function i.receiver i.arguments).runIn i.session =
      (call { eval with run := run } i.function i.receiver i.arguments).runIn i.session := by
  refine Eval.runIn_bind_congr rfl fun store t hs => ?_
  obtain ⟨rfl, rfl⟩ : store = i.session.store ∧ t = i.session := by cases hs; exact ⟨rfl, rfl⟩
  rcases ho : i.session.store.object? i.function with _ | ⟨name, parent, _ | a, entries⟩
  · rfl
  · rfl
  cases a with
  | builtin | constant => rfl
  | closure parameters body home =>
      dsimp only
      split
      next hlength =>
        refine Eval.runIn_catchReturn_congr (h parameters body home ⟨?_, hlength⟩)
        rw [Store.action?, ho]
        rfl
      next => rfl

/-- How a call by a rule ends depends on its arguments and on the body that it enters. -/
theorem invoke_congr {v : Visit} {f : Ref} {receiver : Value} {arguments : List Node} {s : Session}
    (hp : Prepares eval v f receiver arguments s)
    (h : ∀ role w, Part eval v role w →
      (eval role w.node w.frame).runIn w.session = (run role w.node w.frame).runIn w.session) :
    (runArguments eval arguments v.frame >>= invoke eval f receiver).runIn s =
      (runArguments { eval with run := run } arguments v.frame >>=
        invoke { eval with run := run } f receiver).runIn s := by
  refine Eval.runIn_bind_congr ?_ fun values t ha => ?_
  · refine Eval.runIn_mapM_congr fun done n rest values t harguments hdone => ?_
    subst harguments
    exact h .argument ⟨n, v.frame, t⟩ (.argument hp hdone)
  refine Eval.runIn_bind_congr rfl fun store u hs => ?_
  obtain ⟨rfl, rfl⟩ : store = t.store ∧ u = t := by cases hs; exact ⟨rfl, rfl⟩
  show (if eval.admits u.store f then _ else _ : Eval Value).runIn u =
    (if eval.admits u.store f then _ else _ : Eval Value).runIn u
  split
  next hroom =>
    exact call_congr ⟨f, receiver, values, u⟩ fun _ _ _ he =>
      h .body _ (.body (.intro hp ha hroom) he)
  next => rfl

/-- How a visit ends depends on its parts alone. -/
theorem evaluateWith_congr (v : Visit)
    (h : ∀ role w, Part eval v role w →
      (eval role w.node w.frame).runIn w.session = (run role w.node w.frame).runIn w.session) :
    (evaluateWith eval v.node v.frame).runIn v.session =
      (evaluateWith { eval with run := run } v.node v.frame).runIn v.session := by
  have first : ∀ n, v.node.first? = some n → (eval .operand n v.frame).runIn v.session =
      (run .operand n v.frame).runIn v.session := fun n hn => h .operand _ (.first hn)
  obtain ⟨node, frame, s⟩ := v
  cases node with
  | literal | name | function => rfl
  | block statements line =>
      refine Eval.runIn_bind_congr ?_ fun _ _ _ => rfl
      refine Eval.runIn_forM_congr fun done n rest t hstatements hdone => ?_
      subst hstatements
      exact Eval.runIn_bind_congr (h .statement ⟨n, frame, t⟩ (.statement hdone)) fun _ _ _ => rfl
  | call callee arguments line =>
      refine Eval.runIn_bind_congr (first callee rfl) fun w t hw => ?_
      refine Eval.runIn_bind_congr rfl fun f u hf => ?_
      have hprepared := (Eval.runIn_bind_of_ok hw _).trans hf
      exact invoke_congr (.call hprepared) h
  | assign name value declares line =>
      refine Eval.runIn_bind_congr rfl fun _ t ht => ?_
      exact Eval.runIn_bind_congr (h .operand ⟨value, frame, t⟩ (.assigned ht)) fun _ _ _ => rfl
  | giveBack value line => exact Eval.runIn_bind_congr (first value rfl) fun _ _ _ => rfl
  | branch condition consequence alternative line =>
      refine Eval.runIn_bind_congr (first condition rfl) fun w t hw => ?_
      refine Eval.runIn_bind_congr rfl fun b u hb => ?_
      have hchosen := h .operand _ (.chosen ((Eval.runIn_bind_of_ok hw _).trans hb))
      cases b with
      | true => exact hchosen
      | false => exact hchosen
  | record entries line =>
      refine Eval.runIn_bind_congr rfl fun object t ht => ?_
      refine Eval.runIn_bind_congr ?_ fun _ _ _ => rfl
      cases ht
      refine Eval.runIn_forM_congr fun done e rest t hentries hdone => ?_
      subst hentries
      exact Eval.runIn_bind_congr (h .operand ⟨e.2, frame, t⟩ (.entry hdone)) fun _ _ _ => rfl
  | field receiver name line => exact Eval.runIn_bind_congr (first receiver rfl) fun _ _ _ => rfl
  | assignField receiver name value line =>
      refine Eval.runIn_bind_congr (first receiver rfl) fun w t hw => ?_
      refine Eval.runIn_bind_congr rfl fun object u ho => ?_
      have hrequired := (Eval.runIn_bind_of_ok hw _).trans ho
      exact Eval.runIn_bind_congr (h .operand _ (.fieldValue hrequired)) fun _ _ _ => rfl
  | callMethod receiver name arguments line =>
      refine Eval.runIn_bind_congr (first receiver rfl) fun w t hw => ?_
      refine Eval.runIn_bind_congr rfl fun object u ho => ?_
      refine Eval.runIn_bind_congr rfl fun f u' hf => ?_
      have hrequired := (Eval.runIn_bind_of_ok hw _).trans ho
      exact invoke_congr (.callMethod hrequired hf) h

end

/-! ### Moments -/

/-- Something that happens in a run. -/
inductive Moment
  /-- A visit begins. -/
  | begins (visit : Visit)
  /-- A visit ends, with a result and in a session. -/
  | ends (visit : Visit) (result : Except Exit Value) (session : Session)
  /-- A function is called. -/
  | calls (invocation : Invocation)
  /-- An object is being filled. -/
  | passes (session : Session)

namespace Moment

/-- What was done up to a moment. -/
def session : Moment → Session
  | begins v => v.session
  | ends _ _ s | passes s => s
  | calls i => i.session

/-- The objects at a moment. -/
def store (m : Moment) : Store := m.session.store

/-- The values that are handed over at a moment: to the visit around one that ends, also by a
`return`, or to a function that is called. -/
def values : Moment → List Value
  | ends _ (.ok v) _ | ends _ (.error (.returned v)) _ => [v]
  | calls i => .object i.function :: i.receiver :: i.arguments
  | begins _ | ends .. | passes _ => []

end Moment

/-- What happens in a visit and inside it, when evaluations nest no deeper than `levels` and the
first `gap` of these are left out. -/
inductive Reaches (stack : Stack) : (levels gap : Nat) → Visit → Moment → Prop
  | begins {levels gap : Nat} {v : Visit} : Reaches stack levels gap v (.begins v)
  | ends {levels gap : Nat} {v : Visit} {result : Except Exit Value} {s : Session}
      (h : (evaluateSpaced stack levels gap v.node v.frame).runIn v.session = (result, s)) :
      Reaches stack levels gap v (.ends v result s)
  | skip {levels gap : Nat} {v : Visit} {m : Moment} (h : Reaches stack levels gap v m) :
      Reaches stack (levels + 1) (gap + 1) v m
  | calls {levels : Nat} {v : Visit} {i : Invocation} (hrule : stack.rule v.node.kind ≤ levels)
      (h : Invokes (evaluateParts stack levels) v i) : Reaches stack (levels + 1) 0 v (.calls i)
  | passes {levels : Nat} {v : Visit} {s : Session} (hrule : stack.rule v.node.kind ≤ levels)
      (h : Passes (evaluateParts stack levels) v s) : Reaches stack (levels + 1) 0 v (.passes s)
  | part {levels : Nat} {v w : Visit} {role : Role} {m : Moment}
      (hrule : stack.rule v.node.kind ≤ levels) (hp : Part (evaluateParts stack levels) v role w)
      (h : Reaches stack levels (stack.part role) w m) : Reaches stack (levels + 1) 0 v m

/-- The evaluation of a program in a new global frame. -/
def Visit.start (program : Node) : Visit :=
  ⟨program, Store.empty.fresh,
    ⟨Store.empty.addGlobal, "", #[.started program.statements.length]⟩⟩

/-- The session in which a program begins that is run in `s`. -/
def Session.started (s : Session) (program : Node) : Session :=
  ⟨s.store.addGlobal, s.output, s.events.push (.started program.statements.length)⟩

/-- A run of a program is its evaluation in a new global frame, in which a `return` is a mistake.
Where nothing has been done before, that is the visit `Visit.start`. -/
theorem runIn_inOwnGlobal (stack : Stack) (levels : Nat) (program : Node) (s : Session) :
    (inOwnGlobal stack levels program).runIn s =
      (do discard (Eval.refuseReturn (evaluate stack levels program s.store.fresh))
          Eval.note .finished : Eval Unit).runIn (s.started program) := rfl

end Scriptlet
