import Scriptlet.Eval.Operation
import Scriptlet.Eval.Session
import Scriptlet.Eval.Stack

/-!
# Evaluation

`evaluate` gives the value of a node in a frame. How the value of a node comes from the values
of its parts is `evaluateWith`, which is handed an `Evaluator` for the parts and does not recur;
`evaluateSpaced` ties the knot. Nesting is measured in levels, on any `Stack`. Levels are not a
cost of evaluation: they only bound how deep evaluations, calls and texts may nest, and whatever
would take more of them than are left is cut off at once.

## Rules

* A declaration minds that the name reads as `undefined`, and then sets it in the current
  frame; so does an assignment, without minding.
* A function remembers the frame it is made in. A named function is also set under its name
  in that frame.
* A call runs the body in a new frame, in which `this` is the receiver. A call of a method
  has the object as receiver, any other call has none.
* Reading a field of a value that is not an object gives that value; setting one is a
  mistake. Setting a field gives the node of the receiver.
* A condition is the integer one or zero.

## Main definitions

* `Evaluator`: what a rule evaluates the parts of its node with.
* `call`, `invoke`: a call of an object, and one that needs levels.
* `evaluateWith`, `evaluateSpaced`, `evaluate`: the value of a node.
* `inOwnGlobal`: a program in a global frame of its own.

## Main results

* `evaluateSpaced_eq_sub`: leaving levels out takes as many away, and changes nothing else.
-/

namespace Scriptlet

/-- The name of a function that is given none. -/
def anonymousName : String := "lambda"

/-- What a rule evaluates the parts of its node with. -/
structure Evaluator where
  /-- What everything takes. -/
  stack : Stack
  /-- The levels that are left below the node. -/
  levels : Nat
  /-- The value of a part in a frame, in its role. -/
  run : Role → Node → Ref → Eval Value

instance : CoeFun Evaluator fun _ => Role → Node → Ref → Eval Value := ⟨Evaluator.run⟩

namespace Evaluator

/-- Leaves with a mistake, if there are levels left to make it. -/
def mistake {α : Type} (eval : Evaluator) (m : Mistake) : Eval α := do
  Eval.reserve eval.levels (eval.stack.mistake m)
  Eval.mistake m

/-- A value as an error message shows it. -/
def shown (eval : Evaluator) (purpose : Purpose) (v : Value) : Eval String :=
  Eval.shown eval.stack.text (eval.levels - eval.stack.above purpose) v

/-- Whether there are levels left to call an object. A built-in function minds them itself. -/
def admits (eval : Evaluator) (s : Store) (f : Ref) : Bool :=
  match s.action? f with
  | some (.builtin _) => true
  | _ => eval.stack.enter ≤ eval.levels

end Evaluator

/-- Notes a call of `print`, where such calls are noted. One that cannot be described, because an
integer is too long, is not noted. -/
def notePrinting (stack : Stack) (levels : Nat) (arguments : List Value) : Eval Unit :=
  if stack.traced then do
    Eval.reserve levels (stack.above .record)
    match arguments.mapM ((← Eval.store).describe stack.text (levels - stack.above .record)) with
    | .ok described => Eval.note (.printing described)
    | .error .oversized => return
    | .error .tooDeep => throw .tooDeep
  else pure ()

/-- Writes values on a line. -/
def printLine (stack : Stack) (levels : Nat) (arguments : List Value) : Eval Value := do
  let store ← Eval.store
  let printed ← arguments.mapM fun v =>
    Eval.written (store.printed stack.text (levels - stack.above .print) v)
  Eval.write (" ".intercalate printed ++ "\n")
  return .undefined

/-- Computes a built-in function, when there are `levels` left. -/
def Builtin.apply (stack : Stack) (levels : Nat) : Builtin → List Value → Eval Value
  | .print, arguments => do
    Eval.reserve levels stack.print
    notePrinting stack levels arguments
    printLine stack levels arguments
  | .operator op, arguments => do
    let result := op.applyTo arguments
    Eval.reserve levels (stack.operation op arguments result)
    match result with
    | .ok v => return v
    | .error f => Eval.fault f

/-- A call of an object. -/
def call (eval : Evaluator) (f : Ref) (receiver : Value) (arguments : List Value) :
    Eval Value := do
  match (← Eval.store).object? f with
  | some { name, action := some action, .. } =>
    match action with
    | .closure parameters body home =>
      if arguments.length = parameters.length then
        let frame ← Eval.add (.frame home)
        Eval.put frame "this" receiver
        Eval.putAll frame (parameters.zip arguments)
        Eval.catchReturn (eval .body body frame)
      else Eval.mistake (.argumentCount name parameters.length arguments.length)
    | .builtin b => b.apply eval.stack eval.levels arguments
    | .constant v => return v
  | _ => eval.mistake (.notAFunction (← eval.shown .callee (.object f)))

/-- A call of an object by a rule, for which there must be levels left. -/
def invoke (eval : Evaluator) (f : Ref) (receiver : Value) (arguments : List Value) :
    Eval Value := do
  if eval.admits (← Eval.store) f then call eval f receiver arguments else throw .tooDeep

/-- The object a value is, which is needed for the given purpose. -/
def requireObject (eval : Evaluator) (purpose : String) : Value → Eval Ref
  | .object r => return r
  | v => do eval.mistake (.notAnObject (← eval.shown .receiver v) purpose)

/-- The function a value is. -/
def requireFunction (eval : Evaluator) (v : Value) : Eval Ref := do
  match v with
  | .object r =>
    match (← Eval.store).action? r with
    | some _ => return r
    | none => eval.mistake (.notAFunction (← eval.shown .callee v))
  | _ => eval.mistake (.notAFunction (← eval.shown .callee v))

/-- The function that an object has as the method of a name. -/
def requireMethod (eval : Evaluator) (object : Ref) (name : String) : Eval Ref := do
  match ← Eval.read object name with
  | .undefined => eval.mistake (.noMethod (← eval.shown .method (.object object)) name)
  | .object r =>
    match (← Eval.store).action? r with
    | some _ => return r
    | none => eval.mistake (.notAMethod name)
  | _ => eval.mistake (.notAMethod name)

/-- The truth value that a condition is. -/
def requireBoolean (eval : Evaluator) (v : Value) : Eval Bool := do
  match v with
  | .integer 1 => return true
  | .integer 0 => return false
  | _ => eval.mistake (.notABoolean (← eval.shown .condition v))

/-- Minds, for a declaration, that a name reads as `undefined`. -/
def requireUndefined (eval : Evaluator) (declares : Bool) (frame : Ref) (name : String) :
    Eval Unit := do
  match declares, ← Eval.read frame name with
  | false, _ => return
  | true, .undefined => return
  | true, _ => eval.mistake (.alreadyDefined name)

/-- The value of a node in a frame, when `eval` gives the values of its parts and runs the
bodies of functions, each in its role. -/
def evaluateWith (eval : Evaluator) (node : Node) (frame : Ref) : Eval Value :=
  match node with
  | .block statements _ => do
    statements.forM fun n => discard (eval .statement n frame)
    return .undefined
  | .literal v _ _ => return v
  | .call callee arguments _ => do
    let f ← requireFunction eval (← eval .operand callee frame)
    let arguments ← arguments.mapM fun n => eval .argument n frame
    invoke eval f .undefined arguments
  | .name name _ => Eval.read frame name
  | .assign name value declares _ => do
    requireUndefined eval declares frame name
    Eval.put frame name (← eval .operand value frame)
    return .undefined
  | .function name parameters body _ => do
    let action := Action.closure parameters body frame
    let f ← Eval.add (.function (name.getD anonymousName) action)
    Eval.putAll frame (name.toList.map fun name => (name, .object f))
    return .object f
  | .giveBack value _ => do throw (.returned (← eval .operand value frame))
  | .branch condition consequence alternative _ => do
    if ← requireBoolean eval (← eval .operand condition frame) then eval .operand consequence frame
    else eval .operand alternative frame
  | .record entries _ => do
    let object ← Eval.add (.record none)
    entries.forM fun (key, n) => do Eval.put object key (← eval .operand n frame)
    Eval.put object "this" (.object object)
    return .object object
  | .field receiver name _ => do
    match ← eval .operand receiver frame with
    | .object r => Eval.read r name
    | v => return v
  | .assignField receiver name value _ => do
    let v ← eval .operand receiver frame
    let object ← requireObject eval ("cannot assign field '" ++ name ++ "'") v
    Eval.put object name (← eval .operand value frame)
    return .node receiver
  | .callMethod receiver name arguments _ => do
    let v ← eval .operand receiver frame
    let object ← requireObject eval ("cannot call method '" ++ name ++ "'") v
    let f ← requireMethod eval object name
    let arguments ← arguments.mapM fun n => eval .argument n frame
    invoke eval f (.object object) arguments

/-- The value of a node in a frame, when evaluations nest no deeper than `levels` and the first
`gap` of these are left out. The evaluation takes one level, and its rule needs more. A mistake
takes the line of the innermost node around it that has one. -/
def evaluateSpaced (stack : Stack) : (levels gap : Nat) → Node → Ref → Eval Value
  | 0, _, _, _ => throw .tooDeep
  | levels + 1, gap + 1, node, frame => evaluateSpaced stack levels gap node frame
  | levels + 1, 0, node, frame =>
    if stack.rule node.kind ≤ levels then
      Eval.onLine node.line
        (evaluateWith ⟨stack, levels, fun role => evaluateSpaced stack levels (stack.part role)⟩
          node frame)
    else throw .tooDeep

/-- The evaluation of the parts of a node that has `levels` below it. -/
def evaluateParts (stack : Stack) (levels : Nat) : Evaluator where
  stack := stack
  levels := levels
  run role := evaluateSpaced stack levels (stack.part role)

/-- Leaving levels out takes as many away, and changes nothing else. -/
theorem evaluateSpaced_eq_sub (stack : Stack) (levels gap : Nat) (node : Node) (frame : Ref) :
    evaluateSpaced stack levels gap node frame =
      evaluateSpaced stack (levels - gap) 0 node frame := by
  induction levels generalizing gap with
  | zero =>
      rw [Nat.zero_sub]
      rfl
  | succ levels ih =>
      cases gap with
      | zero => rfl
      | succ gap =>
          rw [Nat.add_sub_add_right]
          exact ih gap

/-- The value of a node in a frame, when evaluations nest no deeper than `levels`. -/
def evaluate (stack : Stack) (levels : Nat) : Node → Ref → Eval Value :=
  evaluateSpaced stack levels 0

/-- Makes a global frame. -/
def openGlobal : Eval Ref := do
  let s ← get
  set { s with store := s.store.addGlobal }
  return s.store.fresh

/-- The statements of a block. -/
def Node.statements : Node → List Node
  | .block statements _ => statements
  | _ => []

/-- Runs a program in a new global frame. -/
def inOwnGlobal (stack : Stack) (levels : Nat) (program : Node) : Eval Unit := do
  let frame ← openGlobal
  Eval.note (.started program.statements.length)
  discard (Eval.refuseReturn (evaluate stack levels program frame))
  Eval.note .finished

end Scriptlet
