import Scriptlet.Eval.Exit
import Scriptlet.Store.Display

/-!
# Sessions

A session is what evaluations leave behind: the objects they made, the text they printed, and
the events that a trace would show. An `Eval` is an evaluation in a session. However it ends,
what it did to the session stays done.

## Main results

* `Eval.runIn_bind`: the second of two evaluations starts where the first has ended, and does
  not start if the first has left early.
* `Eval.runIn_tryCatch`: what is caught is caught in the session at that moment.
-/

namespace Scriptlet

/-- A step of an evaluation that a trace shows. -/
inductive Event
  /-- A program of some statements begins. -/
  | started (statements : Nat)
  /-- `print` is called with arguments, which are described. -/
  | printing (arguments : List String)
  /-- A program has ended without an error. -/
  | finished
deriving DecidableEq, Repr

/-- What evaluations have done so far. -/
structure Session where
  /-- The objects. -/
  store : Store
  /-- The text that was printed. -/
  output : String
  /-- The events, in order. -/
  events : Array Event

/-- The session in which nothing has been done. -/
def Session.empty : Session := ⟨.empty, "", #[]⟩

/-- An evaluation. It ends with a result or leaves early, and changes the session. -/
abbrev Eval := ExceptT Exit (StateM Session)

namespace Eval

/-- Runs an evaluation in a session. -/
def runIn {α : Type} (e : Eval α) (s : Session) : Except Exit α × Session :=
  StateT.run (ExceptT.run e) s

/-- The objects at this moment. -/
def store : Eval Store := do return (← get).store

/-- Makes an object. -/
def add (o : Object) : Eval Ref := do
  let s ← get
  set { s with store := s.store.add o }
  return s.store.fresh

/-- Sets names in an object, one after another. -/
def putAll (r : Ref) (pairs : List (String × Value)) : Eval Unit :=
  modify fun s => { s with store := s.store.putAll r pairs }

/-- Sets a name in an object. -/
def put (r : Ref) (name : String) (v : Value) : Eval Unit :=
  putAll r [(name, v)]

/-- What a name reads as, from an object. -/
def read (r : Ref) (name : String) : Eval Value := do return (← store).read r name

/-- Prints a text. -/
def write (text : String) : Eval Unit :=
  modify fun s => { s with output := s.output ++ text }

/-- Notes an event. -/
def note (e : Event) : Eval Unit :=
  modify fun s => { s with events := s.events.push e }

/-- Leaves with a mistake, whose line is not known yet. -/
def mistake {α : Type} (m : Mistake) : Eval α := throw (.mistake m none)

/-- Leaves with a fault. -/
def fault {α : Type} (f : Fault) : Eval α := throw (.fault f)

/-- Goes on if there are `need` levels left. -/
def reserve (levels need : Nat) : Eval Unit :=
  if need ≤ levels then pure () else throw .tooDeep

/-- A text that there may be none of. -/
def written (text : Except NoText String) : Eval String :=
  match text with
  | .ok text => pure text
  | .error .oversized => fault .oversizedNumeral
  | .error .tooDeep => throw .tooDeep

/-- A value as error messages show it. -/
def shown (depth : TextDepth) (levels : Nat) (v : Value) : Eval String := do
  written ((← store).display depth levels v)

/-- The evaluation of something on a line, zero if none is known: a mistake that has no line
gets this one. -/
def onLine {α : Type} (line : Int) (e : Eval α) : Eval α :=
  tryCatch e fun
    | .mistake m none => throw (.mistake m (if line = 0 then none else some line))
    | exit => throw exit

/-- The evaluation of a function's body: a `return` in it ends the call. -/
def catchReturn (e : Eval Value) : Eval Value :=
  tryCatch e fun
    | .returned v => pure v
    | exit => throw exit

/-- The evaluation of a program: a `return` in it is a mistake. -/
def refuseReturn (e : Eval Value) : Eval Value :=
  tryCatch e fun
    | .returned _ => mistake .strayReturn
    | exit => throw exit

/-! ### What evaluations do to a session -/

section

variable {α β : Type}

/-- A value that is there leaves the session as it is. -/
@[simp] theorem runIn_pure (a : α) (s : Session) : (pure a : Eval α).runIn s = (.ok a, s) := rfl

/-- The second of two evaluations starts where the first has ended, if that has a result. -/
theorem runIn_bind (e : Eval α) (f : α → Eval β) (s : Session) :
    (e >>= f).runIn s = match e.runIn s with
      | (.ok a, t) => (f a).runIn t
      | (.error x, t) => (.error x, t) := by
  unfold runIn
  rcases h : (ExceptT.run e).run s with ⟨_ | _, t⟩ <;>
    simp only [ExceptT.run_bind, StateT.run_bind, h] <;> rfl

/-- So does an exit. -/
@[simp] theorem runIn_throw (x : Exit) (s : Session) :
    (throw x : Eval α).runIn s = (.error x, s) := rfl

/-- What is caught is caught in the session at that moment. -/
theorem runIn_tryCatch (e : Eval α) (h : Exit → Eval α) (s : Session) :
    (tryCatch e h).runIn s = match e.runIn s with
      | (.ok a, t) => (.ok a, t)
      | (.error x, t) => (h x).runIn t := by
  show StateT.run (ExceptT.run (ExceptT.tryCatch e h)) s = _
  rw [ExceptT.tryCatch, ExceptT.run_mk, StateT.run_bind]
  unfold runIn ExceptT.run
  rcases StateT.run e s with ⟨_ | _, t⟩ <;> rfl

/-- Without its result, an evaluation does the same. -/
theorem runIn_discard (e : Eval α) (s : Session) :
    (discard e).runIn s = ((e.runIn s).1.map fun _ => (), (e.runIn s).2) := by
  show (e >>= fun _ => pure ()).runIn s = _
  rw [runIn_bind]
  rcases e.runIn s with ⟨x | a, t⟩
  · rfl
  · rfl

/-! The single steps. -/

/-- Looking at the objects changes nothing. -/
@[simp] theorem runIn_store (s : Session) : store.runIn s = (.ok s.store, s) := rfl

/-- A new object is found where none was. -/
@[simp] theorem runIn_add (o : Object) (s : Session) :
    (add o).runIn s = (.ok s.store.fresh, { s with store := s.store.add o }) := rfl

/-- Setting a name has no result. -/
@[simp] theorem runIn_put (r : Ref) (name : String) (v : Value) (s : Session) :
    (put r name v).runIn s = (.ok (), { s with store := s.store.put r name v }) := rfl

/-- Nor has setting several. -/
@[simp] theorem runIn_putAll (r : Ref) (pairs : List (String × Value)) (s : Session) :
    (putAll r pairs).runIn s = (.ok (), { s with store := s.store.putAll r pairs }) := rfl

/-- Reading a name changes nothing. -/
@[simp] theorem runIn_read (r : Ref) (name : String) (s : Session) :
    (read r name).runIn s = (.ok (s.store.read r name), s) := rfl

/-- What is printed comes after what was. -/
@[simp] theorem runIn_write (text : String) (s : Session) :
    (write text).runIn s = (.ok (), { s with output := s.output ++ text }) := rfl

/-- What is noted comes after what was. -/
@[simp] theorem runIn_note (e : Event) (s : Session) :
    (note e).runIn s = (.ok (), { s with events := s.events.push e }) := rfl

end

end Eval

end Scriptlet
