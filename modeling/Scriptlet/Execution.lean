import Scriptlet.Eval.Evaluate
import Scriptlet.Platform

/-!
# Executing a Source Text

`execute` makes a program of a source text and runs it in a session of its own. The report
holds what was printed, however the run ended.

## Main definitions

* `Ending`, `Report`: how a run ends, and what it has done.
* `execute`, `executeProgram`: runs of texts and of programs.
-/

namespace Scriptlet

/-- How executing a text ends. -/
inductive Ending
  /-- The program ran to its end. -/
  | finished
  /-- The text is no program. -/
  | refused (e : Source.SourceError)
  /-- The text is no program by another grammar, which reports this. -/
  | rejected (report : String)
  /-- Another grammar cannot be used on the text: an error of some kind. -/
  | failed (kind message : String)
  /-- The script made a mistake, on the line if it is known. -/
  | mistaken (m : Mistake) (line : Option Int)
  /-- An operation met a fault. -/
  | faulted (f : Fault)
  /-- The program nests too deeply. -/
  | tooDeep
deriving DecidableEq, Repr

namespace Ending

/-- How executing a text ends of which no program is made. -/
def ofNoProgram : NoProgram → Ending
  | .refused e => refused e
  | .rejected report => rejected report
  | .failed kind message => failed kind message
  | .tooDeep => tooDeep

/-- How a program ends that its evaluation leaves early. -/
def ofExit : Exit → Ending
  | .returned _ => mistaken .strayReturn none
  | .mistake m line => mistaken m line
  | .fault f => faulted f
  | .tooDeep => tooDeep

/-- How a program ends whose evaluation has such a result. -/
def ofResult : Except Exit Value → Ending
  | .ok _ => finished
  | .error x => ofExit x

end Ending

/-- What executing a text has done. -/
structure Report where
  /-- The text that was printed. -/
  output : String
  /-- The events, in order. -/
  events : List Event
  /-- How the run ended. -/
  ending : Ending
deriving DecidableEq, Repr

/-- Runs a program in a session of its own. -/
def executeProgram (on : Platform) (program : Node) : Report :=
  let (result, session) := (inOwnGlobal on.stack on.limit program).runIn .empty
  let ending := match result with
    | .ok _ => .finished
    | .error exit => .ofExit exit
  ⟨session.output, session.events.toList, ending⟩

/-- Runs the program that a text is, if it is one. -/
def executeParsed (on : Platform) : Except NoProgram Node → Report
  | .error why => ⟨"", [], .ofNoProgram why⟩
  | .ok program => executeProgram on program

/-- Executes a source text. -/
def execute (on : Platform) (source : String) : Report := executeParsed on (on.parse source)

/-! ### What a report says -/

section

variable {on : Platform} {source : String}

/-- What a program prints is the output of its session. -/
theorem output_executeProgram (on : Platform) (program : Node) :
    (executeProgram on program).output =
      ((inOwnGlobal on.stack on.limit program).runIn .empty).2.output := rfl

/-- How a program ends, from what its run comes to. -/
theorem ending_executeProgram (on : Platform) (program : Node) :
    (executeProgram on program).ending =
      match ((inOwnGlobal on.stack on.limit program).runIn .empty).1 with
      | .ok _ => .finished
      | .error exit => .ofExit exit := rfl

/-- A program that is run ends as runs end. -/
theorem ending_executeProgram_cases (on : Platform) (program : Node) :
    (executeProgram on program).ending = .finished ∨
      ∃ exit, (executeProgram on program).ending = .ofExit exit := by
  rw [ending_executeProgram]
  cases ((inOwnGlobal on.stack on.limit program).runIn .empty).1 with
  | ok u => exact .inl rfl
  | error x => exact .inr ⟨x, rfl⟩

/-- Executing a text is running its program. -/
theorem execute_of_parse {program : Node} (h : on.parse source = .ok program) :
    execute on source = executeProgram on program := by
  rw [execute, h]
  rfl

/-- Where there is no program, nothing is done. -/
theorem execute_of_parse_eq_error {why : NoProgram} (h : on.parse source = .error why) :
    execute on source = ⟨"", [], .ofNoProgram why⟩ := by
  rw [execute, h]
  rfl

/-- A program that there is room to make is run. -/
theorem execute_of_lowers {program : Node} (h : Source.program source = .ok program)
    (hroom : on.lowers (Source.tokenTexts source) = true) :
    execute on source = executeProgram on program :=
  execute_of_parse (Platform.parse_eq_ok_iff.mpr ⟨h, hroom⟩)

/-- A program that there is no room to make is not. -/
theorem execute_of_not_lowers {program : Node} (h : Source.program source = .ok program)
    (hroom : on.lowers (Source.tokenTexts source) = false) :
    execute on source = ⟨"", [], .tooDeep⟩ := by
  have hparse : on.parse source = .error .tooDeep := by
    rw [Platform.parse, h, hroom]
    rfl
  exact execute_of_parse_eq_error hparse

/-- What is executed is a program, or else nothing is done. -/
theorem cases_of_execute (on : Platform) (source : String) :
    (∃ why, on.parse source = .error why ∧ execute on source = ⟨"", [], .ofNoProgram why⟩) ∨
      ∃ program, on.parse source = .ok program ∧ Source.program source = .ok program ∧
        execute on source = executeProgram on program := by
  cases h : on.parse source with
  | error why => exact .inl ⟨why, rfl, execute_of_parse_eq_error h⟩
  | ok program =>
      exact .inr ⟨program, rfl, (Platform.parse_eq_ok_iff.mp h).1, execute_of_parse h⟩

end

end Scriptlet
