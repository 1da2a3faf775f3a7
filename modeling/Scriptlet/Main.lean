import Scriptlet.CommandLine.Response

/-!
# The Program

Reads what a command line needs, answers it (`Scriptlet.CommandLine.respond`), and writes the
answer. Standard input is read only if the source is a hyphen.
-/

namespace Scriptlet.CommandLine

/-- What stands at a path. A file that cannot be read counts as nothing. -/
def lookAt (path : String) : IO Finding := do
  try
    return .file (← IO.FS.readFile (tidyPath path))
  catch
    | .inappropriateType none _ _ => return .directory
    | .invalidArgument .. => return if exceedsLimits (tidyPath path) then .tooLong else .nothing
    | _ => return .nothing

/-- What stands at each of some paths. -/
def lookAtAll (paths : List String) : IO (List (String × Finding)) :=
  paths.mapM fun path => do return (path, ← lookAt path)

/-- The paths that a request names. -/
def Request.paths (r : Request) : List String :=
  match r.grammar with
  | .file path => [r.source, path]
  | .standard | .dropped => [r.source]

/-- The program that a source is by a grammar. Only the built-in one is read: the parser of another
grammar is not part of the program. -/
def parseBy (grammar source : String) : Except NoProgram Node :=
  if grammar = builtInGrammar then Platform.standard.parse source
  else .error (.failed "NotImplementedError" "only the built-in grammar can be used")

theorem parseBy_builtIn : parseBy builtInGrammar = Platform.standard.parse :=
  funext fun _ => if_pos rfl

/-- What surrounds the command. -/
def surroundings (stdin : String) (find : String → Finding) : Surroundings :=
  ⟨stdin, find, .standard, parseBy, parseBy_builtIn⟩

/-- All of the standard input. -/
def readInput : IO String := do (← IO.getStdin).readToEnd

end Scriptlet.CommandLine

open Scriptlet.CommandLine

/-- Answers a command line. -/
def main (arguments : List String) : IO UInt32 := do
  let around ← match invocation arguments with
    | .request r => do
      let found ← lookAtAll r.paths
      let stdin ← if r.source = "-" then readInput else pure ""
      pure (surroundings stdin fun path => (found.lookup path).getD .nothing)
    | _ => pure (surroundings "" fun _ => .nothing)
  let response := respond arguments around
  IO.print response.stdout
  IO.eprint response.stderr
  match response.status with
  | .code n => return n.toUInt32
  | .message text =>
    IO.eprintln text
    return 1
  | .crash c =>
    IO.eprintln c.message
    return 1
