import Scriptlet.CommandLine.Arguments
import Scriptlet.CommandLine.BuiltIn
import Scriptlet.CommandLine.Folder
import Scriptlet.Execution
import Scriptlet.Node.Outline

/-!
# What the Command Line Answers

`respond` gives the whole effect of a command line: the text on both output streams, and how
the command ends. The source argument is a hyphen for the standard input, the path of a file,
or else the source itself. It is read by the built-in grammar, or by that in the file of the
grammar switch. With `--ast` the outline of the program is written and nothing is run. With
`--trace` the events of the run come first on the error stream.

A text that is no program and a mistake in a script are reported as errors. Anything else
that goes wrong ends the command as it is, with what was written so far.

## Main results

* `Request.respond_of_source`: a source that is found is read by the grammar, and then shown or run.
-/

namespace Scriptlet.CommandLine

/-- How the program is called. -/
def usageLine : String :=
  "usage: smalljs [-h] [-g GRAMMAR] [--ast] [--trace] [source]\n"

/-- How the program is used. -/
def helpText : String :=
  usageLine ++
  "\nRun a smalljs script\n\n" ++
  "positional arguments:\n" ++
  "  source                Path to a script, literal source, or '-' for stdin\n\n" ++
  "options:\n" ++
  "  -h, --help            show this help message and exit\n" ++
  "  -g GRAMMAR, --grammar GRAMMAR\n" ++
  "                        Path to an alternative grammar.lark\n" ++
  "  --ast                 Print the lowered AST instead of running\n" ++
  "  --trace               Log evaluator and print tracing to stderr\n"

/-- What ends a command without a report. -/
inductive Crash
  /-- There is no grammar file at the path that is asked for. -/
  | grammarNotFound (path : String)
  /-- The path of the grammar file, in its shortest spelling, is that of a directory. -/
  | grammarIsDirectory (path : String)
  /-- The path of the grammar file, in its shortest spelling, is too long. -/
  | grammarPathTooLong (path : String)
  /-- The grammar switch has lost its value. -/
  | grammarDropped
  /-- The grammar that is asked for cannot be used on the text: an error of some kind. -/
  | grammarFailed (kind message : String)
  /-- An integer literal has too many digits. -/
  | oversizedInteger (digits : Nat)
  /-- An operation met a fault. -/
  | fault (f : Fault)
  /-- The program nests too deeply. -/
  | tooDeep
deriving DecidableEq, Repr

/-- A crash in words. -/
def Crash.message : Crash → String
  | grammarNotFound path => "grammar file not found: " ++ path
  | grammarIsDirectory path => "[Errno 21] Is a directory: " ++ Text.quote path
  | grammarPathTooLong path => "[Errno 36] File name too long: " ++ Text.quote path
  | grammarDropped => "unhashable type: 'list'"
  | grammarFailed _ message => message
  | oversizedInteger digits => (Source.SourceError.oversizedInteger digits).text
  | fault f => f.message
  | tooDeep => "nested too deeply"

/-- How a command ends. -/
inductive Status
  /-- With an exit code. -/
  | code (n : Nat)
  /-- With a message in place of one. -/
  | message (text : String)
  /-- Without a report. -/
  | crash (c : Crash)
deriving DecidableEq, Repr

/-- The effect of a command. -/
structure Response where
  /-- What is written to the output stream. -/
  stdout : String
  /-- What is written to the error stream. -/
  stderr : String
  /-- How the command ends. -/
  status : Status
deriving DecidableEq, Repr

/-- What surrounds a command. -/
structure Surroundings where
  /-- The standard input. -/
  stdin : String
  /-- What stands at a path. -/
  find : String → Finding
  /-- What a source is executed on. -/
  platform : Platform
  /-- The program that a source is by a grammar that is given as a text. -/
  parse : (grammar source : String) → Except NoProgram Node
  /-- By the built-in grammar it is what it is on the platform. -/
  parse_builtIn : parse builtInGrammar = platform.parse

/-- Surroundings in which every grammar is taken for the built-in one. -/
def Surroundings.builtInOnly (stdin : String) (find : String → Finding) (platform : Platform) :
    Surroundings :=
  ⟨stdin, find, platform, fun _ => platform.parse, rfl⟩

/-- A text with each carriage return, and each pair of it and a line feed, made a line
feed. -/
def unifyNewlines : List Char → List Char
  | [] => []
  | '\r' :: '\n' :: rest => '\n' :: unifyNewlines rest
  | '\r' :: rest => '\n' :: unifyNewlines rest
  | c :: rest => c :: unifyNewlines rest

/-- The text of a file, with its newlines made one. -/
def unified (content : String) : String := String.ofList (unifyNewlines content.toList)

/-- The source text that an argument stands for; none if the standard input is empty. -/
def Surroundings.source? (around : Surroundings) (argument : String) : Option String :=
  if argument = "-" then if around.stdin.isEmpty then none else some around.stdin
  else
    match around.find argument with
    | .file content => some (unified content)
    | _ => some argument

/-- How a source is read by the grammar that is asked for, if that is found. -/
def Surroundings.reader (around : Surroundings) :
    GrammarChoice → Except Crash ((source : String) → Except NoProgram Node)
  | .standard => .ok around.platform.parse
  | .dropped => .error .grammarDropped
  | .file path =>
    match around.find path with
    | .file content => .ok (around.parse (unified content))
    | .directory => .error (.grammarIsDirectory (tidyPath path))
    | .tooLong => .error (.grammarPathTooLong (tidyPath path))
    | .nothing => .error (.grammarNotFound path)

/-- A file that holds the built-in grammar is as good as none. -/
theorem Surroundings.reader_of_builtIn {around : Surroundings} {path content : String}
    (h : around.find path = .file content) (hcontent : unified content = builtInGrammar) :
    around.reader (.file path) = around.reader .standard := by
  rw [reader, reader, h]
  dsimp only
  rw [hcontent, around.parse_builtIn]

/-- The line that a trace shows for an event. -/
def traceLine : Event → String
  | .started n =>
    "smalljs.evaluator: interpreting " ++ toString n ++ " top-level instruction(s)\n"
  | .printing arguments =>
    "smalljs.stdlib: print called with [" ++ ", ".intercalate arguments ++ "]\n"
  | .finished => "smalljs.evaluator: script finished\n"

/-- The lines that report an error. -/
def errorLines (trace : Bool) (message : String) : String :=
  (if trace then "smalljs.runner: aborting: " ++ message ++ "\n" else "") ++
    "error: " ++ message ++ "\n"

/-- The response to an error in the source. -/
def refusal (trace : Bool) : Source.SourceError → Response
  | .syntaxError e => ⟨"", errorLines trace e.text, .code 1⟩
  | .oversizedInteger digits => ⟨"", "", .crash (.oversizedInteger digits)⟩

/-- The response that tells of a run. -/
def tell (trace : Bool) (r : Report) : Response :=
  let events := if trace then String.join (r.events.map traceLine) else ""
  match r.ending with
  | .finished => ⟨r.output, events, .code 0⟩
  | .refused e => refusal trace e
  | .rejected report => ⟨"", errorLines trace report, .code 1⟩
  | .failed kind message => ⟨"", "", .crash (.grammarFailed kind message)⟩
  | .mistaken m line => ⟨r.output, events ++ errorLines trace (m.text line), .code 1⟩
  | .faulted f => ⟨r.output, events, .crash (.fault f)⟩
  | .tooDeep => ⟨r.output, events, .crash .tooDeep⟩

/-- The response that shows what a source was read as. -/
def showProgram (trace : Bool) : Except NoProgram Node → Response
  | .error why => tell trace ⟨"", [], .ofNoProgram why⟩
  | .ok program =>
    match Value.listing "  " (.node program) with
    | some text => ⟨text, "", .code 0⟩
    | none => ⟨"", "", .crash (.fault .oversizedNumeral)⟩

/-- The response to a request for what a source was read as. -/
def Request.answer (r : Request) (on : Platform) (parsed : Except NoProgram Node) : Response :=
  if r.outline then showProgram r.trace parsed
  else tell r.trace (executeParsed (on.tracing r.trace) parsed)

/-- The response to a request. -/
def Request.respond (r : Request) (around : Surroundings) : Response :=
  match around.source? r.source, around.reader r.grammar with
  | none, _ => ⟨"", "", .message "No input provided on stdin"⟩
  | some _, .error crash => ⟨"", "", .crash crash⟩
  | some source, .ok read => r.answer around.platform (read source)

/-- The response to a command line. -/
def respond (arguments : List String) (around : Surroundings) : Response :=
  match invocation arguments with
  | .help => ⟨helpText, "", .code 0⟩
  | .misuse m => ⟨"", usageLine ++ "smalljs: error: " ++ m.message ++ "\n", .code 2⟩
  | .request r => r.respond around

/-! ### Responses to requests -/

theorem respond_of_invocation {arguments : List String} {r : Request}
    (h : invocation arguments = .request r) (around : Surroundings) :
    respond arguments around = r.respond around := by
  rw [respond, h]

/-- The response to a request that has a source and a grammar. -/
theorem Request.respond_of_source {r : Request} {around : Surroundings} {source : String}
    {read : String → Except NoProgram Node} (hsource : around.source? r.source = some source)
    (hread : around.reader r.grammar = .ok read) :
    r.respond around = r.answer around.platform (read source) := by
  rw [respond, hsource, hread]

end Scriptlet.CommandLine
