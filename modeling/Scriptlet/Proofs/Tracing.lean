import Scriptlet.CommandLine.Response
import Scriptlet.Proofs.Options
import Scriptlet.Proofs.Towers
import Scriptlet.Proofs.Watching

/-!
# A Trace Only Watches

A command with a trace writes the same to the output stream as one without, and ends alike. All
that the trace does is to put lines before what is on the error stream anyway: how many statements
are run, one line for each call of `print` in the order of the calls, whether the run has come to
its end, and why the command gives up if it does. The calls are those of the run without a trace,
in which nothing is described that is printed.

A note of a call takes levels of its own, more than printing takes. A run that nests so deep that
there is room for the one and not for the other is cut off with a trace, and only then. Then there
is the beginning of what it would have printed, and of the notes.

## Main definitions

* `watchProgram`, `printCalls`: a watched run, and its calls of `print`.
* `Watches`: what a trace shows of a run.
* `Log`, `Logged`: the lines that a trace shows, and a response with these lines.

## Main results

* `executeProgram_watched`: a run with a trace, and the one without.
* `respond_traceSwitch`: the switch for a trace puts a log before the error stream, and changes
  nothing else, unless the run is cut off.
* `not_tracing_tower`: a run that is cut off with a trace, and comes to its end without.
-/

namespace Scriptlet

/-! ### Watched runs -/

/-- What becomes of the result of a program, in which a `return` is a mistake. -/
def Except.refuseReturn : Except Exit Value → Except Exit Value
  | .error (.returned _) => .error (.mistake .strayReturn none)
  | result => result

theorem Eval.runIn_refuseReturn (e : Eval Value) (s : Session) :
    (Eval.refuseReturn e).runIn s = (Except.refuseReturn (e.runIn s).1, (e.runIn s).2) := by
  rw [Eval.refuseReturn, Eval.runIn_tryCatch]
  rcases e.runIn s with ⟨x | v, t⟩
  · cases x <;> rfl
  · rfl

/-- The evaluation of a program. -/
def Watched.refuseReturn {depth : TextDepth} (w : Watched depth Value) : Watched depth Value where
  on traced := Eval.refuseReturn (w.on traced)
  calls := w.calls
  agrees := w.agrees.map Except.refuseReturn rfl rfl (Eval.runIn_refuseReturn (w.on true))
    (Eval.runIn_refuseReturn (w.on false))

/-- A watched run of a program. -/
def watchProgram (on : Platform) (program : Node) : Watched on.stack.text Value :=
  (watch on.stack on.limit 0 program Store.empty.fresh).refuseReturn

/-- The calls of `print` that a run of a program makes without a trace, in their order. -/
def printCalls (on : Platform) (program : Node) : List PrintCall :=
  (watchProgram on program).calls (Session.empty.started program)

/-- What an ending shows of a run that has come to its end. -/
def Ending.closing : Ending → List Event
  | finished => [.finished]
  | _ => []

/-- What a run comes to, from the evaluation of the program. -/
theorem executeProgram_eq (on : Platform) (program : Node) (traced : Bool) {t : Session}
    {result : Except Exit Value}
    (h : ((watchProgram on program).on traced).runIn (Session.empty.started program) =
      (result, t)) :
    executeProgram (on.tracing traced) program =
      ⟨t.output, t.events.toList ++ (Ending.ofResult result).closing, .ofResult result⟩ := by
  have hrun : (watchProgram on program).on traced = Eval.refuseReturn
      (evaluate (on.tracing traced).stack (on.tracing traced).limit program Store.empty.fresh) :=
    congrArg Eval.refuseReturn (on_watch on.stack on.limit 0 program Store.empty.fresh traced)
  have hdiscarded : (discard ((watchProgram on program).on traced)).runIn
      (Session.empty.started program) = (result.map fun _ => (), t) := by
    rw [Eval.runIn_discard, h]
  rw [executeProgram, runIn_inOwnGlobal, Eval.runIn_bind,
    show Session.empty.store.fresh = Store.empty.fresh from rfl, ← hrun, hdiscarded]
  cases result with
  | ok v => exact congrArg (Report.mk t.output · _) Array.toList_push
  | error x => cases x <;> exact congrArg (Report.mk t.output · _) (List.append_nil _).symm

/-- What a trace shows of a run that has ended so: the number of the statements, the calls of
`print`, or only the first of them if the run was cut off, and whether it has come to its end. -/
def Watches (on : Platform) (program : Node) (ending : Ending) (shown : List Event) : Prop :=
  ∃ done events, done <+: printCalls on program ∧
    (ending ≠ .tooDeep → done = printCalls on program) ∧
    List.Forall₂ (PrintCall.NotedAs on.stack.text) done events ∧
    shown = .started program.statements.length :: (events ++ ending.closing)

/-- **A run with a trace** is the run without one, and its events are what a trace shows, unless
it was cut off: then the output begins that of the run without a trace. -/
theorem executeProgram_watched (on : Platform) (program : Node) {quiet traced : Report}
    (hquiet : executeProgram (on.tracing false) program = quiet)
    (htraced : executeProgram (on.tracing true) program = traced) :
    (traced.output = quiet.output ∧ traced.ending = quiet.ending ∨
      traced.ending = .tooDeep ∧ ∃ more, quiet.output = traced.output ++ more) ∧
    (traced.ending ≠ .faulted .oversizedNumeral →
      Watches on program traced.ending traced.events) := by
  have hagrees := (watchProgram on program).agrees.outcome (Session.empty.started program)
    (Session.empty.started program) ⟨rfl, rfl⟩
  rcases hx : ((watchProgram on program).on true).runIn (Session.empty.started program) with ⟨x, t⟩
  rcases hy : ((watchProgram on program).on false).runIn (Session.empty.started program) with ⟨y, u⟩
  rw [hx, hy] at hagrees
  rw [executeProgram_eq on program true hx] at htraced
  rw [executeProgram_eq on program false hy] at hquiet
  subst htraced hquiet
  have hstarted : (Session.empty.started program).events.toList =
      [.started program.statements.length] := rfl
  cases hagrees with
  | alike hresult hsession hnoted =>
      obtain rfl : x = y := hresult
      refine ⟨.inl ⟨hsession.output, rfl⟩, fun hne => ?_⟩
      obtain ⟨events, hevents, hcalls⟩ := hnoted fun h => hne (congrArg Ending.ofResult h)
      refine ⟨_, events, List.prefix_rfl, fun _ => rfl, hcalls, ?_⟩
      rw [hevents, hstarted, List.append_assoc]
      rfl
  | cut hresult houtput hnoted =>
      obtain rfl : x = .error .tooDeep := hresult
      obtain ⟨done, hdone, events, hevents, hcalls⟩ := hnoted
      refine ⟨.inr ⟨rfl, houtput⟩, fun _ => ⟨done, events, hdone, absurd rfl, hcalls, ?_⟩⟩
      rw [hevents, hstarted, List.append_assoc]
      rfl

namespace CommandLine

/-! ### Logs -/

/-- The lines that a trace shows when a command gives up. -/
def givingUp : Ending → List String
  | .refused (.syntaxError e) => ["smalljs.runner: aborting: " ++ e.text ++ "\n"]
  | .rejected report => ["smalljs.runner: aborting: " ++ report ++ "\n"]
  | .mistaken m line => ["smalljs.runner: aborting: " ++ m.text line ++ "\n"]
  | _ => []

/-- The log of a source that is shown or run. Of a run it has what a trace shows, and why the
command gives up. -/
inductive Log (on : Platform) : (outline : Bool) → Except NoProgram Node → List String → Prop
  | refused {outline : Bool} {why : NoProgram} :
      Log on outline (.error why) (givingUp (.ofNoProgram why))
  | shown {program : Node} : Log on true (.ok program) []
  | run {program : Node} {ending : Ending} {events : List Event}
      (hending : (executeProgram (on.tracing true) program).ending = ending)
      (h : Watches on program ending events) :
      Log on false (.ok program) (events.map traceLine ++ givingUp ending)

/-- What a response is with a trace: the same, with a log before the error stream; or it is that of
a run that was cut off, with the beginning of the output and nothing but the log on the error
stream. -/
inductive Logged (log : List String) (r : Response) : Response → Prop
  | whole : Logged log r ⟨r.stdout, String.join log ++ r.stderr, r.status⟩
  | cut {output more : String} (h : r.stdout = output ++ more) :
      Logged log r ⟨output, String.join log, .crash .tooDeep⟩

theorem Logged.refl (r : Response) : Logged [] r r := by
  have h : Logged [] r ⟨r.stdout, String.join [] ++ r.stderr, r.status⟩ := .whole
  rwa [String.join_nil, String.empty_append] at h

/-! ### Responses with a trace -/

/-- With a trace, an error is reported on a line more. -/
theorem errorLines_true (message : String) : errorLines true message =
    String.join ["smalljs.runner: aborting: " ++ message ++ "\n"] ++ errorLines false message := by
  rw [errorLines, errorLines]
  generalize "smalljs.runner: aborting: " ++ message ++ "\n" = aborting
  simp [String.append_assoc]

/-- With a trace it is also noted why no program is made of a text. -/
theorem logged_noProgram (why : NoProgram) : Logged (givingUp (.ofNoProgram why))
    (tell false ⟨"", [], .ofNoProgram why⟩) (tell true ⟨"", [], .ofNoProgram why⟩) := by
  have hreported (message : String) :
      Logged ["smalljs.runner: aborting: " ++ message ++ "\n"]
        ⟨"", errorLines false message, .code 1⟩ ⟨"", errorLines true message, .code 1⟩ := by
    rw [errorLines_true]
    exact .whole
  cases why with
  | refused e =>
      cases e with
      | syntaxError e => exact hreported e.text
      | oversizedInteger => exact .refl _
  | rejected report => exact hreported report
  | failed | tooDeep => exact .refl _

/-- What a run has printed is on the output stream. -/
theorem stdout_tell {r : Report} (trace : Bool)
    (h : r.ending = .finished ∨ ∃ x, r.ending = .ofExit x) : (tell trace r).stdout = r.output := by
  rw [tell]
  rcases h with h | ⟨x, h⟩
  · rw [h]
  · rw [h]
    cases x <;> rfl

/-- With a trace, the events of a run and why the command gives up are put before the error
stream. -/
theorem logged_tell {quiet traced : Report}
    (hrun : quiet.ending = .finished ∨ ∃ x, quiet.ending = .ofExit x)
    (houtput : traced.output = quiet.output) (hending : traced.ending = quiet.ending) :
    Logged (traced.events.map traceLine ++ givingUp traced.ending)
      (tell false quiet) (tell true traced) := by
  obtain ⟨output, events, ending⟩ := traced
  obtain rfl : output = quiet.output := houtput
  obtain rfl : ending = quiet.ending := hending
  -- an ending without a report adds nothing to the events
  have hunreported {status : Status} :
      Logged (events.map traceLine ++ []) ⟨quiet.output, "", status⟩
        ⟨quiet.output, String.join (events.map traceLine), status⟩ := by
    rw [List.append_nil]
    have h : Logged (events.map traceLine) ⟨quiet.output, "", status⟩ ⟨quiet.output, _, status⟩ :=
      .whole
    rwa [String.append_empty] at h
  have hmistaken (m : Mistake) (line : Option Int) :
      Logged (events.map traceLine ++ ["smalljs.runner: aborting: " ++ m.text line ++ "\n"])
        ⟨quiet.output, "" ++ errorLines false (m.text line), .code 1⟩
        ⟨quiet.output, String.join (events.map traceLine) ++ errorLines true (m.text line),
          .code 1⟩ := by
    rw [String.empty_append, errorLines_true, ← String.append_assoc, ← String.join_append]
    exact .whole
  rw [tell, tell]
  rcases hrun with h | ⟨x, h⟩
  · rw [h]
    exact hunreported
  · rw [h]
    cases x with
    | returned => exact hmistaken _ _
    | mistake m line => exact hmistaken m line
    | fault | tooDeep => exact hunreported

/-- With a trace, a run that is cut off shows its events. -/
theorem logged_tell_of_cut {quiet traced : Report}
    (hrun : quiet.ending = .finished ∨ ∃ x, quiet.ending = .ofExit x)
    (hending : traced.ending = .tooDeep) {more : String}
    (houtput : quiet.output = traced.output ++ more) :
    Logged (traced.events.map traceLine ++ givingUp traced.ending)
      (tell false quiet) (tell true traced) := by
  have htraced : tell true traced =
      ⟨traced.output, String.join (traced.events.map traceLine), .crash .tooDeep⟩ := by
    rw [tell, hending]
    rfl
  rw [htraced, hending, show givingUp .tooDeep = [] from rfl, List.append_nil]
  exact .cut ((stdout_tell false hrun).trans houtput)

/-- What a trace adds to what is shown or run. -/
theorem exists_logged_answer {r : Request} (htrace : r.trace = false) (on : Platform)
    (parsed : Except NoProgram Node) :
    ∃ log, Logged log (r.answer on parsed) (r.traced.answer on parsed) ∧
      ((r.traced.answer on parsed).status ≠ .crash (.fault .oversizedNumeral) →
        Log on r.outline parsed log) := by
  obtain ⟨argument, grammar, outline, trace⟩ := r
  obtain rfl : trace = false := htrace
  cases parsed with
  | error why =>
      refine ⟨givingUp (.ofNoProgram why), ?_, fun _ => .refused⟩
      cases outline with
      | true | false => exact logged_noProgram why
  | ok program =>
      cases outline with
      | true =>
          refine ⟨[], ?_, fun _ => .shown⟩
          exact Logged.refl (showProgram false (.ok program))
      | false =>
          obtain ⟨hsame, hwatches⟩ := executeProgram_watched on program rfl rfl
          refine ⟨_, ?_, fun hne => .run rfl (hwatches fun hending => hne ?_)⟩
          · have hrun := ending_executeProgram_cases (on.tracing false) program
            rcases hsame with ⟨houtput, hending⟩ | ⟨hending, more, houtput⟩
            · exact logged_tell hrun houtput hending
            · exact logged_tell_of_cut hrun hending houtput
          · show (tell true (executeProgram (on.tracing true) program)).status = _
            rw [tell, hending]

/-- **The switch for a trace** puts a log before the error stream, and changes nothing else: what is
written to the output stream is the same, and the command ends alike. Only a run that is cut off
with the switch, because it nests too deep for the notes, may print more and end otherwise without
it. The log is that of the program, if no integer is too long to be written. -/
theorem respond_traceSwitch {pre post : List String} {r r' : Request} (around : Surroundings)
    (hpre : "--" ∉ pre) (h : invocation (pre ++ post) = .request r)
    (h' : invocation (pre ++ "--trace" :: post) = .request r') :
    ∃ log, Logged log (respond (pre ++ post) around)
        (respond (pre ++ "--trace" :: post) around) ∧
      ∀ source read, around.source? r.source = some source →
        around.reader r.grammar = .ok read → r.trace = false →
        (respond (pre ++ "--trace" :: post) around).status ≠
          .crash (.fault .oversizedNumeral) →
        Log around.platform r.outline (read source) log := by
  obtain rfl := request_of_traceSwitch hpre h h'
  rw [respond_of_invocation h, respond_of_invocation h']
  have hsource : r.traced.source = r.source := rfl
  have hgrammar : r.traced.grammar = r.grammar := rfl
  by_cases htrace : r.trace = false
  · cases hs : around.source? r.source with
    | none =>
        refine ⟨[], ?_, fun _ _ h => by cases h⟩
        rw [Request.respond, Request.respond, hsource, hs]
        exact .refl _
    | some source =>
        cases hr : around.reader r.grammar with
        | error crash =>
            refine ⟨[], ?_, fun _ _ _ h => by cases h⟩
            rw [Request.respond, Request.respond, hsource, hgrammar, hs, hr]
            exact .refl _
        | ok read =>
            rw [Request.respond_of_source hs hr, Request.respond_of_source (r := r.traced) hs hr]
            obtain ⟨log, hlogged, hlog⟩ :=
              exists_logged_answer htrace around.platform (read source)
            refine ⟨log, hlogged, fun source' read' hsource' hread' _ => ?_⟩
            obtain rfl := Option.some.inj hsource'
            obtain rfl := Except.ok.inj hread'
            exact hlog
  · -- a second switch changes nothing
    have htraced : r.traced = r := by
      obtain ⟨argument, grammar, outline, trace⟩ := r
      cases trace with
      | true => rfl
      | false => exact absurd rfl htrace
    rw [htraced]
    exact ⟨[], .refl _, fun _ _ _ _ h => absurd h htrace⟩

namespace Tracing

/-- A script that prints before it makes a mistake. -/
def lateMistake : String := "print(1); o.x = 1;"

/-- There are no files, and a text is on the standard input. -/
def onlyStdin (text : String) : Surroundings :=
  .builtInOnly text (fun _ => .nothing) .standard

/-- What is on the error stream with a trace. -/
def traced : String :=
  "smalljs.evaluator: interpreting 2 top-level instruction(s)\n" ++
  "smalljs.stdlib: print called with [1]\n" ++
  "smalljs.runner: aborting: undefined is not an object (cannot assign field 'x') (line 1)\n" ++
  "error: undefined is not an object (cannot assign field 'x') (line 1)\n"

end Tracing

/-- The run of the script is logged, and it prints and ends as it does without a trace. -/
theorem traceSwitch_lateMistake :
    respond [Tracing.lateMistake, "--trace"] (Tracing.onlyStdin "") =
      ⟨"1\n", Tracing.traced, .code 1⟩ ∧
    ∃ log, Logged log (respond [Tracing.lateMistake] (Tracing.onlyStdin ""))
        (respond [Tracing.lateMistake, "--trace"] (Tracing.onlyStdin "")) ∧
      Log .standard false (Platform.standard.parse Tracing.lateMistake) log := by
  have hwithout : invocation ([Tracing.lateMistake] ++ []) =
      .request ⟨Tracing.lateMistake, .standard, false, false⟩ := by with_unfolding_all rfl
  have htraced : invocation ([Tracing.lateMistake] ++ ["--trace"]) =
      .request ⟨Tracing.lateMistake, .standard, false, true⟩ := by with_unfolding_all rfl
  obtain ⟨log, hlogged, hlog⟩ :=
    respond_traceSwitch (Tracing.onlyStdin "") (by decide) hwithout htraced
  have hresponse : respond [Tracing.lateMistake, "--trace"] (Tracing.onlyStdin "") =
      ⟨"1\n", Tracing.traced, .code 1⟩ := by decide +kernel
  refine ⟨hresponse, log, hlogged, hlog _ _ rfl rfl rfl ?_⟩
  rw [List.singleton_append, hresponse]
  exact nofun

/-- What becomes of a tower on the standard input. -/
theorem respond_tower {arguments : List String} {traced : Bool}
    (h : invocation arguments = .request ⟨"-", .standard, false, traced⟩) (height : Nat) :
    respond arguments (Tracing.onlyStdin (Tower.source (height + 1))) =
      tell traced (executeProgram (Platform.standard.tracing traced)
        (Tower.program (height + 1))) := by
  have hsource : (Tracing.onlyStdin (Tower.source (height + 1))).source? "-" =
      some (Tower.source (height + 1)) := by
    have hne : ¬ (Tower.source (height + 1)).isEmpty := by
      simp [Tower.source, Tower.stepText]
    exact (if_pos rfl).trans (if_neg hne)
  have hparse : Platform.standard.parse (Tower.source (height + 1)) =
      .ok (Tower.program (height + 1)) := Tower.parse_source false (height + 1)
  rw [respond_of_invocation h, Request.respond_of_source hsource rfl]
  exact congrArg (fun parsed =>
    tell traced (executeParsed (Platform.standard.tracing traced) parsed)) hparse

/-- A tower that can just be printed cannot be with a trace: there are too few levels for the
note. -/
theorem not_tracing_tower :
    respond ["-"] (Tracing.onlyStdin (Tower.source 4988)) =
      ⟨Store.towerText 4988 ++ "\n", "", .code 0⟩ ∧
    (respond ["--trace", "-"] (Tracing.onlyStdin (Tower.source 4988))).stdout = "" ∧
    (respond ["--trace", "-"] (Tracing.onlyStdin (Tower.source 4988))).status =
      .crash .tooDeep := by
  have hquiet : invocation ["-"] = .request ⟨"-", .standard, false, false⟩ := by
    with_unfolding_all rfl
  have htraced : invocation ["--trace", "-"] = .request ⟨"-", .standard, false, true⟩ := by
    with_unfolding_all rfl
  rw [respond_tower hquiet, respond_tower htraced]
  have hends (traced : Bool) := Tower.executeProgram_eq
    (rfl : (Platform.standard.tracing traced).stack = _) (show 9 ≤ 9990 by decide) 4987
  obtain ⟨hending, houtput⟩ := hends false
  obtain ⟨hending', houtput'⟩ := hends true
  have henough : Tower.need false 4988 ≤ (Platform.standard.tracing false).limit := by decide
  have hshort : ¬ Tower.need true 4988 ≤ (Platform.standard.tracing true).limit := by decide
  rw [if_pos henough] at hending houtput
  rw [if_neg hshort] at hending' houtput'
  rw [tell, tell, hending, hending', houtput, houtput']
  exact ⟨rfl, rfl, rfl⟩

end CommandLine

end Scriptlet
