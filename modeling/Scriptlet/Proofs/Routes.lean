import Scriptlet.CommandLine.Response
import Scriptlet.Proofs.Listing
import Scriptlet.Proofs.Options

/-!
# The Ways of a Source

A source comes to the command line as an argument, from a file or from the standard input. On each
of these ways the command does with it what `execute` and the outline of its program say, and
nothing more: what it prints goes to the output stream, an error is reported with a word in front,
and a fault ends the command as it is. Only the way from a file changes the text, where every line
break becomes a line feed.

## Main definitions

* `Unified`: a text and the same text with line feeds for line breaks.
* `Route`: the ways from a text to a source.
* `Ending.told`: what a command tells of an ending.

## Main results

* `unified_iff`: a file is read so that its line breaks are unified.
* `respond_route`: what a command does with a source.
-/

namespace Scriptlet

namespace CommandLine

/-! ### Line breaks -/

/-- Characters, and the same with line feeds for line breaks. A line break is a line feed, a
carriage return, or a carriage return and a line feed behind it. -/
inductive Unified : List Char → List Char → Prop
  | nil : Unified [] []
  | pair {cs cs' : List Char} (h : Unified cs cs') : Unified ('\r' :: '\n' :: cs) ('\n' :: cs')
  | carriageReturn {cs cs' : List Char} (hcs : cs.head? ≠ some '\n') (h : Unified cs cs') :
      Unified ('\r' :: cs) ('\n' :: cs')
  | other {c : Char} {cs cs' : List Char} (hc : c ≠ '\r') (h : Unified cs cs') :
      Unified (c :: cs) (c :: cs')

/-- The text that is read from a file has its line breaks unified. -/
theorem unified_unifyNewlines (cs : List Char) : Unified cs (unifyNewlines cs) := by
  fun_induction unifyNewlines cs with
  | case1 => exact .nil
  | case2 cs ih => exact .pair ih
  | case3 cs hcs ih =>
      refine .carriageReturn (fun hhead => ?_) ih
      obtain ⟨rest, rfl⟩ := List.head?_eq_some_iff.mp hhead
      exact hcs rest rfl
  | case4 c cs hpair hc ih => exact .other hc ih

/-- There is one way to unify line breaks. -/
theorem unified_iff {cs cs' : List Char} : Unified cs cs' ↔ unifyNewlines cs = cs' := by
  constructor
  · intro h
    induction h with
    | nil => rfl
    | pair h ih => rw [unifyNewlines, ih]
    | carriageReturn hcs h ih =>
        rw [unifyNewlines, ih]
        rintro rest rfl
        exact hcs rfl
    | other hc h ih =>
        rw [unifyNewlines, ih]
        · exact fun _ h _ => hc h
        · exact hc
  · rintro rfl
    exact unified_unifyNewlines cs

/-! ### Sources -/

/-- The ways from a text to a source: as the argument, from the standard input, or from the file
that the argument names. -/
inductive Route (around : Surroundings) : (argument text source : String) → Prop
  | literal {text : String} (hname : text ≠ "-")
      (hfile : ∀ content, around.find text ≠ .file content) : Route around text text text
  | stdin : Route around "-" around.stdin around.stdin
  | file {path text source : String} (hname : path ≠ "-") (hfile : around.find path = .file text)
      (h : Unified text.toList source.toList) : Route around path text source

/-- What the argument stands for is the source, if the text is not empty. -/
theorem Route.source? {around : Surroundings} {argument text source : String}
    (h : Route around argument text source) (htext : text ≠ "") :
    around.source? argument = some source := by
  unfold Surroundings.source?
  cases h with
  | literal hname hfile =>
      rw [if_neg hname]
      split
      next content hcontent => exact absurd hcontent (hfile content)
      next => rfl
  | stdin =>
      rw [if_pos rfl, if_neg (by simpa using htext)]
  | file hname hfile h =>
      rw [if_neg hname, hfile]
      dsimp only
      rw [unified, unified_iff.mp h, String.ofList_toList]

/-! ### Command lines -/

/-- What a command tells of a text that it has written and of an ending. -/
def told (output : String) : Ending → Response
  | .finished => ⟨output, "", .code 0⟩
  | .refused (.syntaxError e) => ⟨output, "error: " ++ e.text ++ "\n", .code 1⟩
  | .refused (.oversizedInteger digits) => ⟨output, "", .crash (.oversizedInteger digits)⟩
  | .rejected report => ⟨output, "error: " ++ report ++ "\n", .code 1⟩
  | .failed kind message => ⟨output, "", .crash (.grammarFailed kind message)⟩
  | .mistaken m line => ⟨output, "error: " ++ m.text line ++ "\n", .code 1⟩
  | .faulted f => ⟨output, "", .crash (.fault f)⟩
  | .tooDeep => ⟨output, "", .crash .tooDeep⟩

/-- Without a trace, an error is reported on one line. -/
theorem errorLines_false (message : String) :
    errorLines false message = "error: " ++ message ++ "\n" :=
  congrArg (· ++ message ++ "\n") String.empty_append

/-- A refusal is told as a report is. -/
theorem refusal_false (e : Source.SourceError) : refusal false e = told "" (.refused e) := by
  cases e with
  | syntaxError e => exact congrArg (Response.mk "" · (.code 1)) (errorLines_false e.text)
  | oversizedInteger digits => rfl

/-- Where no program is made of a text, nothing is written but an error. -/
theorem tell_noProgram (why : NoProgram) :
    tell false ⟨"", [], .ofNoProgram why⟩ = told "" (.ofNoProgram why) := by
  cases why with
  | refused e => exact refusal_false e
  | rejected report => exact congrArg (Response.mk "" · (.code 1)) (errorLines_false report)
  | failed | tooDeep => rfl

/-- Without a trace, a command tells of a program that is run. -/
theorem tell_executeProgram (on : Platform) (program : Node) :
    tell false (executeProgram on program) =
      told (executeProgram on program).output (executeProgram on program).ending := by
  rw [tell]
  rcases ending_executeProgram_cases on program with h | ⟨x, h⟩
  · rw [h]
    rfl
  · rw [h]
    have hmistaken (m : Mistake) (line : Option Int) :
        (Response.mk (executeProgram on program).output ("" ++ errorLines false (m.text line))
          (.code 1)) = told (executeProgram on program).output (.mistaken m line) := by
      rw [String.empty_append, errorLines_false, told]
    cases x with
    | returned => exact hmistaken _ _
    | mistake m line => exact hmistaken m line
    | fault | tooDeep => rfl

/-! ### Command lines without other switches -/

/-- The argument that asks for the program to be shown. -/
def outlineSwitch : Argument := ⟨"--ast", .switch .outline false none⟩

/-- However often the switch for an outline is given, it is known. -/
theorem classify_replicate_outline (n : Nat) :
    classify (List.replicate n "--ast") = .ok (List.replicate n outlineSwitch) := by
  induction n with
  | zero => rfl
  | succ n ih => exact (classify_cons (by decide)).mpr ⟨_, rfl, _, ih, rfl⟩

/-- However often it is given, it says the same. -/
theorem Progress.invocation_replicate_outline (p : Progress) (n : Nat) (rest : List Argument) :
    p.invocation (List.replicate n outlineSwitch ++ rest) =
      { p with outline := p.outline || 0 < n }.invocation rest := by
  induction n generalizing p with
  | zero => simp
  | succ n ih =>
      refine (Progress.invocation_switch (r := ⟨[(.outline, "")], _⟩) rfl).trans ((ih _).trans ?_)
      simp

/-- The switches for an outline are set, whatever comes behind them. -/
theorem Progress.invocation_of_outlines (p : Progress) (n : Nat) :
    p.invocation (List.replicate n outlineSwitch) =
      { p with outline := p.outline || 0 < n }.finish := by
  have h := p.invocation_replicate_outline n []
  rwa [List.append_nil, invocation] at h

/-- The switch `--ast` may stand on both sides of the source, and the source may be left out. -/
theorem invocation_outline (source : Option String) (h : ∀ s ∈ source, kindOf s = .ok .plain)
    (m n : Nat) :
    invocation (List.replicate m "--ast" ++ (source.toList ++ List.replicate n "--ast")) =
      .request ⟨source.getD "-", .standard, 0 < m + n, false⟩ := by
  have hsource : classify (source.toList ++ List.replicate n "--ast") =
      .ok (source.toList.map (fun s => ⟨s, .plain⟩) ++ List.replicate n outlineSwitch) := by
    cases source with
    | none => exact classify_replicate_outline n
    | some s =>
        have hs : s ≠ "--" := by
          rintro rfl
          cases h "--" rfl
        exact (classify_cons hs).mpr ⟨_, h s rfl, _, classify_replicate_outline n, rfl⟩
  have hswitches : "--" ∉ List.replicate m "--ast" := fun hmem =>
    absurd (List.eq_of_mem_replicate hmem) (by decide)
  have houtline : (decide (0 < m) || decide (0 < n)) = decide (0 < m + n) := by
    rw [← Bool.decide_or]
    exact decide_eq_decide.mpr Nat.add_pos_iff_pos_or_pos.symm
  rw [invocation, (classify_append hswitches).mpr
    ⟨_, classify_replicate_outline m, _, hsource, rfl⟩]
  dsimp only
  rw [Progress.invocation_replicate_outline, ← houtline]
  cases source with
  | none => exact Progress.invocation_of_outlines _ n
  | some s =>
      refine (Progress.invocation_plain rfl fun a ha => ?_).trans
        (Progress.invocation_of_outlines _ n)
      rw [List.eq_of_mem_replicate (List.mem_of_mem_head? ha)]
      intro hkind
      cases hkind

/-- What a command does with a source, on whatever way it comes: it runs it, and writes what the run
prints, or it shows the outline of the program and runs nothing. An error in the text and a mistake
of the script are reported in their words, and any other end is the end of the command. The program
is the one that the source says, if there is room to make one; what is wrong with its tokens is
reported in any case. -/
theorem respond_route {arguments : List String} {around : Surroundings}
    {argument text source : String} {outline : Bool} (htext : text ≠ "")
    (hroute : Route around argument text source)
    (h : invocation arguments = .request ⟨argument, .standard, outline, false⟩) :
    (outline = false → respond arguments around =
      told (execute (around.platform.tracing false) source).output
        (execute (around.platform.tracing false) source).ending) ∧
    (outline = true → ∀ why, around.platform.parse source = .error why →
      respond arguments around = told "" (.ofNoProgram why)) ∧
    (outline = true → ∀ program, around.platform.parse source = .ok program →
      ∃ listing, (Value.node program).listing "  " = some listing ∧
        respond arguments around = told listing .finished) ∧
    (∀ program, around.platform.parse source = .ok program →
      Source.program source = .ok program) ∧
    (∀ e, Source.program source = .error (.syntaxError e) →
      around.platform.parse source = .error (.refused (.syntaxError e))) ∧
    (around.platform.lowers (Source.tokenTexts source) = true →
      around.platform.parse source = (Source.program source).mapError .refused) := by
  rw [respond_of_invocation h, Request.respond_of_source (hroute.source? htext) rfl]
  refine ⟨?_, ?_, ?_, fun program hprogram => (Platform.parse_eq_ok_iff.mp hprogram).1,
    fun e he => Platform.parse_of_syntaxError he, ?_⟩
  · rintro rfl
    show tell false (execute (around.platform.tracing false) source) = _
    rcases cases_of_execute (around.platform.tracing false) source with
      ⟨why, -, he⟩ | ⟨program, -, -, he⟩
    · rw [he]
      exact tell_noProgram why
    · rw [he]
      exact tell_executeProgram _ program
  · rintro rfl why hwhy
    rw [Request.answer, if_pos rfl, hwhy]
    exact tell_noProgram why
  · rintro rfl program hprogram
    obtain ⟨listing, hlisting⟩ :=
      exists_outline_of_program (Platform.parse_eq_ok_iff.mp hprogram).1 "  "
    refine ⟨listing, hlisting, ?_⟩
    rw [Request.answer, if_pos rfl, hprogram, showProgram, hlisting]
    rfl
  · intro hroom
    rw [Platform.parse, hroom]
    cases Source.program source with
    | error e => cases e <;> rfl
    | ok program => rfl

namespace Routes

/-- A script with two kinds of line breaks, which makes a mistake on its third line. -/
def written : String := "// one\r\nprint('a');\ro.x = 1;"

/-- The script as it is read from a file. -/
def read : String := "// one\nprint('a');\no.x = 1;"

/-- The script in a file, and another one on the standard input. -/
def around : Surroundings :=
  .builtInOnly "print('a');" (fun path => if path = "script" then .file written else .nothing)
    .standard

theorem unified_written : Unified written.toList read.toList :=
  unified_iff.mpr (by with_unfolding_all rfl)

end Routes

/-- The script in the file runs up to its mistake, and the one on the standard input is shown. -/
theorem routes_fileAndInput :
    respond ["script"] Routes.around = ⟨"a\n",
      "error: undefined is not an object (cannot assign field 'x') (line 3)\n", .code 1⟩ ∧
    respond ["script"] Routes.around =
      told (execute .standard Routes.read).output (execute .standard Routes.read).ending ∧
    ∃ listing, (Value.node
        (.block [.call (.name "print" 1) [.constant (.string "a") 1] 1] 1)).listing "  " =
          some listing ∧
      respond ["--ast"] Routes.around = told listing .finished := by
  have hfile : invocation ["script"] = .request ⟨"script", .standard, false, false⟩ :=
    invocation_outline (some "script") (fun _ h => by cases h; rfl) 0 0
  have hinput : invocation ["--ast"] = .request ⟨"-", .standard, true, false⟩ :=
    invocation_outline none nofun 1 0
  have hroute : Route Routes.around "script" Routes.written Routes.read :=
    .file (by decide) rfl Routes.unified_written
  refine ⟨by decide +kernel, (respond_route (by decide) hroute hfile).1 rfl, ?_⟩
  have hstdin : Route Routes.around "-" "print('a');" "print('a');" := .stdin
  have hprogram : Source.program "print('a');" = .ok (.block
      [.call (.name "print" 1) [.constant (.string "a") 1] 1] 1) := by with_unfolding_all rfl
  exact (respond_route (by decide) hstdin hinput).2.2.1 rfl _
    (Platform.parse_standard hprogram (by decide +kernel))

end CommandLine

end Scriptlet
