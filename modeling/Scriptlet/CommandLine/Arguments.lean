import Scriptlet.Text.DecimalDigit
import Scriptlet.Text.Quoted

/-!
# Command-Line Arguments

The program takes one *source*, which may be left out, and switches before or after it. A
switch has a long name and possibly a short one; the grammar switch takes a value.

* A long name may be cut short as long as it stays the only one, and takes its value behind
  an equals sign or as the next argument.
* A short name takes its value directly behind it, behind an equals sign, or as the next
  argument. What stands in the place of a value behind a switch that takes none must be the
  letters of further short names.
* After the argument `--` nothing is a switch. Nor is an argument that does not begin with a
  hyphen, a hyphen alone, a negative number, or an unknown name with a space in it.

Every argument is classified before the first is acted on, so an ambiguous name is an error
whatever stands before it. Asking for help ends the reading at that argument; an argument
that nothing takes is an error only at the end.

## Main definitions

* `classify`: what kind of argument each argument is.
* `invocation`: what a list of arguments asks for.
-/

namespace Scriptlet.CommandLine

open Scriptlet.Text (isDecimalDigit)

/-! ### Switches -/

/-- A switch of the program. -/
inductive Switch
  /-- Show how the program is used. -/
  | help
  /-- Use the grammar in a file. -/
  | grammar
  /-- Show the program instead of running it. -/
  | outline
  /-- Show what happens in a run. -/
  | trace
deriving DecidableEq, Repr

/-- The names of the switches, in the order in which they are searched. -/
def switchNames : List (String × Switch) :=
  [("-h", .help), ("--help", .help), ("-g", .grammar), ("--grammar", .grammar),
    ("--ast", .outline), ("--trace", .trace)]

/-- The switch of a name. -/
def Switch.ofName? (name : String) : Option Switch := switchNames.lookup name

/-- The short switch of a letter. -/
def Switch.ofLetter? (letter : Char) : Option Switch :=
  Switch.ofName? (String.ofList ['-', letter])

/-- All names of a switch, as error messages list them. -/
def Switch.title (s : Switch) : String :=
  "/".intercalate ((switchNames.filter fun n => n.2 = s).map Prod.fst)

/-- Whether a switch takes a value. -/
def Switch.takesValue : Switch → Bool
  | grammar => true
  | _ => false

/-! ### Errors -/

/-- Why a list of arguments cannot be used. -/
inductive Misuse
  /-- A name that is cut too short. -/
  | ambiguous (argument : String) (names : List String)
  /-- A switch without its value. -/
  | missingValue (switch : Switch)
  /-- A value for a switch that takes none. -/
  | needlessValue (switch : Switch) (value : String)
  /-- Arguments that nothing takes. -/
  | unrecognized (arguments : List String)
deriving DecidableEq, Repr

/-- The error in words. -/
def Misuse.message : Misuse → String
  | ambiguous argument names =>
    "ambiguous option: " ++ argument ++ " could match " ++ ", ".intercalate names
  | missingValue switch => "argument " ++ switch.title ++ ": expected one argument"
  | needlessValue switch value =>
    "argument " ++ switch.title ++ ": ignored explicit argument " ++ Text.quote value
  | unrecognized arguments => "unrecognized arguments: " ++ " ".intercalate arguments

/-! ### Kinds of arguments -/

/-- What kind of argument an argument is. -/
inductive Kind
  /-- No switch. -/
  | plain
  /-- The argument after which nothing is a switch. -/
  | separator
  /-- A switch, by a short or a long name, possibly with a value in the same argument. -/
  | switch (s : Switch) (short : Bool) (attached : Option (List Char))
  /-- It looks like a switch, but there is none of that name. -/
  | unknown
deriving DecidableEq, Repr

/-- An argument and its kind. -/
structure Argument where
  /-- The argument as it was given. -/
  text : String
  /-- Its kind. -/
  kind : Kind
deriving DecidableEq, Repr

/-- Whether characters are a negative number: a hyphen and digits, possibly with a point
before the last of them. A line feed at the end does not count. -/
def isNegativeNumber (cs : List Char) : Bool :=
  match cs with
  | '-' :: rest =>
    let rest := if rest.getLast? = some '\n' then rest.dropLast else rest
    match rest.takeWhile isDecimalDigit, rest.dropWhile isDecimalDigit with
    | whole, [] => !whole.isEmpty
    | _, '.' :: fraction => !fraction.isEmpty && fraction.all isDecimalDigit
    | _, _ => false
  | _ => false

/-- The part of an argument before the first equals sign, and what follows that sign. -/
def splitEquals (cs : List Char) : List Char × Option (List Char) :=
  match cs.dropWhile (· ≠ '=') with
  | '=' :: value => (cs.takeWhile (· ≠ '='), some value)
  | _ => (cs, none)

/-- The switches whose names an argument that is no full name can stand for. -/
def candidates (cs : List Char) : List (String × Kind) :=
  match cs with
  | '-' :: '-' :: _ =>
    let (name, attached) := splitEquals cs
    (switchNames.filter fun n => name.isPrefixOf n.1.toList).map fun n =>
      (n.1, .switch n.2 false attached)
  | '-' :: letter :: value =>
    (Switch.ofLetter? letter).toList.map fun s =>
      (String.ofList ['-', letter], .switch s true (some value))
  | _ => []

/-- The kind of an argument that does not follow the separator. -/
def kindOf (text : String) : Except Misuse Kind :=
  match text.toList with
  | '-' :: rest =>
    if text = "--" then .ok .separator
    else if rest.isEmpty then .ok .plain
    else
      let short := rest.head? ≠ some '-'
      let (name, attached) := splitEquals text.toList
      match Switch.ofName? text, Switch.ofName? (String.ofList name) with
      | some s, _ => .ok (.switch s short none)
      | none, some s => .ok (.switch s short attached)
      | none, none =>
        match candidates text.toList with
        | [(_, kind)] => .ok kind
        | [] =>
          if isNegativeNumber text.toList || text.toList.contains ' ' then .ok .plain
          else .ok .unknown
        | several => .error (.ambiguous text (several.map Prod.fst))
  | _ => .ok .plain

/-- The arguments with their kinds. -/
def classify : List String → Except Misuse (List Argument)
  | [] => .ok []
  | text :: rest => do
    match ← kindOf text with
    | .separator => return ⟨text, .separator⟩ :: rest.map fun t => ⟨t, .plain⟩
    | kind => return ⟨text, kind⟩ :: (← classify rest)

/-! ### What the arguments ask for -/

/-- Which grammar is asked for. -/
inductive GrammarChoice
  /-- The one that is built in. -/
  | standard
  /-- The one in a file. -/
  | file (path : String)
  /-- None: the separator was given as the value, and as a value it is dropped. -/
  | dropped
deriving DecidableEq, Repr

/-- The grammar that a value of the grammar switch asks for. -/
def GrammarChoice.ofValue (value : String) : GrammarChoice :=
  if value = "" then standard else if value = "--" then dropped else file value

/-- What is to be done with which source. -/
structure Request where
  /-- The source argument; a hyphen stands for the standard input. -/
  source : String
  /-- The grammar. -/
  grammar : GrammarChoice
  /-- Whether to show the program instead of running it. -/
  outline : Bool
  /-- Whether to show what happens in a run. -/
  trace : Bool
deriving DecidableEq, Repr

/-- What a list of arguments asks for. -/
inductive Invocation
  /-- To show how the program is used. -/
  | help
  /-- Nothing that can be done. -/
  | misuse (m : Misuse)
  /-- To run or show a source. -/
  | request (r : Request)
deriving DecidableEq, Repr

/-- What is known of a request after some of the arguments. -/
structure Progress where
  /-- The source, if one was met. -/
  source : Option String
  /-- The grammar that was asked for last. -/
  grammar : GrammarChoice
  /-- Whether the program is to be shown. -/
  outline : Bool
  /-- Whether a trace is to be shown. -/
  trace : Bool
  /-- The arguments that nothing took, the last first. -/
  extras : List String

/-- What one argument that is a switch comes to. -/
structure Settings where
  /-- The switches that it sets, with their values, in order. -/
  set : List (Switch × String)
  /-- The arguments behind those that are used. -/
  rest : List Argument

/-- The settings with one more switch before the others, which takes no value. -/
def Settings.after (s : Switch) (r : Settings) : Settings := { r with set := (s, "") :: r.set }

/-- A switch at the end of its argument. If it takes a value, that is the next argument. -/
def bareSwitch (s : Switch) (next : List Argument) : Except Misuse Settings :=
  if s.takesValue then
    match next with
    | ⟨value, .plain⟩ :: rest => .ok ⟨[(s, value)], rest⟩
    | _ => .error (.missingValue s)
  else .ok ⟨[(s, "")], next⟩

/-- A switch with characters behind it in its argument. They are its value if it takes one.
If it takes none, they are the letters of further short switches, the last of which may have
a value; only a short name may be followed by such letters. -/
def attachedSwitch (short : Bool) (s : Switch) (next : List Argument) :
    List Char → Except Misuse Settings
  | [] => if s.takesValue then .ok ⟨[(s, "")], next⟩ else .error (.needlessValue s "")
  | letter :: value =>
    if s.takesValue then .ok ⟨[(s, String.ofList (letter :: value))], next⟩
    else
      match if short then Switch.ofLetter? letter else none with
      | none => .error (.needlessValue s (String.ofList (letter :: value)))
      | some t =>
        (if value.isEmpty then bareSwitch t next else attachedSwitch true t next value).map
          (Settings.after s)

/-- What a switch comes to, possibly with characters behind it. -/
def settings (short : Bool) (s : Switch) (attached : Option (List Char))
    (next : List Argument) : Except Misuse Settings :=
  match attached with
  | none => bareSwitch s next
  | some value => attachedSwitch short s next value

theorem bareSwitch_rest_length {s : Switch} {next : List Argument} {r : Settings}
    (h : bareSwitch s next = .ok r) : r.rest.length ≤ next.length := by
  unfold bareSwitch at h
  split at h
  · split at h
    · cases h
      simp
    · cases h
  · cases h
    exact Nat.le_refl _

theorem attachedSwitch_rest_length {short : Bool} {s : Switch} {next : List Argument}
    {value : List Char} {r : Settings} (h : attachedSwitch short s next value = .ok r) :
    r.rest.length ≤ next.length := by
  induction value generalizing short s r with
  | nil =>
    unfold attachedSwitch at h
    split at h <;> cases h
    exact Nat.le_refl _
  | cons letter value ih =>
    unfold attachedSwitch at h
    split at h
    · cases h
      exact Nat.le_refl _
    split at h
    · cases h
    split at h
    · next t _ _ =>
      cases e : bareSwitch t next with
      | error => rw [e] at h; cases h
      | ok q => rw [e] at h; cases h; exact (bareSwitch_rest_length e : q.rest.length ≤ _)
    · next t _ _ =>
      cases e : attachedSwitch true t next value with
      | error => rw [e] at h; cases h
      | ok q => rw [e] at h; cases h; exact (ih e : q.rest.length ≤ _)

/-- Switches use no more than the arguments there are. -/
theorem settings_rest_length {short : Bool} {s : Switch} {attached : Option (List Char)}
    {next : List Argument} {r : Settings} (h : settings short s attached next = .ok r) :
    r.rest.length ≤ next.length := by
  cases attached with
  | none => exact bareSwitch_rest_length h
  | some value => exact attachedSwitch_rest_length h

/-- The request after one switch; none if the switch asks for help. -/
def Progress.set (p : Progress) : Switch × String → Option Progress
  | (.help, _) => none
  | (.grammar, value) => some { p with grammar := .ofValue value }
  | (.outline, _) => some { p with outline := true }
  | (.trace, _) => some { p with trace := true }

/-- What is asked for at the end of the arguments. Without a source, it is the standard
input. -/
def Progress.finish (p : Progress) : Invocation :=
  if p.extras.isEmpty then
    .request ⟨p.source.getD "-", p.grammar, p.outline, p.trace⟩
  else .misuse (.unrecognized p.extras.reverse)

/-- What the rest of the arguments asks for, after `p`. The source is the first argument that
is no switch. The separator belongs to the source next to it, and is taken by nothing if it
stands elsewhere. -/
def Progress.invocation (p : Progress) (arguments : List Argument) : Invocation :=
  match arguments with
  | [] => p.finish
  | ⟨text, .plain⟩ :: rest =>
    match p.source, rest with
    | none, ⟨_, .separator⟩ :: rest => { p with source := some text }.invocation rest
    | none, rest => { p with source := some text }.invocation rest
    | some _, rest => { p with extras := text :: p.extras }.invocation rest
  | ⟨text, .separator⟩ :: rest =>
    match p.source, rest with
    | none, [] => p.finish
    | none, a :: rest => { p with source := some a.text }.invocation rest
    | some _, rest => { p with extras := text :: p.extras }.invocation rest
  | ⟨text, .unknown⟩ :: rest => { p with extras := text :: p.extras }.invocation rest
  | ⟨_, .switch s short attached⟩ :: next =>
    match h : settings short s attached next with
    | .error m => .misuse m
    | .ok r =>
      match r.set.foldlM Progress.set p with
      | none => .help
      | some q =>
        have : r.rest.length < next.length + 1 := Nat.lt_succ_of_le (settings_rest_length h)
        q.invocation r.rest
termination_by arguments.length
decreasing_by all_goals simp only [List.length_cons, wfParam]; omega

/-- What a list of arguments asks for. -/
def invocation (arguments : List String) : Invocation :=
  match classify arguments with
  | .error m => .misuse m
  | .ok arguments => Progress.invocation ⟨none, .standard, false, false, []⟩ arguments

end Scriptlet.CommandLine
