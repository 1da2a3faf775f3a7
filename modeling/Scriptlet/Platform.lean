import Scriptlet.Eval.Stack
import Scriptlet.Source.Program

/-!
# Platforms

A text is executed on a platform, which says how deep things may nest. Evaluations nest on its
stack up to its limit. Before that, the text is made a program, which goes through all of it at its
own depth: what nests too deeply for that is not run at all.

## Main definitions

* `Platform`: what a text is executed on.
* `Platform.parse`: the program that a text is there.
* `Platform.standard`: the platform that programs are executed on unless another one is known.
-/

namespace Scriptlet

/-- What a text is executed on. -/
structure Platform where
  /-- What everything in an evaluation takes. -/
  stack : Stack
  /-- The levels that the evaluation of a program may nest to. -/
  limit : Nat
  /-- Whether there is room to make a program of the text that has these tokens. -/
  lowers : (tokens : List String) → Bool

/-- Why no program is made of a text. -/
inductive NoProgram
  /-- The text is no program. -/
  | refused (e : Source.SourceError)
  /-- The text is no program by another grammar, which reports this. -/
  | rejected (report : String)
  /-- Another grammar cannot be used on the text: an error of some kind. -/
  | failed (kind message : String)
  /-- The text nests too deeply. -/
  | tooDeep
deriving DecidableEq, Repr

/-- The texts of the tokens in a source text. -/
def Source.tokenTexts (source : String) : List String :=
  (scan source.toList).lexemes.map fun x => x.token.text

namespace Platform

/-- The platform on which calls of `print` are noted or not. -/
def tracing (on : Platform) (traced : Bool) : Platform :=
  { on with stack := on.stack.tracing traced }

/-- The program that a text is. What is wrong with its tokens is seen before there is a program; an
integer with too many digits, only when one is made. -/
def parse (on : Platform) (source : String) : Except NoProgram Node :=
  match Source.program source with
  | .error (.syntaxError e) => .error (.refused (.syntaxError e))
  | .error e => .error (if on.lowers (Source.tokenTexts source) then .refused e else .tooDeep)
  | .ok program => if on.lowers (Source.tokenTexts source) then .ok program else .error .tooDeep

section

variable {on : Platform} {source : String}

/-- A trace does not change what a text is. -/
@[simp] theorem parse_tracing (on : Platform) (traced : Bool) (source : String) :
    (on.tracing traced).parse source = on.parse source := rfl

/-- A text is a program on a platform if it is one, and there is room to make it. -/
theorem parse_eq_ok_iff {program : Node} : on.parse source = .ok program ↔
    Source.program source = .ok program ∧ on.lowers (Source.tokenTexts source) = true := by
  rw [parse]
  cases Source.program source with
  | error e => cases e <;> simp
  | ok p =>
      cases on.lowers (Source.tokenTexts source) <;> simp

/-- What is wrong with the tokens of a text is seen whether there is room or not. -/
theorem parse_of_syntaxError {e : Source.SyntaxError}
    (h : Source.program source = .error (.syntaxError e)) :
    on.parse source = .error (.refused (.syntaxError e)) := by
  rw [parse, h]

end

end Platform

/-! ### The standard platform -/

namespace Platform

/-- The number of tokens that any text may have, however it nests. -/
def easyTokens : Nat := 480

/-- The height up to which a program is made. -/
def loweredHeight : Nat := 480

/-- The platform that programs are executed on unless another one is known. -/
def standard : Platform where
  stack := .standard
  limit := 9990
  lowers tokens :=
    tokens.length ≤ easyTokens ||
      match Source.program (" ".intercalate tokens) with
      | .ok program => program.height ≤ loweredHeight
      | .error _ => true

/-- A text of few tokens nests no deeper than a program may that is made. -/
theorem lowers_standard {tokens : List String} (h : tokens.length ≤ easyTokens) :
    standard.lowers tokens = true := by
  simp [standard, h]

/-- A program of few tokens is the same on the standard platform. -/
theorem parse_standard {source : String} {program : Node}
    (hprogram : Source.program source = .ok program)
    (hfew : (Source.tokenTexts source).length ≤ easyTokens) :
    standard.parse source = .ok program :=
  parse_eq_ok_iff.mpr ⟨hprogram, lowers_standard hfew⟩

end Platform

end Scriptlet
