import Scriptlet.Source.Piece
import Scriptlet.Text.Numeral
import Scriptlet.Text.Quoted

/-!
# Errors in a Source Text

A text that is no program has a first token that cannot stand where it does, or a character
that no token starts with, or it ends too early. A text that is a program may still hold an
integer literal with more digits than are read.
-/

namespace Scriptlet.Source

open Scriptlet.Text (Position located oversizeReport quote)

/-- Why a text is not a program. -/
inductive SyntaxError
  /-- No program has this token here. -/
  | unexpectedToken (token : Token) (position : Position)
  /-- No token starts with this character. -/
  | unexpectedCharacter (char : Char) (position : Position)
  /-- No program ends here. -/
  | unexpectedEnd
deriving DecidableEq, Repr

namespace SyntaxError

/-- The error without its place. -/
def message : SyntaxError → String
  | unexpectedToken token _ => "unexpected token " ++ quote token.text
  | unexpectedCharacter char _ => "unexpected character " ++ quote (String.singleton char)
  | unexpectedEnd => "unexpected end of input"

/-- Where the error is; the end of a text has no place. -/
def position? : SyntaxError → Option Position
  | unexpectedToken _ position | unexpectedCharacter _ position => some position
  | unexpectedEnd => none

/-- The error with its place. -/
def text (e : SyntaxError) : String :=
  located e.message (e.position?.map fun p => p.line) (e.position?.map fun p => p.column)

end SyntaxError

/-- Why a text cannot be made a program. -/
inductive SourceError
  /-- It is not one. -/
  | syntaxError (e : SyntaxError)
  /-- It is one, but an integer literal has this many digits, which is too many. -/
  | oversizedInteger (digits : Nat)
deriving DecidableEq, Repr

/-- The error, with its place if it has one. -/
def SourceError.text : SourceError → String
  | syntaxError e => e.text
  | oversizedInteger digits =>
    "Error trying to process rule \x22number\x22:\n\n" ++ oversizeReport (some digits)

end Scriptlet.Source
