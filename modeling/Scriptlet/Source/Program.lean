import Scriptlet.Source.Error
import Scriptlet.Source.Reading

/-!
# From Text to Program

`program` turns a source text into the block of its statements. The text is cut into tokens,
the tokens are read one by one, and the first that cannot stand where it does is the error.
A bad character is an error only if every token before it can stand, and the end of the text
only if every token can. In a text that is a program, the first integer literal with too many
digits is the error.
-/

namespace Scriptlet.Source

open Scriptlet.Text (digitLimit)

/-- The reading after all tokens of a scan, if they begin a program and no bad character
follows them. -/
def Scan.reading (s : Scan) : Except SyntaxError Reading :=
  match Reading.start.readAll s.lexemes with
  | .error x => .error (.unexpectedToken x.token x.position)
  | .ok r =>
    match s.bad with
    | some bad => .error (.unexpectedCharacter bad.char bad.position)
    | none => .ok r

/-- The statements of a scanned program. -/
def Scan.statements (s : Scan) : Except SyntaxError (List Node) :=
  s.reading.bind fun r =>
    match r.finish? with
    | some statements => .ok statements
    | none => .error .unexpectedEnd

/-- The line a program begins on: that of its first token, or the first if it has none. -/
def Scan.line (s : Scan) : Int :=
  match s.lexemes with
  | [] => 1
  | x :: _ => x.line

/-- The number of digits of a token that is an integer literal with too many. -/
def Token.oversize? : Token → Option Nat
  | .integer digits => if digitLimit < digits.length then some digits.length else none
  | _ => none

/-- The program that a text is: the block of its statements. -/
def program (source : String) : Except SourceError Node :=
  let s := scan source.toList
  match s.statements with
  | .error e => .error (.syntaxError e)
  | .ok statements =>
    match s.lexemes.findSome? fun x => x.token.oversize? with
    | some digits => .error (.oversizedInteger digits)
    | none => .ok (.block statements s.line)

end Scriptlet.Source
