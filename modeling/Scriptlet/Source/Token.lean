import Scriptlet.Operator

/-!
# Tokens

The units a source text is read in once blanks and comments are left out: keywords, names,
integer and string literals, operators and punctuation. A token keeps its exact spelling
(`Token.text`), since error messages quote it, and a string literal keeps its body as written
(`unescape` gives the text it denotes).

## Main results

* `Keyword.ofText?_eq_some_iff`: a text is a keyword exactly when it is the keyword's whole
  spelling.
* `unescape_of_notMem`: a body without backslashes denotes itself.
-/

namespace Scriptlet.Source

/-- A word that is never a name. -/
inductive Keyword
  | wordVar
  | wordLet
  | wordConst
  | wordReturn
  | wordIf
  | wordElse
  | wordFunction
deriving DecidableEq, Repr

namespace Keyword

/-- The keyword's spelling. -/
def text : Keyword → String
  | wordVar => "var"
  | wordLet => "let"
  | wordConst => "const"
  | wordReturn => "return"
  | wordIf => "if"
  | wordElse => "else"
  | wordFunction => "function"

/-- Every keyword. -/
def all : List Keyword :=
  [wordVar, wordLet, wordConst, wordReturn, wordIf, wordElse, wordFunction]

/-- The keyword that a text spells, if it spells one. -/
def ofText? (s : String) : Option Keyword :=
  all.find? fun k => k.text == s

/-- A text is a keyword exactly when it is the keyword's whole spelling. -/
theorem ofText?_eq_some_iff {s : String} {k : Keyword} : ofText? s = some k ↔ k.text = s := by
  constructor
  · intro h
    simpa using List.find?_some h
  · rintro rfl
    cases k <;> decide

end Keyword

/-- A mark of punctuation. -/
inductive Punctuation
  | semicolon
  | comma
  | dot
  | colon
  | assign
  | openParen
  | closeParen
  | openBrace
  | closeBrace
deriving DecidableEq, Repr

/-- The mark's spelling. -/
def Punctuation.text : Punctuation → String
  | semicolon => ";"
  | comma => ","
  | dot => "."
  | colon => ":"
  | assign => "="
  | openParen => "("
  | closeParen => ")"
  | openBrace => "\x7b"
  | closeBrace => "\x7d"

/-- The mark at both ends of a string literal. -/
inductive Quote
  | single
  | double
deriving DecidableEq, Repr

/-- The mark as a character. -/
def Quote.char : Quote → Char
  | single => '\x27'
  | double => '\x22'

/-- A unit of source text. -/
inductive Token
  /-- A keyword. -/
  | keyword (word : Keyword)
  /-- A name. -/
  | name (text : String)
  /-- An integer literal, by its digits. -/
  | integer (digits : String)
  /-- A string literal, by its mark and what is written between the marks. -/
  | string (mark : Quote) (body : String)
  /-- An operator. -/
  | operator (op : Operator)
  /-- A mark of punctuation. -/
  | punctuation (mark : Punctuation)
deriving DecidableEq, Repr

/-- The token as it is spelled in the source. -/
def Token.text : Token → String
  | keyword k => k.text
  | name s => s
  | integer s => s
  | string q s => String.singleton q.char ++ s ++ String.singleton q.char
  | operator o => o.symbol
  | punctuation p => p.text

/-! ### Escapes in string literals -/

/-- The character that a backslash and `c` denote: four letters stand for control
characters, and any other character for itself. -/
def escaped (c : Char) : Char :=
  if c = 'n' then '\n'
  else if c = 't' then '\t'
  else if c = 'r' then '\r'
  else if c = '0' then '\x00'
  else c

/-- The characters that the body of a string literal denotes. A backslash that ends the body
stands for itself; no literal has one. -/
def unescape : List Char → List Char
  | [] => []
  | [c] => [c]
  | c :: d :: rest =>
    if c = '\\' then escaped d :: unescape rest else c :: unescape (d :: rest)

/-- A body without backslashes denotes itself. -/
theorem unescape_of_notMem {cs : List Char} (h : '\\' ∉ cs) : unescape cs = cs := by
  induction cs with
  | nil => rfl
  | cons c rest ih =>
    cases rest with
    | nil => rfl
    | cons d rest =>
      have hc : c ≠ '\\' := by rintro rfl; simp at h
      simp only [unescape, if_neg hc]
      rw [ih (fun m => h (List.mem_cons_of_mem _ m))]

/-- The text that a string literal with the given body denotes. -/
def literalText (body : String) : String :=
  String.ofList (unescape body.toList)

end Scriptlet.Source
