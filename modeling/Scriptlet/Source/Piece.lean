import Scriptlet.Source.Token
import Scriptlet.Text.Position

/-!
# Cutting a Text into Pieces

A source text is cut from left to right into *pieces*: tokens, runs of blanks, and comments.
Each piece is the longest that can start where it starts, except that a block comment ends
at the first `*/` after its opening. Where no piece can start stands a *bad character*, and
the cutting stops there; the reader reports it only if it gets that far.

Names, digits and blanks are ASCII. A `/*` that is never closed is the operator `/` and then
the operator `*`. A string literal ends on the line it starts on, and a quote mark that opens
none is a bad character.

## Main definitions

* `firstPiece?`: the piece a text starts with, and the text after it.
* `pieces`: all pieces up to the end or the first bad character, and what is left.
* `scan`: the tokens of a text with their positions, and the bad character, if any.

## Main results

* `firstPiece?_append`: a piece and what follows it are the text that was cut.
* `pieces_append`: the pieces and what is left are the whole text.
-/

namespace Scriptlet.Source

open Scriptlet.Text (Position)

/-! ### Classes of characters -/

/-- Whether a character separates tokens: the space, the tab, the form feed, the carriage
return and the line feed do. -/
def isBlank (c : Char) : Bool :=
  c = ' ' || c = '\t' || c = '\x0c' || c = '\r' || c = '\n'

/-- Whether a name may start with a character. -/
def startsName (c : Char) : Bool :=
  c.isAlpha || c = '_' || c = '$'

/-- Whether a name may go on with a character. -/
def continuesName (c : Char) : Bool :=
  startsName c || c.isDigit

/-! ### Pieces -/

/-- A piece of source text. -/
inductive Piece
  /-- A token. -/
  | token (t : Token)
  /-- A run of blanks. -/
  | blank (text : List Char)
  /-- A comment, its delimiters included. -/
  | comment (text : List Char)
deriving DecidableEq, Repr

/-- The text of a piece. -/
def Piece.text : Piece → List Char
  | token t => t.text.toList
  | blank text | comment text => text

/-- The token that a run of name characters is: a keyword if the whole run spells one. -/
def word (cs : List Char) : Token :=
  match Keyword.ofText? (String.ofList cs) with
  | some k => .keyword k
  | none => .name (String.ofList cs)

/-- Splits the text after an opening quote mark into the literal's body and what follows the
closing mark. A backslash takes the next character with it, whatever it is but a line feed. -/
def splitLiteral (mark : Quote) : List Char → Option (List Char × List Char)
  | [] => none
  | [c] => if c = mark.char then some ([], []) else none
  | c :: d :: rest =>
    if c = mark.char then some ([], d :: rest)
    else if c = '\n' then none
    else if c = '\\' then
      if d = '\n' then none
      else (splitLiteral mark rest).map fun (body, after) => (c :: d :: body, after)
    else (splitLiteral mark (d :: rest)).map fun (body, after) => (c :: body, after)

/-- Splits the text after `/*` behind the first `*/`. -/
def splitComment : List Char → Option (List Char × List Char)
  | [] => none
  | [_] => none
  | c :: d :: rest =>
    if c = '*' ∧ d = '/' then some ([c, d], rest)
    else (splitComment (d :: rest)).map fun (body, after) => (c :: body, after)

/-- The string literal whose opening mark has just been passed. -/
def literalPiece? (mark : Quote) (cs : List Char) : Option (Piece × List Char) :=
  (splitLiteral mark cs).map fun (body, after) =>
    (.token (.string mark (String.ofList body)), after)

/-- What starts with a slash that has just been passed: a comment, or the operator. -/
def slashPiece (cs : List Char) : Piece × List Char :=
  match cs with
  | '/' :: rest =>
    (.comment ('/' :: '/' :: rest.takeWhile (· ≠ '\n')), rest.dropWhile (· ≠ '\n'))
  | '*' :: rest =>
    match splitComment rest with
    | some (body, after) => (.comment ('/' :: '*' :: body), after)
    | none => (.token (.operator .divide), cs)
  | _ => (.token (.operator .divide), cs)

/-- The operator or mark of punctuation that starts with `c`; the slash is not among them. -/
def symbol? (c : Char) (cs : List Char) : Option (Token × List Char) :=
  match c, cs with
  | '=', '=' :: rest => some (.operator .equal, rest)
  | '!', '=' :: rest => some (.operator .unequal, rest)
  | '<', '=' :: rest => some (.operator .lessEqual, rest)
  | '>', '=' :: rest => some (.operator .greaterEqual, rest)
  | '=', _ => some (.punctuation .assign, cs)
  | '<', _ => some (.operator .less, cs)
  | '>', _ => some (.operator .greater, cs)
  | '+', _ => some (.operator .plus, cs)
  | '-', _ => some (.operator .minus, cs)
  | '*', _ => some (.operator .times, cs)
  | '%', _ => some (.operator .remainder, cs)
  | ';', _ => some (.punctuation .semicolon, cs)
  | ',', _ => some (.punctuation .comma, cs)
  | '.', _ => some (.punctuation .dot, cs)
  | ':', _ => some (.punctuation .colon, cs)
  | '(', _ => some (.punctuation .openParen, cs)
  | ')', _ => some (.punctuation .closeParen, cs)
  | '\x7b', _ => some (.punctuation .openBrace, cs)
  | '\x7d', _ => some (.punctuation .closeBrace, cs)
  | _, _ => none

/-- The piece a text starts with, and the text after it. -/
def firstPiece? : List Char → Option (Piece × List Char)
  | [] => none
  | c :: cs =>
    if isBlank c then some (.blank (c :: cs.takeWhile isBlank), cs.dropWhile isBlank)
    else if startsName c then
      some (.token (word (c :: cs.takeWhile continuesName)), cs.dropWhile continuesName)
    else if c.isDigit then
      some (.token (.integer (String.ofList (c :: cs.takeWhile Char.isDigit))),
        cs.dropWhile Char.isDigit)
    else if c = Quote.single.char then literalPiece? .single cs
    else if c = Quote.double.char then literalPiece? .double cs
    else if c = '/' then some (slashPiece cs)
    else (symbol? c cs).map fun (t, after) => (.token t, after)

/-! ### A piece is what was cut off -/

/-- The characters of a word are its spelling. -/
theorem text_word (cs : List Char) : (word cs).text.toList = cs := by
  unfold word
  split
  next k h =>
    have := Keyword.ofText?_eq_some_iff.mp h
    simp [Token.text, this]
  next => simp [Token.text]

/-- The body of a literal, the closing mark and what follows are the text that was split. -/
theorem splitLiteral_append {mark : Quote} {cs body after : List Char}
    (h : splitLiteral mark cs = some (body, after)) : body ++ mark.char :: after = cs := by
  fun_induction splitLiteral mark cs generalizing body after with
  | case1 => simp at h
  | case2 => simp_all
  | case3 => simp at h
  | case4 => simp_all
  | case5 => simp at h
  | case6 => simp at h
  | case7 _ _ _ _ _ ih =>
    simp only [Option.map_eq_some_iff, Prod.mk.injEq] at h
    obtain ⟨⟨b, a⟩, hs, rfl, rfl⟩ := h
    simp [ih hs]
  | case8 _ _ _ _ _ _ ih =>
    simp only [Option.map_eq_some_iff, Prod.mk.injEq] at h
    obtain ⟨⟨b, a⟩, hs, rfl, rfl⟩ := h
    simp [ih hs]

/-- The end of a comment and what follows are the text that was split. -/
theorem splitComment_append {cs body after : List Char}
    (h : splitComment cs = some (body, after)) : body ++ after = cs := by
  fun_induction splitComment cs generalizing body after with
  | case1 => simp at h
  | case2 => simp at h
  | case3 _ _ _ hc =>
    obtain ⟨rfl, rfl⟩ := hc
    simp only [Option.some.injEq, Prod.mk.injEq] at h
    obtain ⟨rfl, rfl⟩ := h
    rfl
  | case4 _ _ _ _ ih =>
    simp only [Option.map_eq_some_iff, Prod.mk.injEq] at h
    obtain ⟨⟨b, a⟩, hs, rfl, rfl⟩ := h
    simp [ih hs]

/-- What is cut off as a literal, and what is left. -/
theorem literalPiece?_append {mark : Quote} {cs : List Char} {p : Piece} {after : List Char}
    (h : literalPiece? mark cs = some (p, after)) : p.text ++ after = mark.char :: cs := by
  simp only [literalPiece?, Option.map_eq_some_iff, Prod.mk.injEq] at h
  obtain ⟨⟨b, a⟩, hs, rfl, rfl⟩ := h
  simp [Piece.text, Token.text, ← splitLiteral_append hs]

/-- What is cut off behind a slash, and what is left. -/
theorem slashPiece_append (cs : List Char) :
    (slashPiece cs).1.text ++ (slashPiece cs).2 = '/' :: cs := by
  unfold slashPiece
  split
  · simp [Piece.text]
  · split
    next h => simp [Piece.text, ← splitComment_append h]
    next => rfl
  · rfl

/-- What is cut off as a mark or an operator, and what is left. -/
theorem symbol?_append {c : Char} {cs after : List Char} {t : Token}
    (h : symbol? c cs = some (t, after)) : t.text.toList ++ after = c :: cs := by
  unfold symbol? at h
  split at h <;> simp only [Option.some.injEq, Prod.mk.injEq, reduceCtorEq] at h <;>
    obtain ⟨rfl, rfl⟩ := h <;> rfl

/-- A piece and what follows it are the text that was cut. -/
theorem firstPiece?_append {cs after : List Char} {p : Piece}
    (h : firstPiece? cs = some (p, after)) : p.text ++ after = cs := by
  cases cs with
  | nil => simp [firstPiece?] at h
  | cons c cs =>
    simp only [firstPiece?] at h
    split at h
    · simp only [Option.some.injEq, Prod.mk.injEq] at h
      obtain ⟨rfl, rfl⟩ := h
      simp [Piece.text]
    split at h
    · simp only [Option.some.injEq, Prod.mk.injEq] at h
      obtain ⟨rfl, rfl⟩ := h
      simp [Piece.text, text_word]
    split at h
    · simp only [Option.some.injEq, Prod.mk.injEq] at h
      obtain ⟨rfl, rfl⟩ := h
      simp [Piece.text, Token.text]
    split at h
    next hc => rw [hc]; exact literalPiece?_append h
    split at h
    next hc => rw [hc]; exact literalPiece?_append h
    split at h
    next hc =>
      rw [hc, ← slashPiece_append cs]
      simp only [Option.some.injEq] at h
      rw [h]
    next =>
      simp only [Option.map_eq_some_iff, Prod.mk.injEq] at h
      obtain ⟨⟨t, a⟩, hs, rfl, rfl⟩ := h
      exact symbol?_append hs

/-! ### Cutting makes progress -/

/-- A literal leaves no more than there was. -/
theorem literalPiece?_length {mark : Quote} {cs after : List Char} {p : Piece}
    (h : literalPiece? mark cs = some (p, after)) : after.length ≤ cs.length := by
  simp only [literalPiece?, Option.map_eq_some_iff, Prod.mk.injEq] at h
  obtain ⟨⟨b, a⟩, hs, rfl, rfl⟩ := h
  simp [← splitLiteral_append hs]
  omega

/-- Nor does what begins with a slash. -/
theorem slashPiece_length (cs : List Char) : (slashPiece cs).2.length ≤ cs.length := by
  unfold slashPiece
  split
  next rest =>
    have := (List.dropWhile_suffix (l := rest) (· ≠ '\n')).length_le
    simp only [List.length_cons]
    omega
  · split
    next h => simp [← splitComment_append h]; omega
    next => exact Nat.le_refl _
  · exact Nat.le_refl _

/-- Nor does a mark or an operator. -/
theorem symbol?_length {c : Char} {cs after : List Char} {t : Token}
    (h : symbol? c cs = some (t, after)) : after.length ≤ cs.length := by
  unfold symbol? at h
  split at h <;> simp only [Option.some.injEq, Prod.mk.injEq, reduceCtorEq] at h <;>
    obtain ⟨rfl, rfl⟩ := h <;> simp

/-- A piece takes at least one character off the text. -/
theorem firstPiece?_length {cs after : List Char} {p : Piece}
    (h : firstPiece? cs = some (p, after)) : after.length < cs.length := by
  cases cs with
  | nil => simp [firstPiece?] at h
  | cons c cs =>
    have drop (f : Char → Bool) : (cs.dropWhile f).length ≤ cs.length :=
      (List.dropWhile_suffix f).length_le
    rw [List.length_cons, Nat.lt_succ_iff]
    simp only [firstPiece?] at h
    repeat' split at h
    · exact (Prod.mk.inj (Option.some.inj h)).2 ▸ drop _
    · exact (Prod.mk.inj (Option.some.inj h)).2 ▸ drop _
    · exact (Prod.mk.inj (Option.some.inj h)).2 ▸ drop _
    · exact literalPiece?_length h
    · exact literalPiece?_length h
    · have := slashPiece_length cs
      rwa [Option.some.inj h] at this
    · simp only [Option.map_eq_some_iff, Prod.mk.injEq] at h
      obtain ⟨⟨t, a⟩, hs, -, rfl⟩ := h
      exact symbol?_length hs

/-! ### All pieces of a text -/

/-- The pieces of a text up to its end or its first bad character, and what is left. -/
def pieces (cs : List Char) : List Piece × List Char :=
  match h : firstPiece? cs with
  | none => ([], cs)
  | some (p, after) =>
    have : after.length < cs.length := firstPiece?_length h
    (p :: (pieces after).1, (pieces after).2)
termination_by cs.length

/-- The pieces and what is left are the whole text. -/
theorem pieces_append (cs : List Char) :
    (pieces cs).1.flatMap Piece.text ++ (pieces cs).2 = cs := by
  fun_induction pieces cs with
  | case1 => rfl
  | case2 cs p after h _ ih => rw [List.flatMap_cons, List.append_assoc, ih, firstPiece?_append h]

/-- What is left starts with no piece: it is empty, or begins with a bad character. -/
theorem firstPiece?_rest (cs : List Char) : firstPiece? (pieces cs).2 = none := by
  fun_induction pieces cs with
  | case1 _ h => exact h
  | case2 _ _ _ _ _ ih => exact ih

/-! ### Tokens and their positions -/

/-- A token and the place of its first character. -/
structure Lexeme where
  /-- The token. -/
  token : Token
  /-- Where it starts. -/
  position : Position
deriving DecidableEq, Repr

/-- The line a lexeme starts on, as nodes carry it. -/
def Lexeme.line (x : Lexeme) : Int := x.position.line

/-- The lexemes among pieces of which the first starts at `p`, and the place behind the
last. -/
def lexemes (p : Position) : List Piece → List Lexeme × Position
  | [] => ([], p)
  | piece :: rest =>
    let (found, finish) := lexemes (p.after piece.text) rest
    match piece with
    | .token t => (⟨t, p⟩ :: found, finish)
    | .blank _ | .comment _ => (found, finish)

/-- A character no piece starts with, and its place. -/
structure BadCharacter where
  /-- The character. -/
  char : Char
  /-- Where it stands. -/
  position : Position
deriving DecidableEq, Repr

/-- What cutting a text into pieces has found. -/
structure Scan where
  /-- The tokens, in order. -/
  lexemes : List Lexeme
  /-- The character that stopped the cutting, if one did. -/
  bad : Option BadCharacter
deriving DecidableEq, Repr

/-- The tokens of a text up to its end or its first bad character. -/
def scan (source : List Char) : Scan :=
  let (cut, left) := pieces source
  let (found, finish) := lexemes .start cut
  { lexemes := found, bad := left.head?.map fun c => ⟨c, finish⟩ }

/-- The place behind the last piece is the place after all of their text. -/
theorem lexemes_finish (p : Position) (ps : List Piece) :
    (lexemes p ps).2 = p.after (ps.flatMap Piece.text) := by
  induction ps generalizing p with
  | nil => rfl
  | cons piece rest ih =>
    cases piece <;> simp [lexemes, ih, Position.after_append]

end Scriptlet.Source
