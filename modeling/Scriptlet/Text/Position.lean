/-!
# Positions in a Text

Lines and columns count from one. A line feed ends a line; every other code point, a tab or
a carriage return included, takes one column.

A message may carry the place it speaks of: `located` writes the line, and the column where
it is known too, after the text. There it takes any integers, since a message may speak of a
place that no text has.

## Main results

* `Position.after_append`: the position after two texts is that of the second, started
  where the first ends.
-/

namespace Scriptlet.Text

/-- The place of a character in a text. -/
structure Position where
  /-- One more than the line feeds before the place. -/
  line : Nat
  /-- One more than the code points between the last line feed and the place. -/
  column : Nat
deriving DecidableEq, Repr

namespace Position

/-- The place of a text's first character. -/
def start : Position := ⟨1, 1⟩

/-- The place after a character that stands at `p`. -/
def next (p : Position) (c : Char) : Position :=
  if c = '\n' then ⟨p.line + 1, 1⟩ else ⟨p.line, p.column + 1⟩

/-- The place after a text that starts at `p`. -/
def after (p : Position) (text : List Char) : Position :=
  text.foldl next p

@[simp] theorem after_nil (p : Position) : p.after [] = p := rfl

@[simp] theorem after_cons (p : Position) (c : Char) (cs : List Char) :
    p.after (c :: cs) = (p.next c).after cs := rfl

/-- The position after two texts is that of the second, started where the first ends. -/
theorem after_append (p : Position) (s t : List Char) :
    p.after (s ++ t) = (p.after s).after t := by
  simp [after]

end Position

/-- A message followed by the line it speaks of, and the column where that is known. A
column without a line is not written. -/
def located (message : String) : (line column : Option Int) → String
  | none, _ => message
  | some line, none => message ++ " (line " ++ toString line ++ ")"
  | some line, some column =>
    message ++ " (line " ++ toString line ++ ", col " ++ toString column ++ ")"

end Scriptlet.Text
