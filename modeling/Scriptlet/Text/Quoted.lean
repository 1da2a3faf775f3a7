import Scriptlet.Text.Printable

/-!
# Quoted Text

The written form of a piece of text between quote marks, in which every character that does
not print, the backslash and the mark itself are escaped. It is how names, strings and
offending tokens are quoted in messages, outlines and descriptions.

The mark is the apostrophe, unless the text holds an apostrophe and no double quote. A line
feed, a carriage return and a tab have short escapes; every other unprintable character is
written by its code point in two, four or eight hexadecimal digits.

## Main results

* `quote_eq`: a quoted text is its escaped characters between two equal marks.
* `escape_of_isPrintable`: a printable character that is neither the mark nor a backslash
  stands for itself.
-/

namespace Scriptlet.Text

/-- The apostrophe, the usual quote mark. -/
def apostrophe : Char := '\x27'

/-- The double quote, the mark of text that holds an apostrophe. -/
def doubleQuote : Char := '\x22'

/-- The backslash, which opens every escape. -/
def backslash : Char := '\x5c'

/-- A number in hexadecimal, padded with zeros to a width that is enough for it. -/
def hexadecimal (width n : Nat) : List Char :=
  (List.range width).reverse.map fun place => Nat.digitChar (n / Nat.pow 16 place % 16)

/-- The letter that announces a code point, and the number of digits that follow it: the
narrowest of three widths that the code point fits in. -/
def codeForm (n : Nat) : Char × Nat :=
  if n < 0x100 then ('x', 2) else if n < 0x10000 then ('u', 4) else ('U', 8)

/-- A character written by its code point. -/
def codeEscape (c : Char) : List Char :=
  let (letter, width) := codeForm c.toNat
  backslash :: letter :: hexadecimal width c.toNat

/-- A character as it stands between two quote marks. -/
def escape (mark c : Char) : List Char :=
  if c = mark ∨ c = backslash then [backslash, c]
  else if c = '\n' then [backslash, 'n']
  else if c = '\r' then [backslash, 'r']
  else if c = '\t' then [backslash, 't']
  else if isPrintable c then [c]
  else codeEscape c

/-- The mark for a text: the apostrophe, unless that alone of the two marks occurs in it. -/
def quoteMark (cs : List Char) : Char :=
  if apostrophe ∈ cs ∧ doubleQuote ∉ cs then doubleQuote else apostrophe

/-- The characters of a quoted text. -/
def quoteChars (cs : List Char) : List Char :=
  quoteMark cs :: cs.flatMap (escape (quoteMark cs)) ++ [quoteMark cs]

/-- A text between quote marks, escaped. -/
def quote (s : String) : String :=
  String.ofList (quoteChars s.toList)

/-- Padding makes every number as wide as asked. -/
theorem length_hexadecimal (width n : Nat) : (hexadecimal width n).length = width := by
  simp [hexadecimal]

/-- Every code point fits in the width that is chosen for it. -/
theorem toNat_lt_codeForm (c : Char) : c.toNat < Nat.pow 16 (codeForm c.toNat).2 := by
  have : c.toNat < 0x110000 := by
    rcases c.valid with h | h
    · exact Nat.lt_trans h (by decide)
    · exact h.2
  unfold codeForm
  split
  · simp only [Nat.pow_eq, Nat.reducePow]
    omega
  · split <;> simp only [Nat.pow_eq, Nat.reducePow] <;> omega

/-- A quoted text is its escaped characters between two equal marks. -/
theorem quote_eq (s : String) :
    (quote s).toList = quoteMark s.toList ::
      s.toList.flatMap (escape (quoteMark s.toList)) ++ [quoteMark s.toList] := by
  simp [quote, quoteChars]

/-- A printable character that is neither the mark nor a backslash stands for itself. -/
theorem escape_of_isPrintable {mark c : Char} (hm : c ≠ mark) (hb : c ≠ backslash)
    (hp : isPrintable c = true) : escape mark c = [c] := by
  have hn : c ≠ '\n' := by rintro rfl; exact absurd hp (by decide)
  have hr : c ≠ '\r' := by rintro rfl; exact absurd hp (by decide)
  have ht : c ≠ '\t' := by rintro rfl; exact absurd hp (by decide)
  simp [escape, hm, hb, hn, hr, ht, hp]

/-- Whether a text is quoted with apostrophes depends on nothing but which of the two marks
occur in it. -/
theorem quoteMark_eq_apostrophe_iff (cs : List Char) :
    quoteMark cs = apostrophe ↔ apostrophe ∈ cs → doubleQuote ∈ cs := by
  have : doubleQuote ≠ apostrophe := by decide
  by_cases h : apostrophe ∈ cs <;> by_cases g : doubleQuote ∈ cs <;>
    simp [quoteMark, h, g, this]

end Scriptlet.Text
