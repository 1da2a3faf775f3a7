/-!
# Decimal Numerals

Integers have any size, but text and integers are turned into one another only up to
`digitLimit` decimal digits. `numeral?` writes an integer within the limit; `ofDigits` reads
the digits of an integer literal.

## Main results

* `numeral?_eq_some_iff`: an integer has a numeral exactly when it has at most `digitLimit`
  digits.
* `ofDigits_append_singleton`: a further digit multiplies the number by ten and adds itself.
-/

namespace Scriptlet.Text

/-- The most decimal digits that are read or written. -/
def digitLimit : Nat := 4300

/-- The least number that has more than `digitLimit` digits. -/
def numeralBound : Nat := Nat.pow 10 digitLimit

/-- The decimal numeral of an integer, with a minus sign before a negative one; none when it
would have more than `digitLimit` digits. -/
def numeral? (n : Int) : Option String :=
  if n.natAbs < numeralBound then some (toString n) else none

/-- What is said of an integer with too many digits. Their number is known where one is read,
and not where one is to be written. -/
def oversizeReport (digits : Option Nat) : String :=
  "Exceeds the limit (" ++ toString digitLimit ++ " digits) for integer string conversion" ++
    (match digits with
      | some n => ": value has " ++ toString n ++ " digits"
      | none => "") ++
    "; use sys.set_int_max_str_digits() to increase the limit"

/-- The value of a decimal digit. -/
def digitValue (c : Char) : Nat := c.toNat - '0'.toNat

/-- The number that decimal digits write, the most significant first. -/
def ofDigits (cs : List Char) : Nat :=
  cs.foldl (fun n c => 10 * n + digitValue c) 0

/-- An integer below the bound has a numeral. -/
theorem numeral?_of_lt {n : Int} (h : n.natAbs < numeralBound) : numeral? n = some (toString n) :=
  if_pos h

/-- An integer has a numeral exactly when it has at most `digitLimit` digits. -/
theorem numeral?_eq_some_iff {n : Int} {s : String} :
    numeral? n = some s ↔ n.natAbs < Nat.pow 10 digitLimit ∧ toString n = s := by
  unfold numeral? numeralBound
  generalize Nat.pow 10 digitLimit = bound
  by_cases h : n.natAbs < bound
  · rw [if_pos h]
    simp [h]
  · rw [if_neg h]
    simp [h]

/-- A further digit multiplies the number by ten and adds itself. -/
theorem ofDigits_append_singleton (cs : List Char) (c : Char) :
    ofDigits (cs ++ [c]) = 10 * ofDigits cs + digitValue c := by
  simp [ofDigits]

end Scriptlet.Text
