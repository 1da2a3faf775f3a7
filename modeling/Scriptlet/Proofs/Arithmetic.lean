import Scriptlet.Proofs.Spacing
import Scriptlet.Proofs.WellFormed

/-!
# Arithmetic on Paper

A formula is built from integer literals with the five operators of arithmetic and with minus signs.
It has a value unless something in it is divided by zero, and it is written with parentheses at
least where two operators would be taken the other way: a minus sign binds tighter than a product,
a product tighter than a sum, and operators that bind alike go from left to right.

Value and writing are laid down here without regard to how programs are read and run; that the text
of a formula is read as what it should be is shown from the grammar. No two tokens of a formula that
stand next to one another run together, so it may be written with any blanks or none.

## Main definitions

* `Formula`, `Formula.value?`, `Formula.DividesByZero`: formulas and what they are worth.
* `Formula.Spells`: the tokens that a formula is written with.
* `Formula.Means`: the nodes that compute a formula, whatever their lines.

## Main results

* `Formula.value?_eq_none_iff`: only a division by zero has no value.
* `Formula.Spells.seamless`: the tokens of a formula may touch.
* `Formula.Spells.exists_row`: they are those of a tree, which means the formula.
-/

namespace Scriptlet.Source

open Scriptlet.Text (Position)

/-- An operator of arithmetic. -/
inductive Arithmetic
  | plus
  | minus
  | times
  | divide
  | remainder
deriving DecidableEq, Repr

namespace Arithmetic

/-- How the operator is written. -/
def operator : Arithmetic → Operator
  | plus => .plus
  | minus => .minus
  | times => .times
  | divide => .divide
  | remainder => .remainder

/-- What the operator makes of two integers; nothing is made of a division by zero. A quotient is
rounded toward zero, so its magnitude is that of the magnitudes, and what it leaves has the sign of
the dividend. -/
def compute? : Arithmetic → Int → Int → Option Int
  | plus, m, n => some (m + n)
  | minus, m, n => some (m - n)
  | times, m, n => some (m * n)
  | divide, m, n => if n = 0 then none else some (m.sign * n.sign * (m.natAbs / n.natAbs : Nat))
  | remainder, m, n => if n = 0 then none else some (m.sign * (m.natAbs % n.natAbs : Nat))

/-- Whether the second operand is a divisor. -/
def divides : Arithmetic → Bool
  | plus | minus | times => false
  | divide | remainder => true

/-- How tightly the operator binds: a product more tightly than a sum. -/
def rank : Arithmetic → Nat
  | plus | minus => 0
  | times | divide | remainder => 1

/-- A divisor must not be zero, and nothing else can go wrong. -/
theorem compute?_eq_none_iff {op : Arithmetic} {m n : Int} :
    op.compute? m n = none ↔ op.divides = true ∧ n = 0 := by
  cases op with
  | plus | minus | times => exact ⟨nofun, fun h => nomatch h.1⟩
  | divide | remainder =>
      rw [compute?, divides]
      simp

/-- Division of magnitudes, with the sign of both numbers. -/
theorem tdiv_eq_sign_mul (m n : Int) :
    m.tdiv n = m.sign * n.sign * (m.natAbs / n.natAbs : Nat) := by
  have hmagnitude : (m.tdiv n).natAbs = m.natAbs / n.natAbs := Int.natAbs_tdiv m n
  rw [← Int.sign_mul_natAbs (m.tdiv n), hmagnitude, Int.sign_tdiv]
  by_cases h : m.natAbs < n.natAbs
  · rw [Nat.div_eq_of_lt h, Int.natCast_zero, Int.mul_zero, Int.mul_zero]
  · rw [if_neg h]

/-- The remainder of magnitudes, with the sign of the first number. -/
theorem tmod_eq_sign_mul (m n : Int) : m.tmod n = m.sign * (m.natAbs % n.natAbs : Nat) := by
  rw [← Int.sign_mul_natAbs (m.tmod n), Int.natAbs_tmod, Int.sign_tmod]
  by_cases h : n ∣ m
  · rw [Nat.mod_eq_zero_of_dvd (Int.natAbs_dvd_natAbs.mpr h), Int.natCast_zero, Int.mul_zero,
      Int.mul_zero]
  · rw [if_neg h]

end Arithmetic

/-- A tree of integer literals, operators and minus signs. -/
inductive Formula
  /-- A literal with few enough digits. -/
  | numeral (digits : String) (h : (Token.integer digits).Readable)
  /-- A minus sign before a formula. -/
  | negative (a : Formula)
  /-- An operator between two formulas. -/
  | operation (op : Arithmetic) (a b : Formula)

namespace Formula

/-! ### Values -/

/-- The value of a formula; none if something in it is divided by zero. -/
def value? : Formula → Option Int
  | numeral digits _ => some (Nat.ofDigitChars 10 digits.toList 0)
  | negative a => a.value?.map fun m => -m
  | operation op a b => a.value?.bind fun m => b.value?.bind fun n => op.compute? m n

/-- Whether a part of a formula has zero for a divisor. -/
def DividesByZero : Formula → Prop
  | numeral _ _ => False
  | negative a => a.DividesByZero
  | operation op a b =>
    a.DividesByZero ∨ b.DividesByZero ∨ op.divides = true ∧ b.value? = some 0

/-- How deep operators and minus signs nest. -/
def height : Formula → Nat
  | numeral _ _ => 0
  | negative a => a.height + 1
  | operation _ a b => max a.height b.height + 1

/-- Only a division by zero has no value. -/
theorem value?_eq_none_iff {e : Formula} : e.value? = none ↔ e.DividesByZero := by
  induction e with
  | numeral => exact ⟨nofun, False.elim⟩
  | negative a ih =>
      rw [value?, Option.map_eq_none_iff]
      exact ih
  | operation op a b iha ihb =>
      rw [DividesByZero, ← iha, ← ihb, value?]
      cases a.value? with
      | none => simp
      | some m =>
          cases b.value? with
          | none => simp
          | some n => simpa using Arithmetic.compute?_eq_none_iff

/-! ### Writing -/

/-- The tokens that a formula may be written with where its operators must have some rank: any for a
sum, one for a factor, two behind a minus sign or as a second factor. Parentheses may stand
anywhere. -/
inductive Spells : Nat → Formula → List Token → Prop
  | numeral {r : Nat} {digits : String} (h : (Token.integer digits).Readable) :
      Spells r (numeral digits h) [.integer digits]
  | negative {r : Nat} {a : Formula} {ts : List Token} (ha : Spells 2 a ts) :
      Spells r (negative a) (.operator .minus :: ts)
  | operation {r : Nat} {op : Arithmetic} {a b : Formula} {ts us : List Token} (hr : r ≤ op.rank)
      (ha : Spells op.rank a ts) (hb : Spells (op.rank + 1) b us) :
      Spells r (operation op a b) (ts ++ .operator op.operator :: us)
  | parentheses {r : Nat} {e : Formula} {ts : List Token} (h : Spells 0 e ts) :
      Spells r e (.punctuation .openParen :: (ts ++ [.punctuation .closeParen]))

end Formula

/-! ### Tokens of a formula next to one another -/

/-- Whether a formula may begin with a token. -/
def Token.opensFormula : Token → Bool
  | .integer _ | .operator .minus | .punctuation .openParen => true
  | _ => false

/-- Whether a formula may end with a token. -/
def Token.closesFormula : Token → Bool
  | .integer _ | .punctuation .closeParen => true
  | _ => false

/-- Whether tokens can all be read, may touch, and begin and end as formulas do. -/
structure Seamless (ts : List Token) : Prop where
  readable : ∀ t ∈ ts, t.Readable
  touch : ts.IsChain Token.MayTouch
  opens : ∃ t ∈ ts.head?, t.opensFormula = true
  closes : ∃ t ∈ ts.getLast?, t.closesFormula = true

/-- A formula begins with a digit, a minus sign or a parenthesis. -/
theorem Token.head_of_opensFormula {u : Token} (hu : u.WellSpelled) (h : u.opensFormula = true) :
    ∀ c ∈ u.text.toList.head?, c.isDigit = true ∨ c = '-' ∨ c = '(' := by
  intro c hc
  cases u with
  | integer digits => exact .inl (hu.2 c (List.mem_of_mem_head? hc))
  | operator op =>
      cases op with
      | minus =>
          obtain rfl := Option.some.inj hc
          exact .inr (.inl rfl)
      | _ => cases h
  | punctuation mark =>
      cases mark with
      | openParen =>
          obtain rfl := Option.some.inj hc
          exact .inr (.inr rfl)
      | _ => cases h
  | keyword | name | string => cases h

/-- Behind an operator there is no slash and no asterisk. -/
theorem Arithmetic.mayTouch (op : Arithmetic) {u : Token} (hu : u.WellSpelled)
    (h : u.opensFormula = true) : (Token.operator op.operator).MayTouch u := by
  intro c hc
  cases op with
  | plus | minus | times | remainder => rfl
  | divide =>
      have hne : c ≠ '/' ∧ c ≠ '*' := by
        rcases Token.head_of_opensFormula hu h c hc with hdigit | rfl | rfl
        · constructor <;> (rintro rfl; cases hdigit)
        · decide
        · decide
      simpa [Token.endsBefore, operator] using hne

/-- Behind a number there is no digit. -/
theorem Token.mayTouch_of_closesFormula {t u : Token} (ht : t.closesFormula = true)
    (hu : ∀ c ∈ u.text.toList.head?, c.isDigit = false) : t.MayTouch u := by
  intro c hc
  cases t with
  | integer digits =>
      rw [endsBefore, hu c hc]
      rfl
  | punctuation mark =>
      cases mark with
      | closeParen => rfl
      | _ => cases ht
  | keyword | name | string | operator => cases ht

/-- No operator begins with a digit. -/
theorem Arithmetic.head_operator (op : Arithmetic) :
    ∀ c ∈ (Token.operator op.operator).text.toList.head?, c.isDigit = false := by
  intro c hc
  cases op <;> (obtain rfl := Option.some.inj hc; rfl)

/-- Nor does a parenthesis. -/
theorem head_closeParen :
    ∀ c ∈ (Token.punctuation .closeParen).text.toList.head?, c.isDigit = false := by
  intro c hc
  obtain rfl := Option.some.inj hc
  rfl

namespace Seamless

variable {ts us : List Token}

/-- A numeral is written without blanks. -/
theorem numeral {digits : String} (h : (Token.integer digits).Readable) :
    Seamless [.integer digits] where
  readable := List.forall_mem_singleton.mpr h
  touch := List.isChain_singleton _
  opens := ⟨_, rfl, rfl⟩
  closes := ⟨_, rfl, rfl⟩

/-- An operator may stand before a formula. -/
theorem cons_operator (h : Seamless ts) (op : Arithmetic) :
    (Token.operator op.operator :: ts).IsChain Token.MayTouch := by
  obtain ⟨u, hu, hopens⟩ := h.opens
  refine List.isChain_cons.mpr ⟨fun v hv => ?_, h.touch⟩
  obtain rfl := Option.some.inj (hu.symm.trans hv)
  exact op.mayTouch (h.readable u (List.mem_of_mem_head? hu)).1 hopens

/-- Behind a formula may stand what does not begin with a digit. -/
theorem append (h : Seamless ts) {u : Token} (hu : ∀ c ∈ u.text.toList.head?, c.isDigit = false)
    (hus : (u :: us).IsChain Token.MayTouch) : (ts ++ u :: us).IsChain Token.MayTouch := by
  obtain ⟨t, ht, hcloses⟩ := h.closes
  refine List.isChain_append.mpr ⟨h.touch, hus, fun x hx y hy => ?_⟩
  obtain rfl := Option.some.inj (ht.symm.trans hx)
  obtain rfl := Option.some.inj hy
  exact Token.mayTouch_of_closesFormula hcloses hu

/-- So is a minus sign in front of such a text. -/
theorem negative (h : Seamless ts) : Seamless (.operator .minus :: ts) where
  readable := List.forall_mem_cons.mpr ⟨Token.readable_operator _, h.readable⟩
  touch := h.cons_operator .minus
  opens := ⟨_, rfl, rfl⟩
  closes := by
    obtain ⟨t, ht, hcloses⟩ := h.closes
    exact ⟨t, List.mem_getLast?_cons ht, hcloses⟩

/-- And an operator between two of them. -/
theorem operation (ht : Seamless ts) (hu : Seamless us) (op : Arithmetic) :
    Seamless (ts ++ .operator op.operator :: us) where
  readable := List.forall_mem_append.mpr ⟨ht.readable,
    List.forall_mem_cons.mpr ⟨Token.readable_operator _, hu.readable⟩⟩
  touch := ht.append op.head_operator (hu.cons_operator op)
  opens := by
    obtain ⟨t, ht, hopens⟩ := ht.opens
    exact ⟨t, List.mem_head?_append_of_mem_head? ht, hopens⟩
  closes := by
    obtain ⟨t, ht, hcloses⟩ := hu.closes
    exact ⟨t, List.mem_getLast?_append_of_mem_getLast? (List.mem_getLast?_cons ht), hcloses⟩

/-- And parentheses around one. -/
theorem parentheses (h : Seamless ts) :
    Seamless (.punctuation .openParen :: (ts ++ [.punctuation .closeParen])) where
  readable := by simpa [or_imp, forall_and] using h.readable
  touch := List.isChain_cons.mpr
    ⟨fun _ _ _ _ => rfl, h.append head_closeParen (List.isChain_singleton _)⟩
  opens := ⟨_, rfl, rfl⟩
  closes := ⟨_, @List.getLast?_concat _ (_ :: ts) _, rfl⟩

end Seamless

/-- The tokens of a formula may touch. -/
theorem Formula.Spells.seamless {r : Nat} {e : Formula} {ts : List Token} (h : e.Spells r ts) :
    Seamless ts := by
  induction h with
  | numeral h => exact .numeral h
  | negative _ ih => exact ih.negative
  | operation _ _ _ iha ihb => exact iha.operation ihb _
  | parentheses _ ih => exact ih.parentheses

/-! ### Trees of formulas -/

namespace Formula

/-- The nodes that compute a formula, whatever their lines. -/
inductive Means : Formula → Node → Prop
  | numeral {digits : String} (h : (Token.integer digits).Readable) (line : Int) :
      Means (numeral digits h) (.constant (.integer (Nat.ofDigitChars 10 digits.toList 0)) line)
  | negative {a : Formula} {n : Node} (ha : a.Means n) (place line : Int) :
      Means (negative a)
        (.operation Operator.minus.symbol [.constant (.integer 0) place, n] line)
  | operation (op : Arithmetic) {a b : Formula} {m n : Node} (ha : a.Means m) (hb : b.Means n)
      (line : Int) : Means (operation op a b) (.operation op.operator.symbol [m, n] line)

/-- The row of operands that has only operators of some rank or of a higher one. -/
def level : Nat → Option Tightness
  | 0 => some .sum
  | 1 => some .product
  | _ => none

end Formula

open Formula (level)

/-- An operator of arithmetic makes a row of two rows. -/
theorem Arithmetic.exists_row (op : Arithmetic) (a : Derivation (.row (level op.rank)))
    (p : Position) (b : Derivation (.row (level (op.rank + 1)))) :
    ∃ d : Derivation (.row (level op.rank)),
      d.lexemes = a.lexemes ++ ⟨.operator op.operator, p⟩ :: b.lexemes ∧
        (d.Tied ↔ a.Tied ∨ b.Tied) ∧
          d.lower = .operation op.operator.symbol [a.lower, b.lower] a.line := by
  cases op with
  | plus => exact ⟨.binary (l := .sum) a .plus rfl p b, rfl, .rfl, rfl⟩
  | minus => exact ⟨.binary (l := .sum) a .minus rfl p b, rfl, .rfl, rfl⟩
  | times => exact ⟨.binary (l := .product) a .times rfl p b, rfl, .rfl, rfl⟩
  | divide => exact ⟨.binary (l := .product) a .divide rfl p b, rfl, .rfl, rfl⟩
  | remainder => exact ⟨.binary (l := .product) a .remainder rfl p b, rfl, .rfl, rfl⟩

/-- A row of products is one of sums. -/
theorem exists_row_of_le {r : Nat} {op : Arithmetic} (hr : r ≤ op.rank)
    (d : Derivation (.row (level op.rank))) : ∃ d' : Derivation (.row (level r)),
      d'.lexemes = d.lexemes ∧ (d'.Tied ↔ d.Tied) ∧ d'.lower = d.lower := by
  rcases Nat.eq_or_lt_of_le hr with rfl | hlt
  · exact ⟨d, rfl, .rfl, rfl⟩
  · cases op with
    | plus | minus => exact absurd hlt (Nat.not_lt_zero r)
    | times | divide | remainder =>
        obtain rfl := Nat.lt_one_iff.mp hlt
        exact ⟨.tighter (l := .sum) d, rfl, .rfl, rfl⟩

/-- So is an operand with minus signs before it. -/
theorem exists_row_of_none {e : Formula} (u : Derivation (.row none)) (ht : ¬u.Tied)
    (hm : e.Means u.lower) (r : Nat) : ∃ d : Derivation (.row (level r)),
      d.lexemes = u.lexemes ∧ ¬d.Tied ∧ e.Means d.lower := by
  refine ⟨u.raise (level r), u.lexemes_raise _, ?_, ?_⟩
  · rwa [Derivation.tied_raise]
  · rwa [Derivation.lower_raise]

/-- The tokens of a formula are those of a tree, which means the formula. -/
theorem Formula.Spells.exists_row {r : Nat} {e : Formula} {ts : List Token} (h : e.Spells r ts)
    {xs : List Lexeme} (hx : xs.map Lexeme.token = ts) :
    ∃ d : Derivation (.row (level r)), d.lexemes = xs ∧ ¬d.Tied ∧ e.Means d.lower := by
  induction h generalizing xs with
  | @numeral r digits h =>
      obtain ⟨⟨t, p⟩, rfl, rfl⟩ := List.map_eq_singleton_iff.mp hx
      exact exists_row_of_none (.bare (.uncut (.head (.integer digits p)))) id (.numeral h _) r
  | @negative r a ts _ ih =>
      obtain ⟨⟨t, p⟩, ys, rfl, rfl, hy⟩ := List.map_eq_cons_iff.mp hx
      obtain ⟨d, rfl, htied, hmeans⟩ := ih hy
      exact exists_row_of_none (.minus p d) htied (.negative hmeans _ _) r
  | @operation r op a b ts us hr _ _ iha ihb =>
      obtain ⟨ys, rest, rfl, hy, hrest⟩ := List.map_eq_append_iff.mp hx
      obtain ⟨⟨t, p⟩, zs, rfl, ht, hz⟩ := List.map_eq_cons_iff.mp hrest
      obtain rfl : t = .operator op.operator := ht
      obtain ⟨left, rfl, htl, hml⟩ := iha hy
      obtain ⟨right, rfl, htr, hmr⟩ := ihb hz
      obtain ⟨d, hd, htd, hld⟩ := op.exists_row left p right
      obtain ⟨d', hd', htd', hld'⟩ := exists_row_of_le hr d
      refine ⟨d', hd'.trans hd, fun htied => ?_, ?_⟩
      · exact (htd.mp (htd'.mp htied)).elim htl htr
      · rw [hld', hld]
        exact .operation op hml hmr _
  | @parentheses r e ts _ ih =>
      obtain ⟨⟨t, p⟩, rest, rfl, ht, hrest⟩ := List.map_eq_cons_iff.mp hx
      obtain ⟨ys, zs, rfl, hy, hz⟩ := List.map_eq_append_iff.mp hrest
      obtain ⟨⟨t', q⟩, rfl, ht'⟩ := List.map_eq_singleton_iff.mp hz
      obtain rfl : t = .punctuation .openParen := ht
      obtain rfl : t' = .punctuation .closeParen := ht'
      obtain ⟨d, rfl, htied, hmeans⟩ := ih hy
      let u : Derivation (.row none) :=
        .bare (.uncut (.head (.parentheses p (Derivation.loosened (l := .sum) d) q)))
      exact exists_row_of_none u htied hmeans r

/-! ### Texts that print a formula -/

/-- The tokens of a statement that prints what some tokens write. -/
def printing (ts : List Token) : List Token :=
  .name "print" :: .punctuation .openParen ::
    (ts ++ [.punctuation .closeParen, .punctuation .semicolon])

/-- The name of the function is one. -/
theorem isName_print : IsName "print" := by
  refine ⟨⟨'p', _, rfl, rfl, List.all_eq_true.mp (by decide)⟩, fun k => ?_⟩
  cases k <;> decide

/-- Around the tokens of a formula, too, the tokens may touch. -/
theorem Seamless.printing {ts : List Token} (h : Seamless ts) :
    (∀ t ∈ Source.printing ts, t.Readable) ∧ (Source.printing ts).IsChain Token.MayTouch := by
  have hname : (Token.name "print").Readable := Token.readable_name.mpr isName_print
  refine ⟨by simpa [Source.printing, hname, or_imp, forall_and] using h.readable, ?_⟩
  have hend : [Token.punctuation .closeParen, .punctuation .semicolon].IsChain Token.MayTouch :=
    List.isChain_cons_cons.mpr ⟨fun _ _ => rfl, List.isChain_singleton _⟩
  have hopening : (Token.name "print").MayTouch (.punctuation .openParen) := fun c hc => by
    obtain rfl := Option.some.inj hc
    rfl
  exact List.isChain_cons_cons.mpr ⟨hopening, List.isChain_cons.mpr
    ⟨fun _ _ _ _ => rfl, h.append head_closeParen hend⟩⟩

namespace Derivation

variable {l : Tightness} (name : String) (p q : Position) (d : Derivation (.row (some l)))
  (q' s : Position)

/-- The tree of a program that calls a function with one row of operands. -/
def callStatement : Derivation .program :=
  .program (.cons (.ended (.value (.alone (.uncut (.call (.head (.name name p)) q
    (.arguments (.oneExpression d.loosened)) q')))) s) .done)

/-- The tokens of a call as a statement. -/
theorem lexemes_callStatement : (callStatement name p q d q' s).lexemes =
    ⟨.name name, p⟩ :: ⟨.punctuation .openParen, q⟩ ::
      (d.lexemes ++ [⟨.punctuation .closeParen, q'⟩, ⟨.punctuation .semicolon, s⟩]) := by
  simp [callStatement, lexemes]

/-- A call as a statement is a program with this call. -/
theorem lower_callStatement : (callStatement name p q d q' s).lower =
    .block [.call (.name name p.line) [d.lower] p.line] p.line := by
  rw [← lower_loosened d]
  rfl

/-- A call as a statement makes no tie. -/
theorem not_tied_callStatement (h : ¬d.Tied) : ¬(callStatement name p q d q' s).Tied := by
  rintro (hties | (hfirst | hgiven) | hrest)
  · have hname : (⟨.name name, p⟩ : Lexeme).token ≠ .keyword .wordFunction := nofun
    exact not_ties_cons hname _ hties
  · exact hfirst
  · exact h (d.tied_loosened.mp hgiven)
  · exact hrest

end Derivation

/-- A text of readable tokens that may touch is cut into these tokens. -/
theorem Spaced.scan_readable {ts : List Token} {source : String} (hs : Spaced ts source.toList)
    (hreadable : ∀ t ∈ ts, t.Readable) (htouch : ts.IsChain Token.MayTouch) :
    (scan source.toList).lexemes.map Lexeme.token = ts ∧ (scan source.toList).bad = none ∧
      ∀ x ∈ (scan source.toList).lexemes, x.token.oversize? = none := by
  obtain ⟨htokens, hbad⟩ := (hs.typeset (fun t ht => (hreadable t ht).1) htouch).scan
  refine ⟨htokens, hbad, fun x hx => (hreadable x.token ?_).2⟩
  rw [← htokens]
  exact List.mem_map_of_mem hx

/-- A text with the tokens of a formula between the parentheses of `print` is a program that prints
the formula. -/
theorem Formula.Spells.exists_program {e : Formula} {ts : List Token} {source : String}
    (h : e.Spells 0 ts) (hs : Spaced (Source.printing ts) source.toList) :
    ∃ n line, e.Means n ∧
      program source = .ok (.block [.call (.name "print" line) [n] line] line) := by
  obtain ⟨hreadable, htouch⟩ := h.seamless.printing
  obtain ⟨hxs, hbad, hsmall⟩ := hs.scan_readable hreadable htouch
  obtain ⟨⟨t, p⟩, rest, hx, rfl, hrest⟩ := List.map_eq_cons_iff.mp hxs
  obtain ⟨⟨t, q⟩, rest, rfl, rfl, hinner⟩ := List.map_eq_cons_iff.mp hrest
  obtain ⟨ys, close, rfl, hys, hclose⟩ := List.map_eq_append_iff.mp hinner
  obtain ⟨⟨t, q'⟩, last, rfl, rfl, hlast⟩ := List.map_eq_cons_iff.mp hclose
  obtain ⟨⟨t, s⟩, rfl, rfl⟩ := List.map_eq_singleton_iff.mp hlast
  obtain ⟨row, rfl, htied, hmeans⟩ := h.exists_row hys
  have hlexemes := Derivation.lexemes_callStatement "print" p q (l := .sum) row q' s
  have hnone := Derivation.not_tied_callStatement "print" p q (l := .sum) row q' s htied
  have hlower := Derivation.lower_callStatement "print" p q (l := .sum) row q' s
  have hprogram := program_of_lexemes hbad hsmall (hlexemes.trans hx.symm) hnone
  exact ⟨row.lower, p.line, hmeans, hprogram.trans (congrArg Except.ok hlower)⟩

end Scriptlet.Source
