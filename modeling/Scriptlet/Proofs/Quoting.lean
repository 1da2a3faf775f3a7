import Mathlib.Tactic.Ring
import Scriptlet.Node.Description

/-!
# Quoted Texts Are Told Apart

A quoted text shows where it ends and what it quotes. What stands between the marks is read back
character by character: an escape announces itself, and says by its second character how far it
goes. The mark does not stand there on its own, so the first one that does is the end. It follows
that quoted texts are told apart even in front of other text, and so are rows of them, and that
nothing that begins without a mark is taken for one, such as a numeral.

## Main definitions

* `Text.unescape`: the first character that is written, and what is written behind it.

## Main results

* `Text.unescape_escape`: escaped characters are read back.
* `Text.quoteChars_append_inj`, `Text.quote_inj`: quoted texts are told apart.
* `Text.natRepr_ne_quote`: no numeral is a quoted text.
* `namesText_inj`, `nameText?_inj`: names are told apart.
-/

namespace Scriptlet.Text

/-- Texts with a character behind them that is not in them are told apart, whatever stands behind
the character. -/
theorem eq_of_append_cons_eq {c : Char} {xs xs' ys ys' : List Char} (hx : c ∉ xs) (hx' : c ∉ xs')
    (h : xs ++ c :: ys = xs' ++ c :: ys') : xs = xs' ∧ ys = ys' := by
  induction xs generalizing xs' with
  | nil =>
      cases xs' with
      | nil => exact ⟨rfl, (List.cons.inj h).2⟩
      | cons d xs' => exact absurd ((List.cons.inj h).1 ▸ List.mem_cons_self) hx'
  | cons d xs ih =>
      rw [List.mem_cons, not_or] at hx
      cases xs' with
      | nil => exact absurd (List.cons.inj h).1.symm hx.1
      | cons d' xs' =>
          rw [List.mem_cons, not_or] at hx'
          obtain ⟨rfl, hrest⟩ := List.cons.inj h
          obtain ⟨rfl, hys⟩ := ih hx.2 hx'.2 hrest
          exact ⟨rfl, hys⟩

/-! ### Hexadecimal numbers -/

/-- The value of a hexadecimal digit. -/
def hexadecimalValue (c : Char) : Nat := if c.isDigit then c.toNat - 48 else c.toNat - 87

/-- A hexadecimal digit has its value. -/
theorem hexadecimalValue_digitChar {n : Nat} (h : n < 16) :
    hexadecimalValue (Nat.digitChar n) = n := by
  have hall : ∀ m < 16, hexadecimalValue (Nat.digitChar m) = m := by decide
  exact hall n h

/-- The number that hexadecimal digits write, the most significant first. -/
def ofHexadecimal (cs : List Char) : Nat :=
  cs.foldl (fun n c => 16 * n + hexadecimalValue c) 0

/-- Hexadecimal digits are read as the number that they write. -/
theorem foldl_hexadecimal (n width k : Nat) :
    (hexadecimal width n).foldl (fun n c => 16 * n + hexadecimalValue c) k =
      k * 16 ^ width + n % 16 ^ width := by
  induction width generalizing k with
  | zero => simp [hexadecimal, Nat.mod_one]
  | succ width ih =>
      have hcons : hexadecimal (width + 1) n =
          Nat.digitChar (n / 16 ^ width % 16) :: hexadecimal width n := by
        rw [hexadecimal, List.range_succ, List.reverse_append]
        rfl
      rw [hcons, List.foldl_cons, ih,
        hexadecimalValue_digitChar (Nat.mod_lt _ (by decide)), Nat.mod_pow_succ]
      ring

/-- A number that fits is read back. -/
theorem ofHexadecimal_hexadecimal {width n : Nat} (h : n < 16 ^ width) :
    ofHexadecimal (hexadecimal width n) = n := by
  rw [ofHexadecimal, foldl_hexadecimal, Nat.zero_mul, Nat.zero_add, Nat.mod_eq_of_lt h]

/-! ### Escapes -/

/-- Whether a character is one of the two quote marks. -/
def IsMark (c : Char) : Prop := c = apostrophe ∨ c = doubleQuote

instance (c : Char) : Decidable (IsMark c) := inferInstanceAs (Decidable (_ ∨ _))

/-- What stands around a quoted text is a mark. -/
theorem isMark_quoteMark (cs : List Char) : IsMark (quoteMark cs) := by
  unfold quoteMark
  split
  · exact .inr rfl
  · exact .inl rfl

/-- The number of digits that a letter announces. -/
def codeWidth? : Char → Option Nat
  | 'x' => some 2
  | 'u' => some 4
  | 'U' => some 8
  | _ => none

/-- What a character stands for behind a backslash, if it announces no digits. -/
def escaped : Char → Char
  | 'n' => '\n'
  | 'r' => '\r'
  | 't' => '\t'
  | c => c

/-- What is written behind a backslash, without it: a character, and what follows its escape. -/
def unescapeCode : List Char → Option (Char × List Char)
  | [] => none
  | d :: rest =>
    match codeWidth? d with
    | some width => some (Char.ofNat (ofHexadecimal (rest.take width)), rest.drop width)
    | none => some (escaped d, rest)

/-- The first character that is written between quote marks, and what is written behind it. -/
def unescape : List Char → Option (Char × List Char)
  | [] => none
  | c :: rest => if c = backslash then unescapeCode rest else some (c, rest)

/-- Behind a backslash there is a code. -/
theorem unescape_backslash (cs : List Char) : unescape (backslash :: cs) = unescapeCode cs := by
  rw [unescape, if_pos rfl]

/-- A code of some width is as many digits. -/
theorem unescapeCode_of_width {d : Char} {width : Nat} (h : codeWidth? d = some width)
    (rest : List Char) : unescapeCode (d :: rest) =
      some (Char.ofNat (ofHexadecimal (rest.take width)), rest.drop width) := by
  rw [unescapeCode, h]

/-- A code without a width is one letter. -/
theorem unescapeCode_of_letter {d : Char} (h : codeWidth? d = none) (rest : List Char) :
    unescapeCode (d :: rest) = some (escaped d, rest) := by
  rw [unescapeCode, h]

/-- What is written by its code point is read back. -/
theorem unescape_codeEscape (c : Char) (rest : List Char) :
    unescape (codeEscape c ++ rest) = some (c, rest) := by
  have hwidth : codeWidth? (codeForm c.toNat).1 = some (codeForm c.toNat).2 := by
    unfold codeForm
    split
    · rfl
    · split <;> rfl
  have hlength := length_hexadecimal (codeForm c.toNat).2 c.toNat
  show unescape (backslash :: (codeForm c.toNat).1 ::
    (hexadecimal (codeForm c.toNat).2 c.toNat ++ rest)) = _
  rw [unescape_backslash, unescapeCode_of_width hwidth, List.take_left' hlength,
    List.drop_left' hlength, ofHexadecimal_hexadecimal (toNat_lt_codeForm c), Char.ofNat_toNat]

/-- **Every character is read back**, whatever is written behind it. -/
theorem unescape_escape {mark : Char} (hm : IsMark mark) (c : Char) (rest : List Char) :
    unescape (escape mark c ++ rest) = some (c, rest) := by
  unfold escape
  by_cases hself : c = mark ∨ c = backslash
  · rw [if_pos hself]
    have hc : codeWidth? c = none ∧ escaped c = c := by
      rcases hself with rfl | rfl
      · rcases hm with rfl | rfl <;> exact ⟨rfl, rfl⟩
      · exact ⟨rfl, rfl⟩
    show unescape (backslash :: c :: rest) = _
    rw [unescape_backslash, unescapeCode_of_letter hc.1, hc.2]
  rw [if_neg hself]
  split
  next h => rw [h]; rfl
  split
  next h => rw [h]; rfl
  split
  next h => rw [h]; rfl
  split
  next => exact if_neg fun h => hself (.inr h)
  next => exact unescape_codeEscape c rest

/-- No escape begins with the mark. -/
theorem exists_escape {mark : Char} (hm : IsMark mark) (c : Char) :
    ∃ d ds, escape mark c = d :: ds ∧ d ≠ mark := by
  have hbackslash : backslash ≠ mark := by rcases hm with rfl | rfl <;> decide
  unfold escape
  by_cases hself : c = mark ∨ c = backslash
  · rw [if_pos hself]
    exact ⟨_, _, rfl, hbackslash⟩
  rw [if_neg hself]
  split
  · exact ⟨_, _, rfl, hbackslash⟩
  split
  · exact ⟨_, _, rfl, hbackslash⟩
  split
  · exact ⟨_, _, rfl, hbackslash⟩
  split
  · exact ⟨_, _, rfl, fun h => hself (.inl h)⟩
  · exact ⟨_, _, rfl, hbackslash⟩

/-- There is no line break among hexadecimal digits. -/
theorem newline_notMem_hexadecimal (width n : Nat) : '\n' ∉ hexadecimal width n := by
  have hall : ∀ m < 16, Nat.digitChar m ≠ '\n' := by decide
  intro h
  obtain ⟨place, -, hdigit⟩ := List.mem_map.mp h
  exact hall _ (Nat.mod_lt _ (by decide)) hdigit

/-- No line feed is left in an escape. -/
theorem newline_notMem_escape {mark : Char} (hm : IsMark mark) (c : Char) :
    '\n' ∉ escape mark c := by
  have hbackslash : '\n' ≠ backslash := by decide
  have hmark : '\n' ≠ mark := by rcases hm with rfl | rfl <;> decide
  unfold escape
  by_cases hself : c = mark ∨ c = backslash
  · rw [if_pos hself]
    have hc : '\n' ≠ c := by rcases hself with rfl | rfl <;> assumption
    simp [hbackslash, hc]
  rw [if_neg hself]
  split
  · decide
  next hc =>
  split
  · decide
  split
  · decide
  split
  · exact fun h => hc (List.mem_singleton.mp h).symm
  · have hletter : '\n' ≠ (codeForm c.toNat).1 := by
      unfold codeForm
      split
      · decide
      · split <;> decide
    exact fun h => (List.mem_cons.mp h).elim hbackslash fun h =>
      (List.mem_cons.mp h).elim hletter (newline_notMem_hexadecimal _ _)

/-! ### Quoted texts -/

/-- What stands between marks is told apart, up to the first mark that is not escaped. -/
theorem flatMap_escape_append_inj {mark : Char} (hm : IsMark mark) {cs ds r r' : List Char}
    (h : cs.flatMap (escape mark) ++ mark :: r = ds.flatMap (escape mark) ++ mark :: r') :
    cs = ds ∧ r = r' := by
  have absurd_mark {c : Char} {es r r' : List Char}
      (h : mark :: r = escape mark c ++ es ++ mark :: r') : False := by
    obtain ⟨d, ds, he, hd⟩ := exists_escape hm c
    rw [he] at h
    exact hd (List.cons.inj h).1.symm
  induction cs generalizing ds with
  | nil =>
      cases ds with
      | nil => exact ⟨rfl, (List.cons.inj h).2⟩
      | cons d ds => exact (absurd_mark h).elim
  | cons c cs ih =>
      cases ds with
      | nil => exact (absurd_mark h.symm).elim
      | cons d ds =>
          have hread := congrArg unescape h
          simp only [List.flatMap_cons, List.append_assoc, unescape_escape hm, Option.some.injEq,
            Prod.mk.injEq] at hread
          obtain ⟨rfl, hrest⟩ := hread
          obtain ⟨rfl, hr⟩ := ih hrest
          exact ⟨rfl, hr⟩

/-- **Quoted texts are told apart**, whatever stands behind them. -/
theorem quoteChars_append_inj {cs ds r r' : List Char}
    (h : quoteChars cs ++ r = quoteChars ds ++ r') : cs = ds ∧ r = r' := by
  simp only [quoteChars, List.cons_append, List.append_assoc, List.nil_append] at h
  obtain ⟨hmark, hrest⟩ := List.cons.inj h
  rw [← hmark] at hrest
  exact flatMap_escape_append_inj (isMark_quoteMark cs) hrest

/-- The characters of a quoted text. -/
theorem toList_quote (s : String) : (quote s).toList = quoteChars s.toList := by
  rw [quote, String.toList_ofList]

/-- A text that does not begin with a mark is not quoted. -/
theorem quote_ne {s : String} {c : Char} (hs : s.toList.head? = some c) (hc : ¬IsMark c)
    (t : String) : quote t ≠ s := by
  rintro rfl
  rw [toList_quote] at hs
  obtain rfl := Option.some.inj hs
  exact hc (isMark_quoteMark t.toList)

/-- A text is known from how it is quoted. -/
theorem quote_inj {s t : String} (h : quote s = quote t) : s = t := by
  have hchars : quoteChars s.toList ++ [] = quoteChars t.toList ++ [] := by
    rw [← toList_quote, h, toList_quote]
  exact String.toList_inj.mp (quoteChars_append_inj hchars).1

/-- A quoted text stands on one line. -/
theorem newline_notMem_quoteChars (cs : List Char) : '\n' ∉ quoteChars cs := by
  have hm := isMark_quoteMark cs
  have hmark : '\n' ≠ quoteMark cs := by rcases hm with h | h <;> rw [h] <;> decide
  simp only [quoteChars, List.mem_append, List.mem_cons, List.mem_flatMap, List.not_mem_nil,
    or_false, not_or, not_exists, not_and]
  exact ⟨⟨hmark, fun c _ => newline_notMem_escape hm c⟩, hmark⟩

/-! ### Numerals -/

/-- A numeral consists of digits. -/
theorem isDigit_of_mem_natRepr {k : Nat} {c : Char} (h : c ∈ k.repr.toList) :
    c.isDigit = true := by
  rw [Nat.toList_repr] at h
  exact Nat.isDigit_of_mem_toDigits (b := 10) (by decide) (by decide) h

/-- A numeral has a digit. -/
theorem natRepr_ne_nil (k : Nat) : k.repr.toList ≠ [] := by
  rw [Nat.toList_repr]
  exact Nat.toDigits_ne_nil

/-- A numeral is not a text that begins with something else than a digit. -/
theorem natRepr_ne {s : String} {c : Char} (hs : s.toList.head? = some c)
    (hc : c.isDigit = false) (k : Nat) : k.repr ≠ s := by
  rintro rfl
  have hdigit := isDigit_of_mem_natRepr (List.mem_of_head? hs)
  exact absurd (hdigit.symm.trans hc) (by decide)

/-- A numeral is no quoted text. -/
theorem natRepr_ne_quote (k : Nat) (s : String) : k.repr ≠ quote s := by
  have hhead : (quote s).toList.head? = some (quoteMark s.toList) := by
    rw [toList_quote]
    rfl
  refine natRepr_ne hhead ?_ k
  rcases isMark_quoteMark s.toList with h | h <;> rw [h] <;> rfl

end Scriptlet.Text

namespace Scriptlet

open Scriptlet.Text

/-! ### Names -/

/-- What stands behind the first of a row of quoted names. -/
def namesRest : List String → List Char
  | [] => [',', ')']
  | names => names.flatMap (fun x => ',' :: ' ' :: quoteChars x.toList) ++ [')']

/-- A row of names begins with a parenthesis and the first name. -/
theorem toList_namesText_cons (x : String) (xs : List String) :
    (namesText (x :: xs)).toList = '(' :: (quoteChars x.toList ++ namesRest xs) := by
  cases xs with
  | nil => simp [namesText, tupleText, namesRest, toList_quote]
  | cons y ys =>
      have hrow : ∀ z : String, (", ".intercalate (quote z :: ys.map quote)).toList =
          quoteChars z.toList ++ ys.flatMap fun x => ',' :: ' ' :: quoteChars x.toList := by
        induction ys with
        | nil => simp [toList_quote]
        | cons w ws ih =>
            intro z
            rw [List.map_cons, String.intercalate_cons_cons, String.toList_append,
              String.toList_append, ih, toList_quote]
            simp
      simp only [namesText, tupleText, List.map_cons, namesRest]
      rw [String.intercalate_cons_cons, String.toList_append, String.toList_append,
        String.toList_append, String.toList_append, hrow, toList_quote]
      simp

/-- There is no line break behind the first name. -/
theorem newline_notMem_namesRest (xs : List String) : '\n' ∉ namesRest xs := by
  cases xs with
  | nil => decide
  | cons x xs =>
      simp only [namesRest, List.mem_append, List.mem_flatMap, List.mem_cons]
      rintro (⟨y, -, h | h | h⟩ | h)
      · exact absurd h (by decide)
      · exact absurd h (by decide)
      · exact newline_notMem_quoteChars _ h
      · exact absurd h (by decide)

/-- A row of names ends with a parenthesis. -/
theorem getLast?_namesRest (xs : List String) : (namesRest xs).getLast? = some ')' := by
  cases xs with
  | nil => rfl
  | cons x xs =>
      rw [namesRest, List.getLast?_append]
      · rfl
      · exact List.cons_ne_nil x xs

/-- Names behind the first one are told apart. -/
theorem namesRow_inj {xs ys : List String}
    (h : xs.flatMap (fun x => ',' :: ' ' :: quoteChars x.toList) ++ [')'] =
      ys.flatMap (fun x => ',' :: ' ' :: quoteChars x.toList) ++ [')']) : xs = ys := by
  induction xs generalizing ys with
  | nil =>
      cases ys with
      | nil => rfl
      | cons y ys => cases h
  | cons x xs ih =>
      cases ys with
      | nil => cases h
      | cons y ys =>
          simp only [List.flatMap_cons, List.cons_append, List.append_assoc, List.cons.injEq,
            true_and] at h
          obtain ⟨hx, hxs⟩ := quoteChars_append_inj h
          rw [String.toList_inj.mp hx, ih hxs]

/-- So is all that stands behind the first one. -/
theorem namesRest_inj {xs ys : List String} (h : namesRest xs = namesRest ys) : xs = ys := by
  cases xs with
  | nil =>
      cases ys with
      | nil => rfl
      | cons y ys => cases h
  | cons x xs =>
      cases ys with
      | nil => cases h
      | cons y ys => exact namesRow_inj h

/-- A row with a name is not the one without. -/
theorem namesText_cons_ne_nil (x : String) (xs : List String) :
    namesText (x :: xs) ≠ namesText [] := by
  intro h
  have hchars : '(' :: (quoteChars x.toList ++ namesRest xs) = ['(', ')'] := by
    rw [← toList_namesText_cons, h]
    rfl
  have hmark : quoteMark x.toList = ')' := (List.cons.inj (List.cons.inj hchars).2).1
  exact absurd (hmark ▸ isMark_quoteMark x.toList) (by decide)

/-- **Rows of names are told apart.** -/
theorem namesText_inj {xs ys : List String} (h : namesText xs = namesText ys) : xs = ys := by
  cases xs with
  | nil =>
      cases ys with
      | nil => rfl
      | cons y ys => exact absurd h.symm (namesText_cons_ne_nil y ys)
  | cons x xs =>
      cases ys with
      | nil => exact absurd h (namesText_cons_ne_nil x xs)
      | cons y ys =>
          have hchars := congrArg String.toList h
          rw [toList_namesText_cons, toList_namesText_cons] at hchars
          obtain ⟨hx, hxs⟩ := quoteChars_append_inj (List.cons.inj hchars).2
          rw [String.toList_inj.mp hx, namesRest_inj hxs]

/-- Names that may be missing are told apart. -/
theorem nameText?_inj {x y : Option String} (h : nameText? x = nameText? y) : x = y := by
  cases x with
  | none =>
      cases y with
      | none => rfl
      | some y => exact absurd h.symm (quote_ne (c := 'N') rfl (by decide) y)
  | some x =>
      cases y with
      | none => exact absurd h (quote_ne (c := 'N') rfl (by decide) x)
      | some y => rw [quote_inj h]

end Scriptlet
