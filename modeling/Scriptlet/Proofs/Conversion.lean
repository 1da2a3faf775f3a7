import Scriptlet.Proofs.Language

/-!
# Converting Integer Literals

An integer literal has a number, unless it has too many digits to be converted. A tree is converted
from the bottom up and from left to right: its parts first, in the order in which they are written,
and then the tree itself. The first literal that cannot be converted ends that, also one that the
meaning of the tree leaves out, such as the value of an entry that a later one replaces.

What comes of it is what comes of converting the tokens of the tree one by one
(`Derivation.convert_eq`), so all trees of a text end at the same literal, and that is the one that
is reported (`program_oversized`).

## Main definitions

* `Derivation.convert`: what a tree means, if all of its literals can be converted.
* `FirstOversized`: how many digits the first literal with too many has.

## Main results

* `Derivation.convert_eq`: trees are converted as their tokens are.
* `program_oversized_iff`: the text of a program that holds such a literal, and no other, is refused
  for it.
* `program_oversized`: which literal is reported, and what is said of it.
-/

namespace Scriptlet.Source

open Scriptlet.Text (Position digitLimit)

/-! ### Tokens -/

/-- Converts a token, which fails with the number of digits of an integer literal with too many. -/
def Token.convert : Token → Except Nat Unit
  | .integer digits => if digitLimit < digits.length then throw digits.length else return ()
  | _ => return ()

/-- Converts tokens, one after the other. -/
def convertAll (xs : List Lexeme) : Except Nat Unit := xs.forM fun x => x.token.convert

@[simp] theorem convertAll_nil : convertAll [] = pure () := rfl

@[simp] theorem convertAll_cons (x : Lexeme) (xs : List Lexeme) :
    convertAll (x :: xs) = (do x.token.convert; convertAll xs) := List.forM_cons

@[simp] theorem convertAll_append (xs ys : List Lexeme) :
    convertAll (xs ++ ys) = (do convertAll xs; convertAll ys) := List.forM_append

/-- Converting tokens ends at the first that is a literal with too many digits. -/
theorem convertAll_eq (xs : List Lexeme) :
    convertAll xs = match xs.findSome? fun x => x.token.oversize? with
      | some digits => throw digits
      | none => return () := by
  induction xs with
  | nil => rfl
  | cons x xs ih =>
      rw [convertAll_cons, List.findSome?_cons, ih]
      cases x.token with
      | integer digits =>
          rw [Token.convert, Token.oversize?]
          split <;> rfl
      | keyword | name | string | operator | punctuation => rfl

/-! ### Trees -/

namespace Derivation

/-- What a tree means, as `lower` has it, if all integer literals in it can be converted. Every part
of the tree is converted, in the order in which the parts are written, before the tree is. -/
def convert {c : Symbol} : Derivation c → Except Nat c.Meaning
  | program body => do
    return .block (← body.convert) (if body.lexemes.isEmpty then 1 else body.line)
  | done => return []
  | last e => do return [← e.convert]
  | cons first rest => do return (← first.convert) ++ (← rest.convert)
  | ended e _ => do return [← e.convert]
  | chosen c => do return [← c.convert]
  | defined f => do return [← f.convert]
  | skip _ => return []
  | value e => e.convert
  | bareReturn p => return .giveBack (.constant .undefined p.line) p.line
  | giveBack p e => do return .giveBack (← e.convert) p.line
  | bareDeclaration _ _ p n _ => return .assign n (.constant .undefined p.line) true p.line
  | declaration _ _ p n _ _ e => do return .assign n (← e.convert) true p.line
  | block p body _ => do return .block (← body.convert) p.line
  | choice w _ test _ body other => do
    let condition ← test.convert
    let consequence ← body.convert
    let alternative ← other.convert
    return .branch condition consequence (alternative.getD (.block [] w.line)) w.line
  | noElse => return none
  | elseBlock _ b => do return some (← b.convert)
  | elseChoice _ c => do
    let n ← c.convert
    return some (.block [n] n.line)
  | named w n _ _ ps _ body => do
    return .function (some n) (← ps.convert) (← body.convert) w.line
  | noParameters => return []
  | parameters ns => ns.convert
  | oneName n _ => return [n]
  | moreNames n _ _ rest => do return n :: (← rest.convert)
  | plain r => r.convert
  | assign n p _ e => do return .assign n (← e.convert) false p.line
  | assignField o _ n _ _ e => do return .assignField (← o.convert) n (← e.convert) o.line
  | tighter r => r.convert
  | binary left op _ _ right => do
    return .operation op.symbol [← left.convert, ← right.convert] left.line
  | bare o => o.convert
  | minus p r => do
    return .operation Operator.minus.symbol [.constant (.integer 0) p.line, ← r.convert] p.line
  | uncut c => c.convert
  | field o _ n _ => do return .field (← o.convert) n o.line
  | head h => h.convert
  | call c _ given _ => do return .call (← c.convert) (← given.convert) c.line
  | method o _ n _ _ given _ => do return .callMethod (← o.convert) n (← given.convert) o.line
  | integer digits p => do
    (Token.integer digits).convert
    return .constant (.integer (Text.ofDigits digits.toList)) p.line
  | string _ body p => return .constant (.string (literalText body)) p.line
  | name text p => return .name text p.line
  | parentheses _ e _ => e.convert
  | emptyRecord p _ => return .record [] p.line
  | record p ms _ => do return .record (Entries.ofList (← ms.convert)) p.line
  | function f => f.convert
  | lambda w _ ps _ body => do return .function none (← ps.convert) (← body.convert) w.line
  | noArguments => return []
  | arguments es => es.convert
  | oneExpression e => do return [← e.convert]
  | moreExpressions e _ rest => do return (← e.convert) :: (← rest.convert)
  | oneMember m => do return [← m.convert]
  | trailingComma m _ => do return [← m.convert]
  | moreMembers m _ rest => do return (← m.convert) :: (← rest.convert)
  | underName k _ _ e => do return (k, ← e.convert)
  | underString _ b _ _ e => do return (literalText b, ← e.convert)

variable {c : Symbol}

/-- **Trees are converted as their tokens are.** The order in which the parts of a tree are
converted is the order of the tokens, for every production; then the tree means what it means. -/
theorem convert_eq (d : Derivation c) :
    d.convert = (do convertAll d.lexemes; return d.lower) := by
  induction d with
  | done | skip | bareReturn | bareDeclaration | noElse | noParameters | oneName | string | name
  | emptyRecord | noArguments => rfl
  | integer digits place => simp [convert, lexemes, lower]
  | program _ ih | last _ ih | ended _ _ ih | chosen _ ih | defined _ ih | value _ ih
  | giveBack _ _ ih | declaration _ _ _ _ _ _ _ ih | block _ _ _ ih | elseBlock _ _ ih
  | elseChoice _ _ ih | parameters _ ih | moreNames _ _ _ _ ih | plain _ ih | assign _ _ _ _ ih
  | tighter _ ih | bare _ ih | minus _ _ ih | uncut _ ih | field _ _ _ _ ih | head _ ih
  | parentheses _ _ _ ih | record _ _ _ ih | function _ ih | arguments _ ih | oneExpression _ ih
  | oneMember _ ih | trailingComma _ _ ih | underName _ _ _ _ ih | underString _ _ _ _ _ ih =>
      simp [convert, ih, lexemes, lower, Token.convert]
  | cons _ _ ih ih' | named _ _ _ _ _ _ _ ih ih' | assignField _ _ _ _ _ _ ih ih'
  | binary _ _ _ _ _ ih ih' | call _ _ _ _ ih ih' | method _ _ _ _ _ _ _ ih ih'
  | lambda _ _ _ _ _ ih ih' | moreExpressions _ _ _ ih ih' | moreMembers _ _ _ ih ih' =>
      simp [convert, ih, ih', lexemes, lower, Token.convert]
  | choice _ _ _ _ _ _ ih ih₁ ih₂ => simp [convert, ih, ih₁, ih₂, lexemes, lower, Token.convert]

end Derivation

/-! ### Texts -/

/-- Whether the first integer literal with too many digits among tokens has this many. -/
def FirstOversized (ts : List Token) (digits : Nat) : Prop :=
  ∃ before text after, ts = before ++ .integer text :: after ∧ text.length = digits ∧
    digitLimit < text.length ∧ ∀ other, Token.integer other ∈ before → other.length ≤ digitLimit

/-- Only an integer is oversized, by its own digits. -/
theorem Token.oversize?_eq_some_iff {t : Token} {digits : Nat} :
    t.oversize? = some digits ↔
      ∃ text, t = .integer text ∧ text.length = digits ∧ digitLimit < text.length := by
  cases t with
  | integer text => simp [oversize?, and_comm]
  | keyword | name | string | operator | punctuation => simp [oversize?]

/-- A token is not oversized if it is no long integer. -/
theorem Token.oversize?_eq_none_iff {t : Token} :
    t.oversize? = none ↔ ∀ text, t = .integer text → text.length ≤ digitLimit := by
  cases t with
  | integer text => simp [oversize?]
  | keyword | name | string | operator | punctuation => simp [oversize?]

/-- Searching tokens for a literal with too many digits finds the first. -/
theorem findSome?_oversize?_iff {xs : List Lexeme} {digits : Nat} :
    (xs.findSome? fun x => x.token.oversize?) = some digits ↔
      FirstOversized (xs.map Lexeme.token) digits := by
  rw [List.findSome?_eq_some_iff]
  constructor
  · rintro ⟨before, x, after, rfl, hx, hbefore⟩
    obtain ⟨text, hx, hdigits, hover⟩ := Token.oversize?_eq_some_iff.mp hx
    refine ⟨before.map Lexeme.token, text, after.map Lexeme.token, ?_, hdigits, hover, ?_⟩
    · rw [List.map_append, List.map_cons, hx]
    · intro other hother
      obtain ⟨y, hy, hother⟩ := List.mem_map.mp hother
      exact Token.oversize?_eq_none_iff.mp (hbefore y hy) other hother
  · rintro ⟨ts, text, us, hsplit, hdigits, hover, hbefore⟩
    obtain ⟨before, rest, rfl, rfl, hrest⟩ := List.map_eq_append_iff.mp hsplit
    obtain ⟨x, after, rfl, hx, rfl⟩ := List.map_eq_cons_iff.mp hrest
    refine ⟨before, x, after, rfl, Token.oversize?_eq_some_iff.mpr ⟨text, hx, hdigits, hover⟩, ?_⟩
    intro y hy
    refine Token.oversize?_eq_none_iff.mpr fun other hother => hbefore other ?_
    exact List.mem_map.mpr ⟨y, hy, hother⟩

/-- Among tokens with an integer literal that has too many digits there is a first. -/
theorem exists_firstOversized_iff {xs : List Lexeme} :
    (∃ digits, FirstOversized (xs.map Lexeme.token) digits) ↔
      ∃ text, Token.integer text ∈ xs.map Lexeme.token ∧ digitLimit < text.length := by
  constructor
  · rintro ⟨digits, before, text, after, hsplit, -, hover, -⟩
    exact ⟨text, by simp [hsplit], hover⟩
  · rintro ⟨text, hmem, hover⟩
    obtain ⟨x, hx, htext⟩ := List.mem_map.mp hmem
    cases hfind : xs.findSome? fun x => x.token.oversize? with
    | some digits => exact ⟨digits, findSome?_oversize?_iff.mp hfind⟩
    | none =>
        have hsmall := Token.oversize?_eq_none_iff.mp (List.findSome?_eq_none_iff.mp hfind x hx)
        exact absurd (hsmall text htext) (Nat.not_le.mpr hover)

/-- A tree whose tokens have a literal with too many digits is converted up to the first. -/
theorem Derivation.convert_eq_throw {c : Symbol} {d : Derivation c} {digits : Nat}
    (h : FirstOversized (d.lexemes.map Lexeme.token) digits) : d.convert = throw digits := by
  rw [d.convert_eq, convertAll_eq, findSome?_oversize?_iff.mpr h]
  rfl

/-- What is said of a literal with too many digits. -/
theorem text_oversizedInteger (digits : Nat) :
    (SourceError.oversizedInteger digits).text =
      "Error trying to process rule \x22number\x22:\n\n" ++
        "Exceeds the limit (4300 digits) for integer string conversion" ++ ": value has " ++
        toString digits ++ " digits" ++
        "; use sys.set_int_max_str_digits() to increase the limit" := by
  have hlimit : toString digitLimit = "4300" := rfl
  have hhead : "Exceeds the limit (" ++ toString digitLimit ++
      " digits) for integer string conversion" =
        "Exceeds the limit (4300 digits) for integer string conversion" := by
    rw [hlimit]
    simp only [String.reduceAppend]
  show _ ++ ("Exceeds the limit (" ++ toString digitLimit ++
    " digits) for integer string conversion" ++ (": value has " ++ toString digits ++ " digits") ++
      "; use sys.set_int_max_str_digits() to increase the limit") = _
  rw [hhead]
  simp only [String.append_assoc]

/-- A text is refused for an integer literal exactly if it is the text of a program otherwise, and
that literal is the first with too many digits. -/
theorem program_oversized_iff {source : String} {digits : Nat} :
    program source = .error (.oversizedInteger digits) ↔
      (scan source.toList).bad = none ∧ Derivable (scan source.toList).tokens ∧
        FirstOversized (scan source.toList).tokens digits := by
  constructor
  · intro h
    have hvalid : (scan source.toList).bad = none ∧ Derivable (scan source.toList).tokens := by
      cases outcome source with
      | oversized hb hd => exact ⟨hb, hd⟩
      | token _ _ _ _ _ _ ho | character _ _ _ ho | early _ _ _ ho | accepted _ _ _ _ ho =>
          rw [ho] at h
          cases h
    obtain ⟨hb, hd⟩ := hvalid
    refine ⟨hb, hd, ?_⟩
    obtain ⟨r, statements, hr, hf⟩ := exists_finish_of_derivable hd
    cases hfind : (scan source.toList).lexemes.findSome? fun x => x.token.oversize? with
    | none =>
        rw [program_of_finish? source hr hb hf hfind] at h
        cases h
    | some found =>
        rw [program_of_oversize? source hr hb hf hfind] at h
        obtain rfl := SourceError.oversizedInteger.inj (Except.error.inj h)
        exact findSome?_oversize?_iff.mp hfind
  · rintro ⟨hb, hd, hfirst⟩
    obtain ⟨r, statements, hr, hf⟩ := exists_finish_of_derivable hd
    exact program_of_oversize? source hr hb hf (findSome?_oversize?_iff.mpr hfirst)

/-- **A literal with too many digits is reported only for the text of a program, and it is the first
one.** There is such a report exactly if every character of a text is part of a token or skipped,
the grammar derives the tokens and one of them is an integer literal with too many digits. It gives
the number of digits of the first of them, and that is the literal at which converting a tree of the
text ends, whatever tree it is. Every other text that is refused has a syntax error. -/
theorem program_oversized (source : String) :
    ((∃ digits, program source = .error (.oversizedInteger digits)) ↔
      (scan source.toList).bad = none ∧ Derivable (scan source.toList).tokens ∧
        ∃ text, Token.integer text ∈ (scan source.toList).tokens ∧ 4300 < text.length) ∧
    (∀ digits, program source = .error (.oversizedInteger digits) →
      FirstOversized (scan source.toList).tokens digits ∧
      (∀ d : Derivation .program, d.lexemes = (scan source.toList).lexemes →
        d.convert = throw digits) ∧
      (SourceError.oversizedInteger digits).text =
        "Error trying to process rule \x22number\x22:\n\n" ++
          "Exceeds the limit (4300 digits) for integer string conversion" ++ ": value has " ++
          toString digits ++ " digits" ++
          "; use sys.set_int_max_str_digits() to increase the limit") ∧
    ∀ e, program source = .error e →
      ¬((scan source.toList).bad = none ∧ Derivable (scan source.toList).tokens ∧
        ∃ text, Token.integer text ∈ (scan source.toList).tokens ∧ 4300 < text.length) →
      ∃ s, e = .syntaxError s := by
  have hreported : (∃ digits, program source = .error (.oversizedInteger digits)) ↔
      (scan source.toList).bad = none ∧ Derivable (scan source.toList).tokens ∧
        ∃ text, Token.integer text ∈ (scan source.toList).tokens ∧ 4300 < text.length := by
    have hlimit : digitLimit = 4300 := rfl
    simp only [program_oversized_iff, exists_and_left]
    rw [Scan.tokens, exists_firstOversized_iff, hlimit]
  refine ⟨hreported, fun digits h => ?_, fun e he hnot => ?_⟩
  · obtain ⟨-, -, hfirst⟩ := program_oversized_iff.mp h
    refine ⟨hfirst, fun d hd => ?_, text_oversizedInteger digits⟩
    rw [Scan.tokens, ← hd] at hfirst
    exact Derivation.convert_eq_throw hfirst
  · cases e with
    | syntaxError s => exact ⟨s, rfl⟩
    | oversizedInteger digits => exact absurd (hreported.mp ⟨digits, he⟩) hnot

end Scriptlet.Source
