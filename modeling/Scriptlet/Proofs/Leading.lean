import Scriptlet.Proofs.Growth

/-!
# Expressions That Begin with a Named Function

An expression at the start of a statement may begin with a named function, and what is written
behind the function may be an expression by itself. The reader finds that out from the row that
it has kept (`Phrase.behindFunction?`). Here the same is done to the tree: whenever the row can
be taken apart, what stands in the tree behind its leading function is a tree again, and its row is
the rest of the row.

## Main results

* `Derivation.lexemes_of_leading`: a leading function is the first thing that an expression
  spells, and what follows it continues an expression.
* `Derivation.exists_behind`: a row that can be taken apart has a tree for the part behind the
  function, and that part begins with a parenthesis or a minus sign.
-/

namespace Scriptlet.Source

open Scriptlet.Text (Position)

/-- Whether tokens begin with one that can both continue an expression and begin one. -/
def BeginsEither (xs : List Lexeme) : Prop :=
  ∃ x rest, xs = x :: rest ∧ (x.token = .punctuation .openParen ∨ x.token = .operator .minus)

theorem BeginsEither.append {xs : List Lexeme} (h : BeginsEither xs) (ys : List Lexeme) :
    BeginsEither (xs ++ ys) := by
  obtain ⟨x, rest, rfl, hx⟩ := h
  exact ⟨x, rest ++ ys, rfl, hx⟩

theorem BeginsEither.of_append {xs ys : List Lexeme} (h : BeginsEither (xs ++ ys)) (hx : xs ≠ []) :
    BeginsEither xs := by
  obtain ⟨x, rest, h, hb⟩ := h
  cases xs with
  | nil => cases hx rfl
  | cons y xs => exact ⟨y, xs, rfl, (List.cons.inj h).1 ▸ hb⟩

/-- A named function with such tokens behind it ties. -/
theorem ties_of_beginsEither (f : Derivation .named) {xs : List Lexeme} (h : BeginsEither xs) :
    Ties (f.lexemes ++ xs) := by
  obtain ⟨x, rest, rfl, hx⟩ := h
  exact ⟨f, x, rest, rfl, hx⟩

namespace Derivation

variable {c : Symbol}

/-! ### What stands behind a leading function -/

/-- Nothing, or a token that continues an expression. -/
def ContinuesOrEnds (xs : List Lexeme) : Prop :=
  ∀ x ∈ xs.head?, Reading.continuesExpression x.token = true

/-- What a leading function spells comes first, and what follows it continues the
expression. -/
theorem lexemes_of_leading {f : Derivation .named} (d : Derivation c) (h : d.leading = some f) :
    ∃ rest, d.lexemes = f.lexemes ++ rest ∧ ContinuesOrEnds rest := by
  have behind {xs ys rest : List Lexeme} {x : Lexeme} (hx : xs = f.lexemes ++ rest)
      (hr : ContinuesOrEnds rest) (hc : Reading.continuesExpression x.token = true) :
      ∃ rest', xs ++ x :: ys = f.lexemes ++ rest' ∧ ContinuesOrEnds rest' := by
    refine ⟨rest ++ x :: ys, by rw [hx, List.append_assoc], ?_⟩
    cases rest with
    | nil => simpa [ContinuesOrEnds] using hc
    | cons y rest => simpa [ContinuesOrEnds] using hr
  induction d with
  | plain _ ih | tighter _ ih | bare _ ih | uncut _ ih | head _ ih => exact ih h
  | assignField _ _ _ _ _ _ ih _ | binary _ _ _ _ _ ih _ | field _ _ _ _ ih
  | call _ _ _ _ ih _ | method _ _ _ _ _ _ _ ih _ =>
      obtain ⟨rest, hx, hr⟩ := ih h
      exact behind hx hr rfl
  | function g =>
      obtain rfl := Option.some.inj h
      exact ⟨[], by simp [lexemes], by simp [ContinuesOrEnds]⟩
  | _ => cases h

/-- An expression that begins with no named function begins with another token, or with a
function that has no name. -/
theorem not_named_of_leading_eq_none (d : Derivation c) (hc : c.isExpression = true)
    (h : d.leading = none) :
    ∃ x rest, d.lexemes = x :: rest ∧ x.token.beginsOperand = true ∧
      (x.token = .keyword .wordFunction →
        ∃ p rest', rest = ⟨.punctuation .openParen, p⟩ :: rest') := by
  induction d with
  | plain _ ih | tighter _ ih | bare _ ih | uncut _ ih | head _ ih => exact ih rfl h
  | assignField _ _ _ _ _ _ ih _ | binary _ _ _ _ _ ih _ | field _ _ _ _ ih
  | call _ _ _ _ ih _ | method _ _ _ _ _ _ _ ih _ =>
      obtain ⟨x, rest, hx, hb, hf⟩ := ih rfl h
      refine ⟨x, _, by rw [lexemes, hx]; rfl, hb, fun hw => ?_⟩
      obtain ⟨p, rest', rfl⟩ := hf hw
      exact ⟨p, _, rfl⟩
  | function f => cases h
  | lambda w p ps q body => exact ⟨_, _, rfl, rfl, fun _ => ⟨p, _, rfl⟩⟩
  | assign | minus | integer | string | name | parentheses | emptyRecord | record =>
      exact ⟨_, _, rfl, rfl, fun hw => by cases hw⟩
  | _ => cases hc

end Derivation

/-! ### Taking operands apart -/

/-- One more suffix does not change how an operand with suffixes is taken apart. -/
theorem behindFunction?_suffixed (o : Operand) (s : Suffix) (h : o.suffixes ≠ []) :
    (o.suffixed s).behindFunction? = o.behindFunction?.map (·.suffixed s) := by
  obtain ⟨t, ts, ht⟩ := List.exists_cons_of_ne_nil (mt List.reverse_eq_nil_iff.mp h)
  simp only [Operand.behindFunction?, Operand.suffixed, List.reverse_cons, ht, List.cons_append]
  rcases t with _ | ⟨_ | ⟨argument, _ | ⟨_, _⟩⟩, line⟩ <;> simp

/-- A field behind an operand without suffixes cannot stand alone. -/
theorem behindFunction?_suffixed_field {o p : Operand} {name : String}
    (h : (o.suffixed (.field name)).behindFunction? = some p) :
    ∃ p', o.behindFunction? = some p' ∧ p = p'.suffixed (.field name) := by
  by_cases hs : o.suffixes = []
  · simp [Operand.behindFunction?, Operand.suffixed, hs] at h
  · rw [behindFunction?_suffixed _ _ hs, Option.map_eq_some_iff] at h
    obtain ⟨p', hp, rfl⟩ := h
    exact ⟨p', hp, rfl⟩

/-- Arguments behind an operand without suffixes stand alone when there is one. -/
theorem behindFunction?_suffixed_call {o p : Operand} {ns : List Node} {line : Int}
    (hs : o.suffixes = []) (h : (o.suffixed (.call ns line)).behindFunction? = some p) :
    ∃ n, ns = [n] ∧ p = ⟨[], .node n, line, []⟩ := by
  rcases ns with _ | ⟨n, _ | ⟨_, _⟩⟩ <;>
    simp [Operand.behindFunction?, Operand.suffixed, hs] at h
  exact ⟨n, rfl, h.symm⟩

namespace Derivation

variable {f : Derivation .named}

/-- A callee without suffixes that begins with a named function is that function. -/
theorem lexemes_callee_of_suffixes_eq_nil {c : Derivation .callee} (hl : c.leading = some f)
    (h : c.lastOperand.suffixes = []) : c.lexemes = f.lexemes := by
  cases c with
  | head k =>
      cases k with
      | function g => rw [← Option.some.inj hl]; rfl
      | _ => cases hl
  | call | method => simp [lastOperand, Operand.suffixed] at h

/-- The one argument of a call is an expression. -/
theorem exists_of_lower_arguments {given : Derivation .arguments} {n : Node}
    (h : given.lower = [n]) : ∃ e : Derivation .expression, given.lexemes = e.lexemes ∧
      e.lower = n := by
  cases given with
  | noArguments => cases h
  | arguments es =>
      cases es with
      | oneExpression e => exact ⟨e, rfl, by simpa [lower] using h⟩
      | moreExpressions e p rest =>
          cases rest <;> simp [lower] at h

mutual

theorem exists_behind_callee : (d : Derivation .callee) → d.leading = some f → {o : Operand} →
    d.lastOperand.behindFunction? = some o → ∃ d' : Derivation .callee,
      d.lexemes = f.lexemes ++ d'.lexemes ∧ d'.lastOperand = o ∧ BeginsEither d'.lexemes
  | head k, hl, o, h => by
      obtain ⟨hd, hk, -⟩ := k.lastOperand_primary
      simp [lastOperand, hk, Operand.behindFunction?] at h
  | call c p given q, hl, o, h => by
      by_cases hs : c.lastOperand.suffixes = []
      · have hx := lexemes_callee_of_suffixes_eq_nil (c := c) hl hs
        obtain ⟨n, hn, rfl⟩ := behindFunction?_suffixed_call hs h
        obtain ⟨e, he, rfl⟩ := exists_of_lower_arguments hn
        exact ⟨head (parentheses p e q), by simp [lexemes, hx, he], rfl, _, _, rfl, .inl rfl⟩
      · rw [lastOperand, behindFunction?_suffixed _ _ hs, Option.map_eq_some_iff] at h
        obtain ⟨o', ho, rfl⟩ := h
        obtain ⟨c', hx, rfl, hb⟩ := exists_behind_callee c hl ho
        exact ⟨call c' p given q, by simp [lexemes, hx], rfl, hb.append _⟩
  | method o₁ d n p b given q, hl, o, h => by
      rw [lastOperand, behindFunction?_suffixed _ _ (by simp [Operand.suffixed]),
        Option.map_eq_some_iff] at h
      obtain ⟨o', ho, rfl⟩ := h
      obtain ⟨o₂, ho₂, rfl⟩ := behindFunction?_suffixed_field ho
      obtain ⟨o₃, hx, rfl, hb⟩ := exists_behind_operand o₁ hl ho₂
      exact ⟨method o₃ d n p b given q, by simp [lexemes, hx], rfl, hb.append _⟩

/-- When the row of an operand can be taken apart behind its leading function, so can its
tree. -/
theorem exists_behind_operand : (d : Derivation .operand) → d.leading = some f → {o : Operand} →
    d.lastOperand.behindFunction? = some o → ∃ d' : Derivation .operand,
      d.lexemes = f.lexemes ++ d'.lexemes ∧ d'.lastOperand = o ∧ BeginsEither d'.lexemes
  | uncut c, hl, o, h => by
      obtain ⟨c', hx, ho, hb⟩ := exists_behind_callee c hl h
      exact ⟨uncut c', hx, ho, hb⟩
  | field o₁ d n p, hl, o, h => by
      obtain ⟨o₂, ho₂, rfl⟩ := behindFunction?_suffixed_field h
      obtain ⟨o₃, hx, rfl, hb⟩ := exists_behind_operand o₁ hl ho₂
      exact ⟨field o₃ d n p, by simp [lexemes, hx], rfl, hb.append _⟩

end

/-- An operand without suffixes that begins with a named function is that function. -/
theorem lexemes_operand_of_suffixes_eq_nil {o : Derivation .operand} (hl : o.leading = some f)
    (h : o.lastOperand.suffixes = []) : o.lexemes = f.lexemes := by
  cases o with
  | uncut c => exact lexemes_callee_of_suffixes_eq_nil (c := c) hl h
  | field => simp [lastOperand, Operand.suffixed] at h

/-! ### Taking rows apart -/

theorem row_of_none (d : Derivation (.row none)) : d.row = ⟨d.lastOperand, []⟩ := by
  simp [row, phrase, Phrase.row, terms_of_none]

/-- A row of one operand that begins with a named function, and has nothing behind it, is that
function. -/
theorem lexemes_row_of_suffixes_eq_nil : {l : Option Tightness} → (d : Derivation (.row l)) →
    d.leading = some f → d.row.steps = [] → d.row.first.suffixes = [] → d.lexemes = f.lexemes
  | _, bare _, hl, _, h => lexemes_operand_of_suffixes_eq_nil hl h
  | _, minus _ _, hl, _, _ => by cases hl
  | _, tighter r, hl, hs, h => lexemes_row_of_suffixes_eq_nil r hl hs h
  | _, binary _ _ _ _ _, _, hs, _ => by simp [row_binary] at hs

/-- A minus sign before a row belongs to its first operand. -/
theorem exists_negated_row (p : Position) : {l : Option Tightness} → (d : Derivation (.row l)) →
    ∃ d' : Derivation (.row l), d'.lexemes = ⟨.operator .minus, p⟩ :: d.lexemes ∧
      d'.row = ⟨d.row.first.negated p.line, d.row.steps⟩
  | none, d => ⟨minus p d, rfl, by rw [row_of_none, row_of_none]; rfl⟩
  | some _, tighter r => by
      obtain ⟨r', hx, hr⟩ := exists_negated_row p r
      exact ⟨tighter r', hx, hr⟩
  | some _, binary left op hop q right => by
      obtain ⟨left', hx, hr⟩ := exists_negated_row p left
      exact ⟨binary left' op hop q right, by simp [lexemes, hx], by simp [row_binary, hr]⟩

/-- More operands behind a row do not change how it is taken apart, unless it is one operand
that a minus sign follows. -/
theorem behindFunction?_append {r : Row} {s : Step} {ss : List Step} {r' : Row}
    (h : Row.behindFunction? ⟨r.first, r.steps ++ s :: ss⟩ = some r') :
    (∃ q, r.behindFunction? = some q ∧ r' = ⟨q.first, q.steps ++ s :: ss⟩) ∨
      (r.steps = [] ∧ r.first.suffixes = [] ∧ s.operator = .minus ∧
        r' = ⟨s.operand.negated s.line, ss⟩) := by
  obtain ⟨o, steps⟩ := r
  cases ho : o.behindFunction? with
  | some o' =>
      simp only [Row.behindFunction?, ho, Option.some.injEq] at h
      exact .inl ⟨⟨o', steps⟩, by simp only [Row.behindFunction?, ho], h.symm⟩
  | none =>
      rcases steps with _ | ⟨t, ts⟩
      · obtain ⟨op, line, o'⟩ := s
        cases op <;> simp [Row.behindFunction?, ho] at h
        exact .inr ⟨rfl, h.1, rfl, h.2.symm⟩
      · obtain ⟨op, line, o'⟩ := t
        cases op <;> simp [Row.behindFunction?, ho] at h
        exact .inl ⟨⟨o'.negated line, ts⟩, by simp [Row.behindFunction?, ho, h.1], h.2.symm⟩

theorem behindFunction?_append_of_eq_some {r q : Row} (h : r.behindFunction? = some q) (s : Step)
    (ss : List Step) :
    Row.behindFunction? ⟨r.first, r.steps ++ s :: ss⟩ = some ⟨q.first, q.steps ++ s :: ss⟩ := by
  obtain ⟨o, steps⟩ := r
  cases ho : o.behindFunction? with
  | some o' =>
      simp only [Row.behindFunction?, ho, Option.some.injEq] at h
      simp only [Row.behindFunction?, ho, ← h]
  | none =>
      rcases steps with _ | ⟨⟨op, line, o'⟩, ts⟩
      · simp [Row.behindFunction?, ho] at h
      · cases op <;> simp [Row.behindFunction?, ho] at h
        simp [Row.behindFunction?, ho, h.1, ← h.2]

/-- When a row can be taken apart behind its leading function, so can its tree. -/
theorem exists_behind_row : {l : Option Tightness} → (d : Derivation (.row l)) →
    d.leading = some f → {r : Row} → d.row.behindFunction? = some r →
      ∃ d' : Derivation (.row l), d.lexemes = f.lexemes ++ d'.lexemes ∧ d'.row = r ∧
        BeginsEither d'.lexemes
  | _, bare o, hl, r, h => by
      simp only [row_of_none, Row.behindFunction?] at h
      cases ho : o.lastOperand.behindFunction? with
      | none => simp [lastOperand, ho] at h
      | some p =>
          obtain ⟨o', hx, rfl, hb⟩ := exists_behind_operand o hl ho
          simp only [lastOperand, ho, Option.some.injEq] at h
          exact ⟨bare o', hx, by rw [row_of_none, ← h]; rfl, hb⟩
  | _, minus _ _, hl, _, _ => by cases hl
  | _, tighter r, hl, _, h => by
      obtain ⟨r', hx, hr, hb⟩ := exists_behind_row r hl h
      exact ⟨tighter r', hx, hr, hb⟩
  | some l, binary left op hop p right, hl, r, h => by
      rw [row_binary] at h
      rcases behindFunction?_append h with ⟨q, hq, rfl⟩ | ⟨hs, hf, rfl, rfl⟩
      · obtain ⟨left', hx, rfl, hb⟩ := exists_behind_row left hl hq
        exact ⟨binary left' op hop p right, by simp [lexemes, hx], row_binary .., hb.append _⟩
      · -- the minus sign of a sum becomes the sign of what stands behind it
        obtain rfl : l = .sum := hop.symm
        have hx := lexemes_row_of_suffixes_eq_nil left hl hs hf
        obtain ⟨right', hx', hr⟩ := exists_negated_row p right
        exact ⟨tighter right', by simp [lexemes, hx, hx'], hr, _, _, hx', .inr rfl⟩

/-- When an expression can be taken apart behind its leading function, what stands behind the
function is an expression, and begins with a parenthesis or a minus sign. -/
theorem exists_behind : (e : Derivation .expression) → e.leading = some f → {n : Node} →
    e.phrase.behindFunction? e.lastOperand = some n → ∃ e' : Derivation .expression,
      e.lexemes = f.lexemes ++ e'.lexemes ∧ e'.lower = n ∧ BeginsEither e'.lexemes
  | plain r, hl, n, h => by
      obtain ⟨row, hr, rfl⟩ := Option.map_eq_some_iff.mp h
      obtain ⟨r', hx, rfl, hb⟩ := exists_behind_row r hl hr
      exact ⟨plain r', hx, (node_row r').symm, hb⟩
  | assign _ _ _ _, hl, _, _ => by cases hl
  | assignField o d m p a e, hl, n, h => by
      simp only [Phrase.behindFunction?, phrase, targets_assignField, List.reverse_append,
        List.reverse_cons, List.reverse_nil, List.nil_append, List.singleton_append,
        Option.map_eq_some_iff] at h
      obtain ⟨o', ho, rfl⟩ := h
      obtain ⟨o₁, hx, rfl, hb⟩ := exists_behind_operand o hl ho
      refine ⟨assignField o₁ d m p a e, by simp [lexemes, hx], ?_, hb.append _⟩
      rw [← node_phrase, Phrase.node, List.reverse_reverse]
      rfl

end Derivation

end Scriptlet.Source
