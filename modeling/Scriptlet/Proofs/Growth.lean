import Scriptlet.Proofs.Precedence

/-!
# How Expressions Grow

An expression that has been read can go on in four ways: a field or a call follows its last
operand, an operator and another operand follow, or what has been read becomes the target of an
assignment. For each way, every derivation tree of the expression is turned into one of the
longer expression. The tree may change all along its right edge, since an operator takes as
left side whatever binds at least as tight, but the row that it spells only grows at its end.

## Main results

* `Derivation.exists_suffixed_expression`: a field or call behind an expression.
* `Derivation.exists_push_expression`: an operator and an operand behind an expression.
* `Derivation.exists_assign_expression`: an expression whose last operand is assigned to.
-/

namespace Scriptlet

/-- How tight a group of operators is, as a number. -/
def Tightness.rank : Tightness → Nat
  | equality => 0
  | comparison => 1
  | sum => 2
  | product => 3

/-- A group that is as tight as another, but not the same, is as tight as the next one. -/
theorem Tightness.exists_tighter {l t : Tightness} (h : l.rank ≤ t.rank) (hne : t ≠ l) :
    ∃ k, l.tighter = some k ∧ k.rank ≤ t.rank := by
  cases l <;> cases t <;> simp_all [Tightness.rank, Tightness.tighter]

namespace Source

open Scriptlet.Text (Position)

namespace Derivation

variable {c : Symbol}

/-- The named function that an expression begins with, if it begins with one. -/
def leading {c : Symbol} : Derivation c → Option (Derivation .named)
  | plain r => r.leading
  | assignField o _ _ _ _ _ => o.leading
  | tighter r => r.leading
  | binary left _ _ _ _ => left.leading
  | bare o => o.leading
  | uncut c => c.leading
  | field o _ _ _ => o.leading
  | head h => h.leading
  | call c _ _ _ => c.leading
  | method o _ _ _ _ _ _ => o.leading
  | function f => some f
  | _ => none

/-! ### Fields and calls -/

/-- A suffix that stands written behind every operand makes an operand of it. -/
def Follows (s : Suffix) (xs : List Lexeme) : Prop :=
  ∀ o : Derivation .operand, ∃ o' : Derivation .operand, o'.lexemes = o.lexemes ++ xs ∧
    o'.lastOperand = o.lastOperand.suffixed s ∧ o'.leading = o.leading

theorem follows_field (name : String) (d p : Position) :
    Follows (.field name) [⟨.punctuation .dot, d⟩, ⟨.name name, p⟩] := fun o =>
  ⟨field o d name p, rfl, rfl, rfl⟩

/-- Arguments behind a field make a call of a method, and any other call behind anything
else. -/
theorem follows_call (p : Position) (given : Derivation .arguments) (q : Position) :
    Follows (.call given.lower p.line)
      (⟨.punctuation .openParen, p⟩ :: (given.lexemes ++ [⟨.punctuation .closeParen, q⟩])) := by
  intro o
  cases o with
  | uncut c => exact ⟨uncut (call c p given q), rfl, rfl, rfl⟩
  | field o d n r =>
      exact ⟨uncut (method o d n r p given q), by simp [lexemes], rfl, rfl⟩

/-- A suffix behind a row of operators belongs to its last operand. -/
theorem exists_suffixed_row {s : Suffix} {xs : List Lexeme} (h : Follows s xs) :
    {l : Option Tightness} → (d : Derivation (.row l)) →
      ∃ d' : Derivation (.row l), d'.lexemes = d.lexemes ++ xs ∧ d'.terms = d.terms ∧
        d'.lastOperand = d.lastOperand.suffixed s ∧ d'.leading = d.leading
  | _, bare o => by
      obtain ⟨o', hx, ho, hl⟩ := h o
      exact ⟨bare o', hx, rfl, ho, hl⟩
  | _, minus p r => by
      obtain ⟨r', hx, ht, ho, hl⟩ := exists_suffixed_row h r
      exact ⟨minus p r', by simp [lexemes, hx], rfl, by simp [lastOperand, ho]; rfl, rfl⟩
  | _, tighter r => by
      obtain ⟨r', hx, ht, ho, hl⟩ := exists_suffixed_row h r
      exact ⟨tighter r', hx, ht, ho, hl⟩
  | _, binary left op hop p right => by
      obtain ⟨r', hx, ht, ho, hl⟩ := exists_suffixed_row h right
      exact ⟨binary left op hop p r', by simp [lexemes, hx], by simp [ht], ho, rfl⟩

/-- A suffix behind an expression belongs to its last operand. -/
theorem exists_suffixed_expression {s : Suffix} {xs : List Lexeme} (h : Follows s xs) :
    (e : Derivation .expression) → ∃ e' : Derivation .expression, e'.lexemes = e.lexemes ++ xs ∧
      e'.phrase = e.phrase ∧ e'.lastOperand = e.lastOperand.suffixed s ∧ e'.leading = e.leading
  | plain r => by
      obtain ⟨r', hx, ht, ho, hl⟩ := exists_suffixed_row h r
      exact ⟨plain r', hx, by simp [phrase, ht], ho, hl⟩
  | assign n p a e => by
      obtain ⟨e', hx, hp, ho, hl⟩ := exists_suffixed_expression h e
      obtain ⟨htargets, hterms⟩ := Phrase.mk.inj hp
      exact ⟨assign n p a e', by simp [lexemes, hx],
        by simp [phrase, htargets, hterms], ho, rfl⟩
  | assignField o d n p a e => by
      obtain ⟨e', hx, hp, ho, hl⟩ := exists_suffixed_expression h e
      obtain ⟨htargets, hterms⟩ := Phrase.mk.inj hp
      exact ⟨assignField o d n p a e', by simp [lexemes, hx],
        by simp [phrase, htargets, hterms], ho, rfl⟩

/-! ### Operators -/

/-- An operand with its minus signs, as a row of operators. -/
def raise (u : Derivation (.row none)) : (l : Option Tightness) → Derivation (.row l)
  | none => u
  | some .product => tighter u
  | some .sum => tighter (l := .sum) (tighter u)
  | some .comparison => tighter (l := .comparison) (tighter (l := .sum) (tighter u))
  | some .equality =>
    tighter (l := .equality) (tighter (l := .comparison) (tighter (l := .sum) (tighter u)))

@[simp] theorem lexemes_raise (u : Derivation (.row none)) (l : Option Tightness) :
    (u.raise l).lexemes = u.lexemes := by
  rcases l with _ | _ | _ | _ | _ <;> rfl

@[simp] theorem terms_raise (u : Derivation (.row none)) (l : Option Tightness) :
    (u.raise l).terms = [] := by
  rcases l with _ | _ | _ | _ | _ <;> first | rfl | exact terms_of_none u

@[simp] theorem lastOperand_raise (u : Derivation (.row none)) (l : Option Tightness) :
    (u.raise l).lastOperand = u.lastOperand := by
  rcases l with _ | _ | _ | _ | _ <;> rfl

/-- A row without operators is an operand with its minus signs. -/
theorem exists_eq_of_terms_eq_nil : {l : Option Tightness} → (d : Derivation (.row l)) →
    d.terms = [] → ∃ u : Derivation (.row none), d.lexemes = u.lexemes ∧
      d.lastOperand = u.lastOperand ∧ d.leading = u.leading
  | none, d, _ => ⟨d, rfl, rfl, rfl⟩
  | some _, tighter r, h => exists_eq_of_terms_eq_nil r h
  | some _, binary left op _ p right, h => by simp at h

/-- An operator and an operand behind a row of the operator's own tightness. -/
theorem exists_push_loosest (op : Operator) (p : Position) (u : Derivation (.row none))
    {l : Tightness} (d : Derivation (.row (some l))) (hop : op.tightness = l) :
    ∃ d' : Derivation (.row (some l)), d'.lexemes = d.lexemes ++ ⟨.operator op, p⟩ :: u.lexemes ∧
      d'.terms = ⟨d.lastOperand, op, p.line⟩ :: d.terms ∧ d'.lastOperand = u.lastOperand ∧
      d'.leading = d.leading :=
  ⟨binary d op hop p (u.raise l.tighter), by simp [lexemes], by simp,
    by simp [lastOperand], rfl⟩

/-- An operator and an operand behind a row: the operator's left side is the longest stretch at
the end of the row that binds at least as tight. -/
theorem exists_push_row (op : Operator) (p : Position) (u : Derivation (.row none)) :
    {l : Option Tightness} → (d : Derivation (.row l)) →
      (∃ k, l = some k ∧ k.rank ≤ op.tightness.rank) →
      ∃ d' : Derivation (.row l), d'.lexemes = d.lexemes ++ ⟨.operator op, p⟩ :: u.lexemes ∧
        d'.terms = ⟨d.lastOperand, op, p.line⟩ :: d.terms ∧ d'.lastOperand = u.lastOperand ∧
        d'.leading = d.leading
  | none, _, h => by
      obtain ⟨k, hk, -⟩ := h
      cases hk
  | some l, tighter r, h => by
      obtain ⟨k, hk, hrank⟩ := h
      obtain rfl := Option.some.inj hk
      by_cases hop : op.tightness = l
      · exact exists_push_loosest op p u (tighter r) hop
      obtain ⟨r', hx, ht, ho, hl⟩ := exists_push_row op p u r (Tightness.exists_tighter hrank hop)
      exact ⟨tighter r', hx, ht, ho, hl⟩
  | some l, binary left op' hop' p' right, h => by
      obtain ⟨k, hk, hrank⟩ := h
      obtain rfl := Option.some.inj hk
      by_cases hop : op.tightness = l
      · exact exists_push_loosest op p u (binary left op' hop' p' right) hop
      obtain ⟨r', hx, ht, ho, hl⟩ :=
        exists_push_row op p u right (Tightness.exists_tighter hrank hop)
      exact ⟨binary left op' hop' p' r', by simp [lexemes, hx], by simp [ht]; rfl, ho, rfl⟩

/-- An operator and an operand behind an expression. -/
theorem exists_push_expression (op : Operator) (p : Position) (u : Derivation (.row none)) :
    (e : Derivation .expression) → ∃ e' : Derivation .expression,
      e'.lexemes = e.lexemes ++ ⟨.operator op, p⟩ :: u.lexemes ∧
      e'.phrase = e.phrase.push ⟨e.lastOperand, op, p.line⟩ ∧ e'.lastOperand = u.lastOperand ∧
      e'.leading = e.leading
  | plain r => by
      obtain ⟨r', hx, ht, ho, hl⟩ := exists_push_row op p u r ⟨_, rfl, Nat.zero_le _⟩
      exact ⟨plain r', hx, by simp [phrase, ht]; rfl, ho, hl⟩
  | assign n q a e => by
      obtain ⟨e', hx, hp, ho, hl⟩ := exists_push_expression op p u e
      obtain ⟨htargets, hterms⟩ := Phrase.mk.inj hp
      exact ⟨assign n q a e', by simp [lexemes, hx],
        by simp [phrase, htargets, hterms]; rfl, ho, rfl⟩
  | assignField o d n q a e => by
      obtain ⟨e', hx, hp, ho, hl⟩ := exists_push_expression op p u e
      obtain ⟨htargets, hterms⟩ := Phrase.mk.inj hp
      exact ⟨assignField o d n q a e', by simp [lexemes, hx],
        by simp [phrase, htargets, hterms]; rfl, ho, rfl⟩

/-! ### Assignments -/

/-- An operand that can be assigned to is a name, or ends in a field. -/
theorem target?_lastOperand {u : Derivation (.row none)} {t : Target}
    (h : u.lastOperand.target? = some t) :
    (∃ text p, u = bare (uncut (head (name text p))) ∧ t = .name text p.line) ∨
      ∃ o d n p, u = bare (field o d n p) ∧ t = .field o.lastOperand n := by
  cases u with
  | minus p r =>
      have hm : (r.lastOperand.negated p.line).minuses ≠ [] := by simp [Operand.negated]
      simp [lastOperand, Operand.target?, hm] at h
  | bare o =>
      cases o with
      | field o d n p =>
          have hm : o.lastOperand.minuses = [] := o.isOperand_lastOperand.minuses
          simp only [lastOperand, Operand.suffixed, Operand.target?, hm, Option.some.injEq] at h
          exact .inr ⟨o, d, n, p, rfl, by rw [← h, ← hm]⟩
      | uncut c =>
          have hm : c.lastOperand.minuses = [] := c.isCallee_lastOperand.minuses
          cases c with
          | head k =>
              cases k with
              | name text p => exact .inl ⟨text, p, rfl, (Option.some.inj h).symm⟩
              | _ => cases h
          | call | method =>
              simp only [lastOperand, Operand.suffixed] at hm
              simp [lastOperand, Operand.suffixed, Operand.target?, hm] at h

/-- What has been read becomes the target of an assignment. -/
theorem exists_assign_expression {t : Target} (a : Position) (u : Derivation (.row none)) :
    (e : Derivation .expression) → e.terms = [] → e.lastOperand.target? = some t →
      ∃ e' : Derivation .expression,
        e'.lexemes = e.lexemes ++ ⟨.punctuation .assign, a⟩ :: u.lexemes ∧
        e'.phrase = ⟨t :: e.targets, []⟩ ∧ e'.lastOperand = u.lastOperand ∧
        e'.leading = e.leading
  | plain r, hterms, ht => by
      obtain ⟨v, hx, ho, hl⟩ := exists_eq_of_terms_eq_nil r hterms
      rw [lastOperand, ho] at ht
      rcases target?_lastOperand ht with ⟨name, p, rfl, rfl⟩ | ⟨o, d, name, p, rfl, rfl⟩
      · exact ⟨assign name p a (plain (u.raise _)), by simp [lexemes, hx],
          by simp [phrase], by simp [lastOperand], hl.symm⟩
      · exact ⟨assignField o d name p a (plain (u.raise _)), by simp [lexemes, hx],
          by simp [phrase], by simp [lastOperand], hl.symm⟩
  | assign n q b e, hterms, ht => by
      obtain ⟨e', hx, hp, ho, hl⟩ := exists_assign_expression a u e hterms ht
      obtain ⟨htargets, hterms'⟩ := Phrase.mk.inj hp
      exact ⟨assign n q b e', by simp [lexemes, hx],
        by simp [phrase, htargets, hterms'], ho, rfl⟩
  | assignField o d n q b e, hterms, ht => by
      obtain ⟨e', hx, hp, ho, hl⟩ := exists_assign_expression a u e hterms ht
      obtain ⟨htargets, hterms'⟩ := Phrase.mk.inj hp
      exact ⟨assignField o d n q b e', by simp [lexemes, hx],
        by simp [phrase, htargets, hterms'], ho, rfl⟩

end Derivation

end Source

end Scriptlet
