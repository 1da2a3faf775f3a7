import Scriptlet.Proofs.Blocks

/-!
# Brackets and Semicolons

In the tokens of a tree every bracket is closed, and none is closed that the tree did not open.
So a closing bracket ends what stands before it in one place only, and different trees of functions
cannot be told apart by where the function ends. Outside all brackets only a list of statements has
semicolons. So an expression goes on behind no semicolon.

## Main definitions

* `nesting?`: how deep the brackets are nested behind some tokens.

## Main results

* `Derivation.nesting?_lexemes`: behind a tree they are nested as deep as before it.
* `Derivation.lexemes_named_inj`: two functions with the same beginning are the same tokens.
* `Derivation.lexemes_expression_ne`: no expression has a semicolon behind another expression.
-/

namespace Scriptlet.Source

/-- How deep brackets are nested behind a token, if `k` of them are open before it. Outside all
brackets none may be closed, and no semicolon stands there unless `loose` says so. -/
def nest (loose : Bool) (k : Nat) : Token → Option Nat
  | .punctuation .openParen | .punctuation .openBrace => some (k + 1)
  | .punctuation .closeParen | .punctuation .closeBrace => if k = 0 then none else some (k - 1)
  | .punctuation .semicolon => if loose = false ∧ k = 0 then none else some k
  | _ => some k

/-- How deep brackets are nested behind some tokens. -/
def nesting? (loose : Bool) (k : Nat) : List Lexeme → Option Nat
  | [] => some k
  | x :: rest => (nest loose k x.token).bind fun k => nesting? loose k rest

section

variable {loose : Bool} {k : Nat} {xs ys us vs : List Lexeme} {x y : Lexeme}

theorem nesting?_append (loose : Bool) (k : Nat) (xs ys : List Lexeme) :
    nesting? loose k (xs ++ ys) =
      (nesting? loose k xs).bind fun k => nesting? loose k ys := by
  induction xs generalizing k with
  | nil => rfl
  | cons x rest ih =>
      rw [List.cons_append, nesting?, nesting?, Option.bind_assoc]
      exact congrArg _ (funext ih)

/-- What cannot stand outside brackets does not stand behind balanced ones. -/
theorem nesting?_eq_none (hx : nesting? loose 0 xs = some 0) (hn : nest loose 0 x.token = none)
    (us : List Lexeme) : nesting? loose 0 (xs ++ x :: us) = none := by
  rw [nesting?_append, hx, Option.bind_some, nesting?, hn]
  rfl

/-- Where balanced brackets end, and what stands behind them, is in the tokens. -/
theorem append_inj_of_nest_eq_none (hx : nesting? loose 0 xs = some 0)
    (hy : nesting? loose 0 ys = some 0) (hnx : nest loose 0 x.token = none)
    (hny : nest loose 0 y.token = none) (h : xs ++ x :: us = ys ++ y :: vs) :
    xs = ys ∧ x = y ∧ us = vs := by
  rcases List.append_eq_append_iff.mp h with ⟨zs, rfl, hzs⟩ | ⟨zs, rfl, hzs⟩
  · cases zs with
    | nil => exact ⟨(List.append_nil xs).symm, List.cons.inj hzs⟩
    | cons z zs =>
        obtain ⟨rfl, -⟩ := List.cons.inj hzs
        rw [nesting?_eq_none hx hnx] at hy
        cases hy
  · cases zs with
    | nil =>
        obtain ⟨rfl, rfl⟩ := List.cons.inj hzs
        exact ⟨List.append_nil ys, rfl, rfl⟩
    | cons z zs =>
        obtain ⟨rfl, -⟩ := List.cons.inj hzs
        rw [nesting?_eq_none hy hny] at hx
        cases hx

end

/-- Whether a stretch of a program has semicolons outside brackets. -/
def Symbol.hasSemicolons : Symbol → Bool
  | program | statements | statement => true
  | _ => false

namespace Derivation

variable {c : Symbol} {loose : Bool} {k : Nat}

/-- Behind a tree brackets are nested as deep as before it. -/
theorem nesting?_lexemes (d : Derivation c)
    (h : loose = true ∨ 0 < k ∨ c.hasSemicolons = false) :
    nesting? loose k d.lexemes = some k := by
  have semicolon {k : Nat} (h : loose = true ∨ 0 < k ∨ true = false) :
      nest loose k (.punctuation .semicolon) = some k := by
    refine if_neg fun hnot => ?_
    rcases h with h | h | h
    · exact Bool.false_ne_true (hnot.1.symm.trans h)
    · exact absurd hnot.2 (Nat.ne_of_gt h)
    · cases h
  have other {k : Nat} : loose = true ∨ 0 < k ∨ false = false := .inr (.inr rfl)
  have inner {k : Nat} {b : Bool} : loose = true ∨ 0 < k + 1 ∨ b = false :=
    .inr (.inl (Nat.succ_pos k))
  induction d generalizing k with
  | program _ ih => exact ih h
  | done => rfl
  | last _ ih | chosen _ ih | defined _ ih => exact ih other
  | cons _ _ ih ih' => rw [lexemes, nesting?_append, ih h]; exact ih' h
  | ended _ _ ih =>
      rw [lexemes, nesting?_append, ih other, Option.bind_some, nesting?, semicolon h]
      rfl
  | skip _ =>
      rw [lexemes, nesting?, semicolon h]
      rfl
  | block _ _ _ ih =>
      rw [lexemes, nesting?]
      show nesting? loose (k + 1) _ = _
      rw [nesting?_append, ih inner]
      rfl
  | _ => simp_all [lexemes, nesting?, nesting?_append, nest, Symbol.hasSemicolons]

/-- Two functions with the same beginning are the same tokens. -/
theorem lexemes_named_inj {f g : Derivation .named} {xs ys : List Lexeme}
    (h : f.lexemes ++ xs = g.lexemes ++ ys) : f.lexemes = g.lexemes ∧ xs = ys := by
  cases f with
  | named w n p o ps q body =>
  cases g with
  | named w' n' p' o' ps' q' body' =>
  cases body with
  | block b list e =>
  cases body' with
  | block b' list' e' =>
      simp only [lexemes, List.cons_append, List.append_assoc, List.cons.injEq] at h ⊢
      obtain ⟨hword, hname, hopen, h⟩ := h
      obtain ⟨hps, hclose, h⟩ := append_inj_of_nest_eq_none (ps.nesting?_lexemes (.inl rfl))
        (ps'.nesting?_lexemes (.inl rfl)) rfl rfl h
      obtain ⟨hbrace, h⟩ := List.cons.inj h
      obtain ⟨hlist, hend, hrest⟩ := append_inj_of_nest_eq_none
        (list.nesting?_lexemes (.inl rfl)) (list'.nesting?_lexemes (.inl rfl)) rfl rfl h
      rw [hps, hlist, hclose, hbrace, hend]
      exact ⟨⟨hword, hname, hopen, rfl⟩, hrest⟩

/-- No expression has a semicolon behind another expression. -/
theorem lexemes_expression_ne (d e : Derivation .expression) (q : Text.Position)
    (xs : List Lexeme) : d.lexemes ≠ e.lexemes ++ ⟨.punctuation .semicolon, q⟩ :: xs := by
  intro h
  have hd : nesting? false 0 d.lexemes = some 0 := d.nesting?_lexemes (.inr (.inr rfl))
  have he : nesting? false 0 e.lexemes = some 0 := e.nesting?_lexemes (.inr (.inr rfl))
  rw [h, nesting?_eq_none he rfl] at hd
  cases hd

end Derivation

end Scriptlet.Source
