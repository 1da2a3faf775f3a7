import Scriptlet.Proofs.Nesting
import Scriptlet.Proofs.Spacing

/-!
# How Ties Are Resolved

A list of statements that begins with a named function may be read in three ways. The function is
a statement of its own, or the first statement is an expression that begins with it and ends at a
semicolon, or the whole list is such an expression, without a semicolon. Which of them the tokens
allow may be open until far behind the function, and in its body the question may come up again.

The reader prefers the expression that ends at a semicolon to the function statement, and the
function statement to the expression at the end of the list. These preferences are put down for
one list as what a tree is not to be (`Derivation.Resolved`): another tree with the same tokens
would have been preferred. Every list of statements has the tokens of such a list whose blocks are
such lists too, and that is what the reader makes of its tokens.

## Main definitions

* `Opening`, `Derivation.OpensWith`: the ways to read a list that begins with a named function.
* `Derivation.Resolved`: whether a list has the readings that are preferred.
* `Derivation.ResolvesTie`: which reading a list has, given those that its tokens allow.

## Main results

* `Derivation.exists_joined`: a named function and an expression that begins with a parenthesis or
  a minus sign are one expression.
* `Derivation.exists_resolved_everywhere`: lists that are resolved at every depth.
* `Derivation.Resolved.wellChosen`: preferred readings are those that are read.
* `program_resolvesTies`: how the ties of a program are resolved, at every depth.
-/

namespace Scriptlet.Source

open Scriptlet.Text (Position)

namespace Derivation

/-! ### Functions that expressions begin with -/

/-- Whether an expression begins with a function that has the tokens of this one. -/
def BeginsWith (e : Derivation .expression) (f : Derivation .named) : Prop :=
  ∃ g, e.leading = some g ∧ g.lexemes = f.lexemes

/-- An expression whose tokens begin with those of a named function begins with that function. -/
theorem beginsWith_of_lexemes_eq {f : Derivation .named} {e : Derivation .expression}
    {xs ys : List Lexeme} (h : f.lexemes ++ xs = e.lexemes ++ ys) : e.BeginsWith f := by
  cases hl : e.leading with
  | none =>
      obtain ⟨x, rest, hx, -, hnext⟩ := e.not_named_of_leading_eq_none rfl hl
      cases f with
      | named =>
          -- a name stands behind the word of `f`, and none behind that of `e`
          rw [hx] at h
          obtain ⟨rfl, h⟩ := List.cons.inj h
          obtain ⟨p, more, rfl⟩ := hnext rfl
          cases h
  | some g =>
      obtain ⟨zs, hz, -⟩ := lexemes_of_leading e hl
      rw [hz, List.append_assoc] at h
      exact ⟨g, hl, (lexemes_named_inj h).1.symm⟩

/-- What stands behind the function continues the expression. -/
theorem BeginsWith.exists_lexemes_eq {f : Derivation .named} {e : Derivation .expression}
    (h : e.BeginsWith f) : ∃ xs, e.lexemes = f.lexemes ++ xs ∧ ContinuesOrEnds xs := by
  obtain ⟨g, hl, hg⟩ := h
  rw [← hg]
  exact lexemes_of_leading e hl

/-- A named function and an expression that begins with a parenthesis or a minus sign are one
expression. -/
theorem exists_joined (f : Derivation .named) {e : Derivation .expression}
    (hb : BeginsEither e.lexemes) :
    ∃ joined : Derivation .expression, joined.lexemes = f.lexemes ++ e.lexemes := by
  -- the reader makes one expression of them, at the start of a program as anywhere
  let place : Place := .statement (some f.lower) (.mk .program [])
  have hf : (Reading.suffix place .empty ⟨[], .node f.lower, f.line, []⟩).Spells f.lexemes :=
    ⟨[], f.asExpression, ⟨[], [], rfl, rfl, rfl⟩, f.lexemes_asExpression.symm,
      f.phrase_asExpression, f.lastOperand_asExpression, f, rfl, rfl⟩
  have he : e.ReadsExpression := e.reads
  obtain ⟨phrase, o, -, hrun⟩ := he.behind hb ⟨[], .node f.lower, f.line, []⟩ rfl
  obtain ⟨ys, joined, ⟨us, ds, rfl, rfl, hds⟩, hx, -⟩ := hf.readAll (hrun place)
  -- what was read before the function can only be semicolons, and it does not begin with one
  rcases ds with _ | ⟨d, ds⟩
  · exact ⟨joined, hx.symm⟩
  · have hd : d.lower = [] := (List.append_eq_nil_iff.mp hds.symm).1
    cases d with
    | skip q => cases f with | named => cases (List.cons.inj hx).1
    | _ => cases hd

/-! ### What may stand behind a function -/

theorem eq_done_of_lexemes_eq_nil {d : Derivation .statements} (h : d.lexemes = []) : d = done := by
  cases d with
  | done => rfl
  | last e => exact absurd h e.lexemes_ending_ne_nil
  | cons first rest =>
      exact absurd (List.append_eq_nil_iff.mp h).1 first.lexemes_statement_ne_nil

/-- Statements that go on with an expression begin with a token that can also begin one. -/
theorem beginsEither_of_continues {d : Derivation .statements} (hc : ContinuesOrEnds d.lexemes)
    (hd : d.lexemes ≠ []) : BeginsEither d.lexemes := by
  obtain ⟨x, rest, hx⟩ := List.exists_cons_of_ne_nil hd
  rw [hx] at hc
  rw [hx, beginsEither_cons]
  exact (beginsStatement_of_lexemes hx).2 (hc x rfl)

theorem exists_value_of_beginsEither {t : Derivation .ending} (h : BeginsEither t.lexemes) :
    ∃ e, t = value e := by
  cases t with
  | value e => exact ⟨e, rfl⟩
  | _ => exact absurd h not_beginsEither_of_keyword

/-- Statements that begin so begin with an expression. -/
theorem exists_expression_of_beginsEither {d : Derivation .statements}
    (h : BeginsEither d.lexemes) :
    (∃ e, d = last (value e) ∧ BeginsEither e.lexemes) ∨
      ∃ e q rest, d = cons (ended (value e) q) rest ∧ BeginsEither e.lexemes := by
  cases d with
  | done =>
      obtain ⟨x, rest, hx, -⟩ := h
      cases hx
  | last t =>
      obtain ⟨e, rfl⟩ := exists_value_of_beginsEither h
      exact .inl ⟨e, rfl, h⟩
  | cons first rest =>
      cases first with
      | ended t q =>
          rw [lexemes, lexemes, List.append_assoc] at h
          have ht := h.of_append t.lexemes_ending_ne_nil
          obtain ⟨e, rfl⟩ := exists_value_of_beginsEither ht
          exact .inr ⟨e, q, rest, rfl, ht⟩
      | chosen k => cases k with | choice => exact absurd h not_beginsEither_of_keyword
      | defined f => cases f with | named => exact absurd h not_beginsEither_of_keyword
      | skip q =>
          rw [lexemes, lexemes, List.singleton_append, beginsEither_cons] at h
          rcases h with h | h <;> cases h

/-- What stands behind a function in an expression, and could be statements, is nothing or one
expression without a semicolon. -/
theorem eq_done_or_last_of_lexemes_eq {f : Derivation .named} {e : Derivation .expression}
    {d : Derivation .statements} (h : e.lexemes = f.lexemes ++ d.lexemes)
    (hc : ContinuesOrEnds d.lexemes) :
    d = done ∨ ∃ e', d = last (value e') ∧ BeginsEither e'.lexemes := by
  by_cases hd : d.lexemes = []
  · exact .inl (eq_done_of_lexemes_eq_nil hd)
  rcases exists_expression_of_beginsEither (beginsEither_of_continues hc hd) with
    hlast | ⟨e', q, rest, rfl, hb⟩
  · exact .inr hlast
  · -- the semicolon would stand in the expression
    obtain ⟨joined, hjoined⟩ := exists_joined f hb
    refine absurd ?_ (e.lexemes_expression_ne joined q rest.lexemes)
    rw [h, hjoined]
    simp [lexemes]

end Derivation

/-! ### Ways to read a list -/

/-- What a named function at the beginning of a list of statements is. -/
inductive Opening
  /-- A statement of its own. -/
  | statement
  /-- The beginning of an expression that ends at a semicolon. -/
  | expression
  /-- The beginning of an expression that is the whole list. -/
  | tail

namespace Derivation

/-- Whether a list begins with a function that has the tokens of this one, and what the function
is there. -/
def OpensWith (b : Derivation .statements) (f : Derivation .named) : Opening → Prop
  | .statement => ∃ g rest, b = cons (defined g) rest ∧ g.lexemes = f.lexemes
  | .expression => ∃ e q rest, b = cons (ended (value e) q) rest ∧ e.BeginsWith f
  | .tail => ∃ e, b = last (value e) ∧ e.BeginsWith f

/-- Whether the tokens of a list can be read in one of these ways. -/
def MayOpenWith (b : Derivation .statements) (f : Derivation .named) (o : Opening) : Prop :=
  ∃ b' : Derivation .statements, b'.lexemes = b.lexemes ∧ b'.OpensWith f o

/-- How a list that begins with a named function has been read, given how it may be read, and the
tokens behind the function. Where function statement and expression are both possible, and the
expression ends at a semicolon, it is the first statement. Where the expression is the whole list,
the function is one statement, and what stands behind it is the other. -/
structure ResolvesTie (b : Derivation .statements) (f : Derivation .named) (behind : List Lexeme) :
    Prop where
  statement : ¬b.MayOpenWith f .expression → ¬b.MayOpenWith f .tail → b.OpensWith f .statement
  expression : ¬b.MayOpenWith f .statement → b.OpensWith f .expression ∨ b.OpensWith f .tail
  tie : b.MayOpenWith f .statement → b.MayOpenWith f .expression ∨ b.MayOpenWith f .tail →
    BeginsEither behind ∨ behind = [] ∨ ∃ q more, behind = ⟨.punctuation .semicolon, q⟩ :: more
  semicolon : b.MayOpenWith f .statement → b.MayOpenWith f .expression →
    b.OpensWith f .expression
  tail : b.MayOpenWith f .statement → b.MayOpenWith f .tail →
    ∃ g, g.lexemes = f.lexemes ∧ (behind = [] ∧ b = cons (defined g) done ∨
      ∃ e, e.lexemes = behind ∧ b = cons (defined g) (last (value e)))

/-- A list whose tokens begin with those of a named function begins with it in one of the ways. -/
theorem exists_opensWith {b : Derivation .statements} {f : Derivation .named} {xs : List Lexeme}
    (h : b.lexemes = f.lexemes ++ xs) : ∃ o, b.OpensWith f o := by
  have keyword {k : Keyword} {p : Position} {ys : List Lexeme}
      (hk : ⟨.keyword k, p⟩ :: ys = f.lexemes ++ xs) : k = .wordFunction := by
    cases f with
    | named => exact Token.keyword.inj (congrArg Lexeme.token (List.cons.inj hk).1)
  have ending {t : Derivation .ending} (ys : List Lexeme) (ht : t.lexemes ++ ys = f.lexemes ++ xs) :
      ∃ e, t = value e ∧ e.BeginsWith f := by
    cases t with
    | value e => exact ⟨e, rfl, beginsWith_of_lexemes_eq ht.symm⟩
    | bareReturn p => cases keyword ht
    | giveBack p e => cases keyword ht
    | bareDeclaration k hk w n p =>
        obtain rfl := keyword ht
        cases hk
    | declaration k hk w n p a e =>
        obtain rfl := keyword ht
        cases hk
  cases b with
  | done => cases f with | named => cases h
  | last t =>
      obtain ⟨e, rfl, he⟩ := ending [] ((List.append_nil _).trans h)
      exact ⟨.tail, e, rfl, he⟩
  | cons first rest =>
      cases first with
      | ended t q =>
          rw [lexemes, lexemes, List.append_assoc] at h
          obtain ⟨e, rfl, he⟩ := ending _ h
          exact ⟨.expression, e, q, rest, rfl, he⟩
      | chosen k => cases k with | choice => cases keyword h
      | defined g => exact ⟨.statement, g, rest, rfl, (lexemes_named_inj h).1⟩
      | skip q => cases f with | named => cases h

/-! ### Lists with the preferred readings -/

/-- Whether a list has the readings that are preferred. No statement that ends at a semicolon could
begin it where it begins with a function, and where it ends in an expression, no function statement
could stand before that. Nothing is asked of trees that are no lists. -/
def Resolved {c : Symbol} : Derivation c → Prop
  | last e => ¬∃ f rest, (cons (defined f) rest).lexemes = e.lexemes
  | cons first rest =>
    (∀ f, first = defined f →
      ¬∃ e q more, (cons (ended e q) more).lexemes = f.lexemes ++ rest.lexemes) ∧ rest.Resolved
  | _ => True

/-- Whether a list is resolved does not depend on the blocks in it. -/
theorem Resolved.exchange {g : Derivation .statements → Derivation .statements}
    (hg : ∀ b, (g b).lexemes = b.lexemes) : {d : Derivation .statements} → d.Resolved →
      (d.exchange g).Resolved
  | done, _ => trivial
  | last e, h => by
      rw [Derivation.exchange, Resolved, lexemes_exchange hg]
      exact h
  | cons first rest, h => by
      refine ⟨fun f hf => ?_, Resolved.exchange hg h.2⟩
      cases first with
      | defined f₀ =>
          obtain rfl : f₀.exchange g = f := defined.inj hf
          rw [lexemes_exchange hg, lexemes_exchange hg]
          exact h.1 f₀ rfl
      | _ => cases hf

/-- Every list has the tokens of a resolved one. -/
theorem exists_resolved (b : Derivation .statements) :
    ∃ b' : Derivation .statements, b'.lexemes = b.lexemes ∧ b'.Resolved := by
  induction hn : b.lexemes.length using Nat.strong_induction_on generalizing b with
  | _ n ih =>
      have behind {first : Derivation .statement} {rest : Derivation .statements}
          (h : (cons first rest).lexemes = b.lexemes) :
          ∃ rest', (cons first rest').lexemes = b.lexemes ∧ rest'.lexemes = rest.lexemes ∧
            rest'.Resolved := by
        have hlt : rest.lexemes.length < n := by
          have hfirst := List.length_pos_of_ne_nil first.lexemes_statement_ne_nil
          rw [← hn, ← h, lexemes, List.length_append]
          omega
        obtain ⟨rest', hrest, hr⟩ := ih _ hlt rest rfl
        exact ⟨rest', by rw [← h, lexemes, lexemes, hrest], hrest, hr⟩
      by_cases hended : ∃ e q more, (cons (ended e q) more).lexemes = b.lexemes
      · obtain ⟨e, q, more, h⟩ := hended
        obtain ⟨more', h', -, hr⟩ := behind h
        exact ⟨cons (ended e q) more', h', nofun, hr⟩
      by_cases hdefined : ∃ f rest, (cons (defined f) rest).lexemes = b.lexemes
      · obtain ⟨f, rest, h⟩ := hdefined
        obtain ⟨rest', h', -, hr⟩ := behind h
        refine ⟨cons (defined f) rest', h', fun g hg => ?_, hr⟩
        rw [← defined.inj hg]
        rw [← h'] at hended
        exact hended
      cases b with
      | done => exact ⟨done, rfl, trivial⟩
      | last e => exact ⟨last e, rfl, hdefined⟩
      | cons first rest =>
          obtain ⟨rest', h', -, hr⟩ := behind rfl
          exact ⟨cons first rest', h', fun f hf => absurd ⟨f, rest, hf ▸ rfl⟩ hdefined, hr⟩

/-- Every list has the tokens of one that is resolved at every depth. -/
theorem exists_resolved_everywhere (b : Derivation .statements) :
    ∃ b' : Derivation .statements, b'.lexemes = b.lexemes ∧ ∀ x ∈ b' :: b'.bodies, x.Resolved := by
  induction hn : b.lexemes.length using Nat.strong_induction_on generalizing b with
  | _ n ih =>
      -- the blocks of a resolved list are shorter, and each is exchanged for what is known of it
      have shorter (x : Derivation .statements) : ∃ x' : Derivation .statements,
          x'.lexemes = x.lexemes ∧
            (x.lexemes.length < n → ∀ y ∈ x' :: x'.bodies, y.Resolved) := by
        by_cases hlt : x.lexemes.length < n
        · obtain ⟨x', hx, hr⟩ := ih _ hlt x rfl
          exact ⟨x', hx, fun _ => hr⟩
        · exact ⟨x, rfl, fun h => absurd h hlt⟩
      choose g hg hresolved using shorter
      obtain ⟨b', hb, hr⟩ := b.exists_resolved
      refine ⟨b'.exchange g, (lexemes_exchange hg b').trans hb, List.forall_mem_cons.mpr
        ⟨hr.exchange hg, forall_mem_bodies_exchange fun x hx => ?_⟩⟩
      have hlt : x.lexemes.length < n := by
        rw [← hn, ← hb]
        exact length_lt_of_mem_bodies hx
      exact List.forall_mem_cons.mp (hresolved x hlt)

/-- Preferred readings are those that are read. -/
theorem Resolved.wellChosen : {d : Derivation .statements} → d.Resolved → d.WellChosen
  | done, _ => trivial
  | last t, h => by
      rintro ⟨f, e, hx, -⟩
      exact h ⟨f, last (value e), hx.symm⟩
  | cons first rest, h => by
      refine ⟨fun f hf hb => ?_, h.2.wellChosen⟩
      rcases exists_expression_of_beginsEither hb with ⟨e, he, -⟩ | ⟨e, q, more, rfl, he⟩
      · exact ⟨e, he⟩
      · -- function and expression could be one expression, which ends at the semicolon
        obtain ⟨joined, hjoined⟩ := exists_joined f he
        refine absurd ⟨value joined, q, more, ?_⟩ (h.1 f hf)
        simp [lexemes, hjoined]

section

variable {b : Derivation .statements} {f : Derivation .named} {behind : List Lexeme}

/-- A whole list is not one expression and something behind a semicolon at once. -/
theorem not_mayOpenWith_expression_of_tail (h : b.MayOpenWith f .tail) :
    ¬b.MayOpenWith f .expression := by
  obtain ⟨_, ht, e, rfl, -⟩ := h
  rintro ⟨_, hx, e', q, rest, rfl, -⟩
  refine e.lexemes_expression_ne e' q rest.lexemes ?_
  rw [lexemes, lexemes] at ht
  rw [ht, ← hx]
  simp [lexemes]

/-- An expression that ends at a semicolon is preferred to a function statement. -/
theorem Resolved.not_mayOpenWith_expression (h : b.Resolved) (hb : b.OpensWith f .statement) :
    ¬b.MayOpenWith f .expression := by
  obtain ⟨g, rest, rfl, -⟩ := hb
  rintro ⟨_, hx, e, q, more, rfl, -⟩
  exact h.1 g rfl ⟨value e, q, more, hx⟩

/-- A function statement is preferred to an expression that is the whole list. -/
theorem Resolved.not_mayOpenWith_statement (h : b.Resolved) (hb : b.OpensWith f .tail) :
    ¬b.MayOpenWith f .statement := by
  obtain ⟨e, rfl, -⟩ := hb
  rintro ⟨_, hx, g, rest, rfl, -⟩
  exact h ⟨g, rest, hx⟩

/-- Where a function may be a statement of its own, more statements may stand behind it. -/
theorem MayOpenWith.exists_rest (h : b.MayOpenWith f .statement)
    (hx : b.lexemes = f.lexemes ++ behind) :
    ∃ rest : Derivation .statements, rest.lexemes = behind := by
  obtain ⟨_, hb, g, rest, rfl, hg⟩ := h
  rw [hx, lexemes, lexemes, hg] at hb
  exact ⟨rest, List.append_cancel_left hb⟩

/-- Where an expression may be the whole list, what stands behind the function continues it. -/
theorem MayOpenWith.continuesOrEnds (h : b.MayOpenWith f .tail)
    (hx : b.lexemes = f.lexemes ++ behind) : ContinuesOrEnds behind := by
  obtain ⟨_, hb, e, rfl, he⟩ := h
  obtain ⟨xs, hxs, hc⟩ := he.exists_lexemes_eq
  rw [hx, lexemes, lexemes, hxs] at hb
  exact List.append_cancel_left hb ▸ hc

/-- Where an expression may end at a semicolon, this may stand directly behind the function. -/
theorem MayOpenWith.continues_or_semicolon (h : b.MayOpenWith f .expression)
    (hx : b.lexemes = f.lexemes ++ behind) :
    ContinuesOrEnds behind ∨ ∃ q more, behind = ⟨.punctuation .semicolon, q⟩ :: more := by
  obtain ⟨_, hb, e, q, rest, rfl, he⟩ := h
  obtain ⟨xs, hxs, hc⟩ := he.exists_lexemes_eq
  rw [hx, lexemes, lexemes, lexemes, hxs, List.append_assoc, List.append_assoc] at hb
  obtain rfl := List.append_cancel_left hb
  cases xs with
  | nil => exact .inr ⟨q, rest.lexemes, rfl⟩
  | cons x xs => exact .inl hc

/-- Function statement and expression tie only before a parenthesis or a minus sign, unless the
function is all of either. -/
theorem begins_of_mayOpenWith (hx : b.lexemes = f.lexemes ++ behind)
    (hs : b.MayOpenWith f .statement)
    (he : b.MayOpenWith f .expression ∨ b.MayOpenWith f .tail) :
    BeginsEither behind ∨ behind = [] ∨
      ∃ q more, behind = ⟨.punctuation .semicolon, q⟩ :: more := by
  obtain ⟨rest, rfl⟩ := hs.exists_rest hx
  have continues (hc : ContinuesOrEnds rest.lexemes) :
      BeginsEither rest.lexemes ∨ rest.lexemes = [] := by
    by_cases hnil : rest.lexemes = []
    · exact .inr hnil
    · exact .inl (beginsEither_of_continues hc hnil)
  rcases he with he | he
  · rcases he.continues_or_semicolon hx with hc | hsemicolon
    · exact (continues hc).imp_right .inl
    · exact .inr (.inr hsemicolon)
  · exact (continues (he.continuesOrEnds hx)).imp_right .inl

/-- A list with the preferred readings resolves its tie. -/
theorem Resolved.resolvesTie (hb : b.Resolved) (hx : b.lexemes = f.lexemes ++ behind) :
    b.ResolvesTie f behind := by
  have may {o : Opening} (ho : b.OpensWith f o) : b.MayOpenWith f o := ⟨b, rfl, ho⟩
  obtain ⟨o, ho⟩ := exists_opensWith hx
  cases o with
  | statement =>
      refine ⟨fun _ _ => ho, fun hnot => absurd (may ho) hnot, begins_of_mayOpenWith hx,
        fun _ he => absurd he (hb.not_mayOpenWith_expression ho), fun _ ht => ?_⟩
      have hc := ht.continuesOrEnds hx
      obtain ⟨_, he, e, rfl, -⟩ := ht
      obtain ⟨g, rest, rfl, hg⟩ := ho
      rw [lexemes, lexemes, hg] at hx
      obtain rfl := List.append_cancel_left hx
      rw [lexemes, lexemes, lexemes, lexemes, hg] at he
      rcases eq_done_or_last_of_lexemes_eq he hc with rfl | ⟨e', rfl, -⟩
      · exact ⟨g, hg, .inl ⟨rfl, rfl⟩⟩
      · exact ⟨g, hg, .inr ⟨e', rfl, rfl⟩⟩
  | expression =>
      exact ⟨fun hnot _ => absurd (may ho) hnot, fun _ => .inl ho, begins_of_mayOpenWith hx,
        fun _ _ => ho, fun _ ht => absurd (may ho) (not_mayOpenWith_expression_of_tail ht)⟩
  | tail =>
      exact ⟨fun _ hnot => absurd (may ho) hnot, fun _ => .inr ho, begins_of_mayOpenWith hx,
        fun hs _ => absurd hs (hb.not_mayOpenWith_statement ho),
        fun hs _ => absurd hs (hb.not_mayOpenWith_statement ho)⟩

end

end Derivation

/-! ### Programs -/

/-- **Ties are resolved at every depth.** A text with the tokens of a tree is the program that some
tree with these tokens means, and each list of statements in that tree, in whatever block it stands,
resolves its tie if it begins with a named function. -/
theorem program_resolvesTies {source : String} {d : Derivation .program}
    (hb : (scan source.toList).bad = none)
    (hs : ∀ x ∈ (scan source.toList).lexemes, x.token.oversize? = none)
    (hd : d.lexemes = (scan source.toList).lexemes) :
    ∃ body : Derivation .statements, body.lexemes = (scan source.toList).lexemes ∧
      program source = .ok (Derivation.program body).lower ∧
      ∀ b ∈ body :: body.bodies, ∀ f behind, b.lexemes = f.lexemes ++ behind →
        b.ResolvesTie f behind := by
  cases d with
  | program d =>
      obtain ⟨body, hbody, hresolved⟩ := d.exists_resolved_everywhere
      obtain ⟨r, ns, hr, hf, hexact⟩ := body.exists_readAll_of_settled
      have hx : body.lexemes = (scan source.toList).lexemes := hbody.trans hd
      obtain ⟨hfirst, hbodies⟩ := List.forall_mem_cons.mp hresolved
      rw [hx] at hr
      refine ⟨body, hx, ?_, fun b hb f behind hx => (hresolved b hb).resolvesTie hx⟩
      rw [lower_program hx, ← hexact hfirst.wellChosen fun b hb => (hbodies b hb).wellChosen]
      exact program_of_finish? source hr hb hf (List.findSome?_eq_none_iff.mpr hs)

namespace Nested

/-- A function with a parenthesis behind it, and in its body another one. -/
def source : String := "function f() \x7bfunction g() \x7b\x7d (1)\x7d (2);"

/-- An integer as an expression. -/
def number (digits : String) (place : Position) : Derivation .expression :=
  (Derivation.uncut (.head (.integer digits place))).alone

/-- The inner function. -/
def inner : Derivation .named :=
  .named ⟨1, 15⟩ "g" ⟨1, 24⟩ ⟨1, 25⟩ .noParameters ⟨1, 26⟩ (.block ⟨1, 28⟩ .done ⟨1, 29⟩)

/-- The outer function, with the inner one as a statement of its own. -/
def outer : Derivation .named :=
  .named ⟨1, 1⟩ "f" ⟨1, 10⟩ ⟨1, 11⟩ .noParameters ⟨1, 12⟩ (.block ⟨1, 14⟩
    (.cons (.defined inner) (.last (.value (Derivation.uncut (.head
      (.parentheses ⟨1, 31⟩ (number "1" ⟨1, 32⟩) ⟨1, 33⟩))).alone))) ⟨1, 34⟩)

/-- The outer function as a statement, and what stands behind it as another one. -/
def apart : Derivation .statements :=
  .cons (.defined outer) (.cons (.ended (.value (Derivation.uncut (.head
    (.parentheses ⟨1, 36⟩ (number "2" ⟨1, 37⟩) ⟨1, 38⟩))).alone) ⟨1, 39⟩) .done)

/-- Both as one call. -/
def joined : Derivation .statements :=
  .cons (.ended (.value (Derivation.uncut (.call (.head (.function outer)) ⟨1, 36⟩
    (.arguments (.oneExpression (number "2" ⟨1, 37⟩))) ⟨1, 38⟩)).alone) ⟨1, 39⟩) .done

theorem lexemes_apart : apart.lexemes = (scan source.toList).lexemes := by
  with_unfolding_all rfl

theorem lexemes_joined : joined.lexemes = apart.lexemes := rfl

end Nested

/-- The semicolon far behind the outer function makes it the beginning of an expression. -/
theorem program_resolvesTies_nested : ∃ body : Derivation .statements,
    program Nested.source = .ok (Derivation.program body).lower ∧
      body.OpensWith Nested.outer .expression := by
  obtain ⟨body, hx, hp, h⟩ := @program_resolvesTies Nested.source (.program Nested.apart)
    (by decide +kernel) (by decide +kernel) Nested.lexemes_apart
  have hbody : body.lexemes = Nested.apart.lexemes := hx.trans Nested.lexemes_apart.symm
  refine ⟨body, hp, (h body List.mem_cons_self Nested.outer _ hbody).semicolon ?_ ?_⟩
  · exact ⟨Nested.apart, hbody.symm, Nested.outer, _, rfl, rfl⟩
  · exact ⟨Nested.joined, Nested.lexemes_joined.trans hbody.symm, _, _, _, rfl, Nested.outer, rfl,
      rfl⟩

-- in its body, where no semicolon follows, the inner function is a statement
example : program Nested.source = .ok (.block [.call (.function (some "f") [] (.block
    [.function (some "g") [] (.block [] 1) 1, .constant (.integer 1) 1] 1) 1)
    [.constant (.integer 2) 1] 1] 1) := by
  with_unfolding_all rfl

end Scriptlet.Source
