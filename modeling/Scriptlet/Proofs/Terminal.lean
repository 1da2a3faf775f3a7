import Scriptlet.Proofs.Grammar

/-!
# What the Scanner Finds

Each terminal of the grammar, and each kind of text that is skipped, is the set of texts that it
matches (`Piece.Matched`). The scanner cuts off nothing else, and it stops only where no terminal
matches anything. Every token, and the character that stopped the scanner, stand in the text where
their positions say.

## Main results

* `Piece.matched_of_firstPiece?`: whatever is cut off is matched by a terminal.
* `firstPiece?_eq_none_iff`: nothing is cut off exactly where no terminal matches.
* `wellSpelled_of_mem_scan`, `place_of_mem_scan`, `place_of_bad`: the tokens of a text, and its
  bad character.
-/

namespace Scriptlet.Source

open Scriptlet.Text (Position)

/-! ### Texts that terminals match -/

/-- Whether a piece is one that a terminal matches, or the rules for blanks and comments. A
comment runs to the end of its line, or is closed by the mark that ends it. -/
def Piece.Matched : Piece → Prop
  | token t => t.WellSpelled
  | blank text => text ≠ [] ∧ ∀ c ∈ text, isBlank c = true
  | comment text => (∃ rest, text = '/' :: '/' :: rest ∧ '\n' ∉ rest) ∨
      ∃ body, text = '/' :: '*' :: (body ++ ['*', '/'])

/-! ### What is cut off is matched -/

/-- Keywords are written with name characters. -/
theorem Keyword.nameText (k : Keyword) : NameText k.text.toList := by
  cases k <;> exact ⟨_, _, rfl, by decide, List.all_eq_true.mp (by decide)⟩

/-- A run of name characters is a keyword or a name. -/
theorem wellSpelled_word {cs : List Char} (h : NameText cs) : (word cs).WellSpelled := by
  unfold word
  split
  · trivial
  next hk =>
      refine ⟨by simpa using h, fun k hks => ?_⟩
      rw [Keyword.ofText?_eq_some_iff.mpr hks] at hk
      cases hk

/-- What is taken passes the test. -/
theorem mem_takeWhile {α : Type} {f : α → Bool} {a : α} {as : List α} (h : a ∈ as.takeWhile f) :
    f a = true :=
  List.all_eq_true.mp List.all_takeWhile a h

/-- What stands before the closing mark of a string literal is the body of one. -/
theorem literalBody_of_splitLiteral {mark : Quote} {cs body after : List Char}
    (h : splitLiteral mark cs = some (body, after)) : LiteralBody mark body := by
  fun_induction splitLiteral mark cs generalizing body after with
  | case1 => cases h
  | case2 =>
      obtain ⟨rfl, rfl⟩ := Prod.mk.inj (Option.some.inj h)
      exact .nil
  | case3 => cases h
  | case4 =>
      obtain ⟨rfl, rfl⟩ := Prod.mk.inj (Option.some.inj h)
      exact .nil
  | case5 => cases h
  | case6 => cases h
  | case7 d rest hd hm hn ih =>
      simp only [Option.map_eq_some_iff, Prod.mk.injEq] at h
      obtain ⟨⟨b, a⟩, hs, rfl, rfl⟩ := h
      exact .escape hd (ih hs)
  | case8 c d rest hm hn hb ih =>
      simp only [Option.map_eq_some_iff, Prod.mk.injEq] at h
      obtain ⟨⟨b, a⟩, hs, rfl, rfl⟩ := h
      exact .plain hm hb hn (ih hs)

/-- A block comment ends with the mark that closes it. -/
theorem exists_of_splitComment {cs body after : List Char}
    (h : splitComment cs = some (body, after)) : ∃ inner, body = inner ++ ['*', '/'] := by
  fun_induction splitComment cs generalizing body after with
  | case1 => cases h
  | case2 => cases h
  | case3 c d rest hc =>
      obtain ⟨rfl, rfl⟩ := hc
      obtain ⟨rfl, rfl⟩ := Prod.mk.inj (Option.some.inj h)
      exact ⟨[], rfl⟩
  | case4 c d rest hc ih =>
      simp only [Option.map_eq_some_iff, Prod.mk.injEq] at h
      obtain ⟨⟨b, a⟩, hs, rfl, rfl⟩ := h
      obtain ⟨inner, rfl⟩ := ih hs
      exact ⟨c :: inner, rfl⟩

/-- A literal is matched by its own pattern. -/
theorem matched_of_literalPiece? {mark : Quote} {cs after : List Char} {p : Piece}
    (h : literalPiece? mark cs = some (p, after)) : p.Matched := by
  simp only [literalPiece?, Option.map_eq_some_iff, Prod.mk.injEq] at h
  obtain ⟨⟨b, a⟩, hs, rfl, rfl⟩ := h
  simpa [Piece.Matched, Token.WellSpelled] using literalBody_of_splitLiteral hs

/-- So is what begins with a slash. -/
theorem matched_slashPiece (cs : List Char) : (slashPiece cs).1.Matched := by
  unfold slashPiece
  split
  next rest =>
      refine .inl ⟨_, rfl, fun h => ?_⟩
      simpa using mem_takeWhile h
  · split
    next h =>
        obtain ⟨inner, rfl⟩ := exists_of_splitComment h
        exact .inr ⟨inner, rfl⟩
    next => trivial
  · trivial

/-- Operators and marks have one spelling each. -/
theorem wellSpelled_of_symbol? {c : Char} {cs after : List Char} {t : Token}
    (h : symbol? c cs = some (t, after)) : t.WellSpelled := by
  unfold symbol? at h
  split at h <;> simp only [Option.some.injEq, Prod.mk.injEq, reduceCtorEq] at h <;>
    obtain ⟨rfl, rfl⟩ := h <;> trivial

/-- Whatever is cut off is matched by a terminal. -/
theorem Piece.matched_of_firstPiece? {cs after : List Char} {p : Piece}
    (h : firstPiece? cs = some (p, after)) : p.Matched := by
  cases cs with
  | nil => cases h
  | cons c cs =>
      simp only [firstPiece?] at h
      split at h
      next hc =>
          obtain ⟨rfl, rfl⟩ := Prod.mk.inj (Option.some.inj h)
          refine ⟨List.cons_ne_nil c _, fun d hd => ?_⟩
          rcases List.mem_cons.mp hd with rfl | hd
          · exact hc
          · exact mem_takeWhile hd
      split at h
      next hc =>
          obtain ⟨rfl, rfl⟩ := Prod.mk.inj (Option.some.inj h)
          exact wellSpelled_word ⟨c, _, rfl, hc, fun d hd => mem_takeWhile hd⟩
      split at h
      next hc =>
          obtain ⟨rfl, rfl⟩ := Prod.mk.inj (Option.some.inj h)
          refine ⟨by simp, fun d hd => ?_⟩
          rcases List.mem_cons.mp (String.toList_ofList ▸ hd) with rfl | hd
          · exact hc
          · exact mem_takeWhile hd
      split at h
      next => exact matched_of_literalPiece? h
      split at h
      next => exact matched_of_literalPiece? h
      split at h
      next =>
          rw [← (Prod.mk.inj (Option.some.inj h)).1]
          exact matched_slashPiece cs
      next =>
          simp only [Option.map_eq_some_iff, Prod.mk.injEq] at h
          obtain ⟨⟨t, a⟩, hs, rfl, rfl⟩ := h
          exact wellSpelled_of_symbol? hs

/-! ### Where nothing is cut off, no terminal matches -/

/-- A string literal that a terminal matches is split where it ends. -/
theorem splitLiteral_of_literalBody {mark : Quote} {body : List Char} (h : LiteralBody mark body)
    (after : List Char) :
    splitLiteral mark (body ++ mark.char :: after) = some (body, after) := by
  induction h with
  | nil => cases after <;> simp [splitLiteral]
  | @plain c cs hm hb hn rest ih =>
      obtain ⟨d, t, hd⟩ : ∃ d t, cs ++ mark.char :: after = d :: t := by
        cases cs <;> exact ⟨_, _, rfl⟩
      rw [hd] at ih
      rw [List.cons_append, hd]
      simp [splitLiteral, hm, hn, hb, ih]
  | @escape c cs hn rest ih =>
      have hm : '\\' ≠ mark.char := by cases mark <;> decide
      simp [splitLiteral, hm, hn, ih]

/-- There is a piece where a name starts. -/
theorem isSome_firstPiece?_of_startsName {c : Char} (h : startsName c = true) (cs : List Char) :
    (firstPiece? (c :: cs)).isSome = true := by
  by_cases hb : isBlank c = true
  · rw [firstPiece?, if_pos hb]
    rfl
  · rw [firstPiece?, if_neg hb, if_pos h]
    rfl

/-- There is one where a digit is. -/
theorem isSome_firstPiece?_of_isDigit {c : Char} (h : c.isDigit = true) (cs : List Char) :
    (firstPiece? (c :: cs)).isSome = true := by
  by_cases hb : isBlank c = true
  · rw [firstPiece?, if_pos hb]
    rfl
  by_cases hn : startsName c = true
  · exact isSome_firstPiece?_of_startsName hn cs
  · rw [firstPiece?, if_neg hb, if_neg hn, if_pos h]
    rfl

/-- There is one before a word. -/
theorem isSome_firstPiece?_word {cs : List Char} (h : NameText cs) (after : List Char) :
    (firstPiece? (cs ++ after)).isSome = true := by
  obtain ⟨c, rest, rfl, hc, -⟩ := h
  exact isSome_firstPiece?_of_startsName hc _

/-- There is one before a literal. -/
theorem isSome_firstPiece?_literal (mark : Quote) {body : List Char} (h : LiteralBody mark body)
    (after : List Char) :
    (firstPiece? (mark.char :: (body ++ mark.char :: after))).isSome = true := by
  have hs := splitLiteral_of_literalBody h after
  cases mark with
  | single =>
      show (literalPiece? .single _).isSome = true
      rw [literalPiece?, hs]
      rfl
  | double =>
      show (literalPiece? .double _).isSome = true
      rw [literalPiece?, hs]
      rfl

/-- There is one before a slash. -/
theorem isSome_firstPiece?_slash (cs : List Char) : (firstPiece? ('/' :: cs)).isSome = true := rfl

/-- Each operator and each mark can be cut off where it stands. -/
theorem isSome_symbol? (cs : List Char) :
    (symbol? '=' cs).isSome = true ∧ (symbol? '<' cs).isSome = true ∧
      (symbol? '>' cs).isSome = true := by
  refine ⟨?_, ?_, ?_⟩ <;> unfold symbol? <;> split <;> simp_all

/-- What a terminal matches, some piece can be cut off from. -/
theorem Piece.Matched.isSome_firstPiece? {p : Piece} (h : p.Matched) (after : List Char) :
    (firstPiece? (p.text ++ after)).isSome = true := by
  cases p with
  | blank text =>
      obtain ⟨hne, hb⟩ := h
      obtain ⟨c, cs, rfl⟩ := List.exists_cons_of_ne_nil hne
      rw [Piece.text, List.cons_append, firstPiece?, if_pos (hb c List.mem_cons_self)]
      rfl
  | comment text =>
      rcases h with ⟨rest, rfl, -⟩ | ⟨body, rfl⟩
      · exact isSome_firstPiece?_slash _
      · exact isSome_firstPiece?_slash _
  | token t =>
      cases t with
      | keyword k =>
          cases k <;> exact isSome_firstPiece?_of_startsName (by decide) _
      | name text => exact isSome_firstPiece?_word h.1 after
      | integer digits =>
          obtain ⟨hne, hd⟩ := h
          obtain ⟨c, cs, hcs⟩ := List.exists_cons_of_ne_nil hne
          have hc : c.isDigit = true := hd c (hcs ▸ List.mem_cons_self)
          rw [Piece.text, Token.text, hcs]
          exact isSome_firstPiece?_of_isDigit hc _
      | string mark body =>
          have hs := isSome_firstPiece?_literal mark h after
          simpa [Piece.text, Token.text] using hs
      | operator op =>
          obtain ⟨-, hless, hgreater⟩ := isSome_symbol? after
          cases op with
          | less => exact (Option.isSome_map ..).trans hless
          | greater => exact (Option.isSome_map ..).trans hgreater
          | divide => exact isSome_firstPiece?_slash _
          | _ => rfl
      | punctuation mark =>
          obtain ⟨hassign, -, -⟩ := isSome_symbol? after
          cases mark with
          | assign => exact (Option.isSome_map ..).trans hassign
          | _ => rfl

/-- Nothing is cut off a text exactly where no terminal matches. -/
theorem firstPiece?_eq_none_iff {cs : List Char} :
    firstPiece? cs = none ↔ ∀ p : Piece, p.Matched → ¬p.text <+: cs := by
  constructor
  · rintro h p hp ⟨after, rfl⟩
    have hs := hp.isSome_firstPiece? after
    rw [h] at hs
    cases hs
  · intro h
    cases hf : firstPiece? cs with
    | none => rfl
    | some found =>
        obtain ⟨p, after⟩ := found
        exact absurd ⟨after, firstPiece?_append hf⟩ (h p (Piece.matched_of_firstPiece? hf))

/-! ### Tokens and places -/

/-- Every piece of a text is matched. -/
theorem matched_of_mem_pieces {cs : List Char} {p : Piece} (h : p ∈ (pieces cs).1) :
    p.Matched := by
  fun_induction pieces cs with
  | case1 => cases h
  | case2 cs q after hq _ ih =>
      rcases List.mem_cons.mp h with rfl | h
      · exact Piece.matched_of_firstPiece? hq
      · exact ih h

/-- The token that a piece is, if it is one. -/
def Piece.token? : Piece → Option Token
  | token t => some t
  | blank _ | comment _ => none

/-- The tokens among pieces come in their order, and each stands behind the text of the pieces
before it. -/
theorem exists_of_lexemes_eq {p : Position} {ps : List Piece} {before after : List Lexeme}
    {x : Lexeme} (h : (lexemes p ps).1 = before ++ x :: after) :
    ∃ ps₁ ps₂, ps = ps₁ ++ .token x.token :: ps₂ ∧
      ps₁.filterMap Piece.token? = before.map Lexeme.token ∧
      x.position = p.after (ps₁.flatMap Piece.text) := by
  induction ps generalizing p before with
  | nil => simp [lexemes] at h
  | cons q rest ih =>
      have later {before} (h : (lexemes (p.after q.text) rest).1 = before ++ x :: after) :
          ∃ ps₁ ps₂, q :: rest = q :: ps₁ ++ .token x.token :: ps₂ ∧
            ps₁.filterMap Piece.token? = before.map Lexeme.token ∧
            x.position = p.after ((q :: ps₁).flatMap Piece.text) := by
        obtain ⟨ps₁, ps₂, rfl, htokens, hx⟩ := ih h
        exact ⟨ps₁, ps₂, rfl, htokens, by rw [hx, List.flatMap_cons, Position.after_append]⟩
      cases q with
      | token t =>
          cases before with
          | nil =>
              obtain ⟨rfl, -⟩ := List.cons.inj h
              exact ⟨[], rest, rfl, rfl, rfl⟩
          | cons y before =>
              obtain ⟨rfl, hrest⟩ := List.cons.inj h
              obtain ⟨ps₁, ps₂, hps, htokens, hx⟩ := later hrest
              exact ⟨.token t :: ps₁, ps₂, hps, congrArg (t :: ·) htokens, hx⟩
      | blank text =>
          obtain ⟨ps₁, ps₂, hps, htokens, hx⟩ := later h
          exact ⟨.blank text :: ps₁, ps₂, hps, htokens, hx⟩
      | comment text =>
          obtain ⟨ps₁, ps₂, hps, htokens, hx⟩ := later h
          exact ⟨.comment text :: ps₁, ps₂, hps, htokens, hx⟩

/-- A lexeme among pieces is one of them, at the place behind the text of those before it. -/
theorem exists_of_mem_lexemes {p : Position} {ps : List Piece} {x : Lexeme}
    (h : x ∈ (lexemes p ps).1) : ∃ before after, ps = before ++ .token x.token :: after ∧
      x.position = p.after (before.flatMap Piece.text) := by
  obtain ⟨_, _, hx⟩ := List.append_of_mem h
  obtain ⟨before, after, hps, -, hp⟩ := exists_of_lexemes_eq hx
  exact ⟨before, after, hps, hp⟩

/-- The tokens of a text are as their terminals demand them. -/
theorem wellSpelled_of_mem_scan {cs : List Char} {x : Lexeme} (h : x ∈ (scan cs).lexemes) :
    x.token.WellSpelled := by
  obtain ⟨before, after, hps, -⟩ := exists_of_mem_lexemes h
  have hmem : Piece.token x.token ∈ (pieces cs).1 := by
    rw [hps]
    simp
  exact matched_of_mem_pieces hmem

/-- A token of a text stands where its position says. -/
theorem place_of_mem_scan {cs : List Char} {x : Lexeme} (h : x ∈ (scan cs).lexemes) :
    ∃ before after, cs = before ++ x.token.text.toList ++ after ∧
      x.position = Position.start.after before := by
  obtain ⟨before, after, hps, hp⟩ := exists_of_mem_lexemes h
  have happend := pieces_append cs
  rw [hps, List.flatMap_append, List.flatMap_cons] at happend
  refine ⟨before.flatMap Piece.text, after.flatMap Piece.text ++ (pieces cs).2, ?_, hp⟩
  simpa [Piece.text] using happend.symm

/-- The bad character of a text stands where its position says, and no terminal matches
there. -/
theorem place_of_bad {cs : List Char} {bad : BadCharacter} (h : (scan cs).bad = some bad) :
    ∃ before after, cs = before ++ bad.char :: after ∧
      bad.position = Position.start.after before ∧
      ∀ p : Piece, p.Matched → ¬p.text <+: bad.char :: after := by
  obtain ⟨c, hc, rfl⟩ := Option.map_eq_some_iff.mp h
  obtain ⟨after, hleft⟩ := List.head?_eq_some_iff.mp hc
  refine ⟨(pieces cs).1.flatMap Piece.text, after, ?_, lexemes_finish _ _, ?_⟩
  · rw [← hleft]
    exact (pieces_append cs).symm
  · rw [← firstPiece?_eq_none_iff, ← hleft]
    exact firstPiece?_rest cs

end Scriptlet.Source
