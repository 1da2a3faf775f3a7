import Mathlib.Data.List.Chain
import Scriptlet.Proofs.Relining
import Scriptlet.Proofs.Separation

/-!
# Texts Made of Tokens

A text can be written token by token, with blanks between them. It is read as these tokens if each
of them ends before what comes behind it. Where a blank stands behind every token, that is so, and
where tokens stand next to one another it depends on the tokens alone.

A text with the tokens of a tree is a program, unless two readings of it tie. The tree of an
expression that is one operand or one row of operands is built here as well.

## Main definitions

* `Spaced`: a text is a row of tokens, with any blanks around them.
* `Typeset`: in such a text, each token ends where it is to end.
* `Token.MayTouch`: a token ends before another one.
* `Derivation.alone`, `Derivation.loosened`: an operand and a row as an expression.

## Main results

* `Typeset.scan`: the tokens that a text is made of are those that are found in it.
* `Spaced.typeset`: if the tokens may touch, any blanks around them will do.
* `program_of_lexemes`, `exists_program_of_tokens`: a text with the tokens of a tree is the program
  that the tree means.
-/

namespace Scriptlet.Source

open Scriptlet.Text (Position)

/-- Whether a text consists of blanks. -/
def Blank (cs : List Char) : Prop := ∀ c ∈ cs, isBlank c = true

/-- Whether a text is a row of tokens, with blanks or nothing before, between and behind them. -/
inductive Spaced : List Token → List Char → Prop
  | nil {blanks : List Char} (hb : Blank blanks) : Spaced [] blanks
  | cons {t : Token} {ts : List Token} {blanks rest : List Char} (hb : Blank blanks)
      (h : Spaced ts rest) : Spaced (t :: ts) (blanks ++ (t.text.toList ++ rest))

/-- Whether a token ends before another one that stands right behind it. -/
def Token.MayTouch (t u : Token) : Prop := ∀ c ∈ u.text.toList.head?, t.endsBefore c = true

/-- Whether a text is made of tokens, with blanks before, between and behind them, and each of them
ends where it is to end. -/
inductive Typeset : List Token → List Char → Prop
  | nil {blanks : List Char} (hb : Blank blanks) : Typeset [] blanks
  | cons {t : Token} {ts : List Token} {blanks rest : List Char} (hb : Blank blanks)
      (ht : t.WellSpelled) (hends : ∀ c ∈ rest.head?, t.endsBefore c = true)
      (h : Typeset ts rest) : Typeset (t :: ts) (blanks ++ (t.text.toList ++ rest))

/-! ### Pieces -/

/-- The tokens of some pieces, wherever these stand. -/
theorem tokens_lexemes (p : Position) (ps : List Piece) :
    (lexemes p ps).1.map Lexeme.token = ps.filterMap Piece.token? := by
  induction ps generalizing p with
  | nil => rfl
  | cons q rest ih =>
      cases q with
      | token t => exact congrArg (t :: ·) (ih _)
      | blank | comment => exact ih _

/-- There are no pieces in an empty text. -/
theorem pieces_nil : pieces [] = ([], []) := by
  rw [pieces]
  rfl

/-- The pieces of a text are the first one and those behind it. -/
theorem pieces_of_firstPiece? {cs after : List Char} {p : Piece}
    (h : firstPiece? cs = some (p, after)) :
    pieces cs = (p :: (pieces after).1, (pieces after).2) := by
  rw [pieces]
  split
  next hnone => cases h.symm.trans hnone
  next q rest hsome =>
      obtain ⟨rfl, rfl⟩ := Prod.mk.inj (Option.some.inj (hsome.symm.trans h))
      rfl

/-- Blanks are cut off together. -/
theorem firstPiece?_blank {c : Char} {blanks rest : List Char} (hb : Blank (c :: blanks))
    (hr : ∀ d ∈ rest.head?, isBlank d = false) :
    firstPiece? (c :: blanks ++ rest) = some (.blank (c :: blanks), rest) := by
  obtain ⟨hc, hb⟩ := List.forall_mem_cons.mp hb
  have hrest : rest.takeWhile isBlank = [] ∧ rest.dropWhile isBlank = rest := by
    cases rest with
    | nil => exact ⟨rfl, rfl⟩
    | cons d rest =>
        have hneg : ¬isBlank d = true := by
          rw [hr d rfl]
          exact Bool.false_ne_true
        exact ⟨List.takeWhile_cons_of_neg hneg, List.dropWhile_cons_of_neg hneg⟩
  rw [List.cons_append, firstPiece?, if_pos hc, List.takeWhile_append_of_pos hb,
    List.dropWhile_append_of_pos hb, hrest.1, hrest.2, List.append_nil]

/-- What a token can be cut off from does not begin with a blank. -/
theorem not_isBlank_of_firstPiece? {cs after : List Char} {t : Token}
    (h : firstPiece? cs = some (.token t, after)) : ∀ d ∈ cs.head?, isBlank d = false := by
  intro d hd
  obtain ⟨rest, rfl⟩ := List.head?_eq_some_iff.mp hd
  rw [← Bool.not_eq_true]
  intro hblank
  rw [firstPiece?, if_pos hblank] at h
  cases h

/-- Blanks at the beginning of a text are no token. -/
theorem pieces_blank_append {blanks cs : List Char} (hb : Blank blanks)
    (hcs : ∀ d ∈ cs.head?, isBlank d = false) :
    (pieces (blanks ++ cs)).1.filterMap Piece.token? = (pieces cs).1.filterMap Piece.token? ∧
      (pieces (blanks ++ cs)).2 = (pieces cs).2 := by
  cases blanks with
  | nil => exact ⟨rfl, rfl⟩
  | cons c blanks =>
      rw [pieces_of_firstPiece? (firstPiece?_blank hb hcs)]
      exact ⟨rfl, rfl⟩

/-- There are no tokens in blanks. -/
theorem pieces_blank {blanks : List Char} (hb : Blank blanks) :
    (pieces blanks).1.filterMap Piece.token? = [] ∧ (pieces blanks).2 = [] := by
  have h := @pieces_blank_append blanks [] hb nofun
  rw [List.append_nil, pieces_nil] at h
  exact h

namespace Typeset

/-! ### Scans -/

/-- The tokens of a text that was typeset are read from it. -/
theorem pieces {ts : List Token} {cs : List Char} (h : Typeset ts cs) :
    (Source.pieces cs).1.filterMap Piece.token? = ts ∧ (Source.pieces cs).2 = [] := by
  induction h with
  | nil hb => exact pieces_blank hb
  | cons hb ht hends _ ih =>
      have hcut := firstPiece?_text_append ht hends
      obtain ⟨htokens, hrest⟩ := pieces_blank_append hb (not_isBlank_of_firstPiece? hcut)
      rw [htokens, hrest, pieces_of_firstPiece? hcut]
      exact ⟨congrArg (_ :: ·) ih.1, ih.2⟩

/-- The tokens that a text is made of are those that are found in it, and all of it is read. -/
theorem scan {ts : List Token} {cs : List Char} (h : Typeset ts cs) :
    (Source.scan cs).tokens = ts ∧ (Source.scan cs).bad = none := by
  obtain ⟨htokens, hrest⟩ := h.pieces
  refine ⟨(tokens_lexemes .start _).trans htokens, ?_⟩
  rw [Source.scan]
  simp [hrest]

/-! ### Tokens with blanks behind them -/

/-- Tokens, each with a space behind it. -/
def spaced (ts : List Token) : List Char := ts.flatMap fun t => t.text.toList ++ [' ']

/-- Tokens with spaces behind them are read as what they are. -/
theorem of_spaced {ts : List Token} (h : ∀ t ∈ ts, t.WellSpelled) : Typeset ts (spaced ts) := by
  -- the space behind a token counts as the blank before the next one
  suffices hblank : Typeset ts (spaced ts) ∧ Typeset ts (' ' :: spaced ts) from hblank.1
  have hspace : Blank [' '] := List.forall_mem_singleton.mpr rfl
  induction ts with
  | nil => exact ⟨.nil (List.forall_mem_nil _), .nil hspace⟩
  | cons t rest ih =>
      obtain ⟨ht, hrest⟩ := List.forall_mem_cons.mp h
      have hends : ∀ c ∈ (' ' :: spaced rest).head?, t.endsBefore c = true := fun c hc => by
        obtain rfl := Option.some.inj hc
        exact t.endsBefore_of_isBlank rfl
      have htext : spaced (t :: rest) = t.text.toList ++ ' ' :: spaced rest := by
        rw [spaced, List.flatMap_cons, List.append_assoc]
        rfl
      rw [htext]
      have hnone : Blank [] := List.forall_mem_nil _
      exact ⟨.cons hnone ht hends (ih hrest).2, .cons hspace ht hends (ih hrest).2⟩

/-- Tokens with a space between them are read as what they are, too. -/
theorem of_intercalate {ts : List Token} (h : ∀ t ∈ ts, t.WellSpelled) :
    Typeset ts (" ".intercalate (ts.map Token.text)).toList := by
  -- but for the first token, the space stands before
  suffices hblank : ∀ blanks, Blank blanks →
      Typeset ts (blanks ++ (" ".intercalate (ts.map Token.text)).toList) from
    hblank [] (List.forall_mem_nil _)
  induction ts with
  | nil => exact fun blanks hb => .nil (List.forall_mem_append.mpr ⟨hb, List.forall_mem_nil _⟩)
  | cons t rest ih =>
      obtain ⟨ht, hrest⟩ := List.forall_mem_cons.mp h
      intro blanks hb
      have hspace : Blank [' '] := List.forall_mem_singleton.mpr rfl
      have hbehind := ih hrest [' '] hspace
      cases rest with
      | nil =>
          have htext : (" ".intercalate (List.map Token.text [t])).toList =
              t.text.toList ++ [] := by
            simp
          rw [htext]
          exact .cons hb ht (fun c hc => nomatch hc) (.nil (List.forall_mem_nil _))
      | cons u us =>
          have htext : (" ".intercalate ((t :: u :: us).map Token.text)).toList =
              t.text.toList ++ ([' '] ++ (" ".intercalate ((u :: us).map Token.text)).toList) := by
            rw [List.map_cons, List.map_cons, String.intercalate_cons_cons, String.toList_append,
              String.toList_append, List.append_assoc]
            rfl
          rw [htext]
          refine .cons hb ht (fun c hc => ?_) hbehind
          obtain rfl := Option.some.inj hc
          exact t.endsBefore_of_isBlank rfl

end Typeset

/-! ### Tokens with any blanks -/

namespace Spaced

variable {ts us : List Token} {cs ds : List Char}

/-- Further blanks do not count. -/
theorem blank_append {blanks : List Char} (hb : Blank blanks) (h : Spaced ts cs) :
    Spaced ts (blanks ++ cs) := by
  cases h with
  | nil hb' => exact .nil (List.forall_mem_append.mpr ⟨hb, hb'⟩)
  | cons hb' h =>
      rw [← List.append_assoc]
      exact .cons (List.forall_mem_append.mpr ⟨hb, hb'⟩) h

/-- Spaced texts may be put together. -/
theorem append (h : Spaced ts cs) (h' : Spaced us ds) : Spaced (ts ++ us) (cs ++ ds) := by
  induction h with
  | nil hb => exact h'.blank_append hb
  | cons hb _ ih =>
      rw [List.append_assoc, List.append_assoc]
      exact .cons hb ih

/-- A text begins with a blank or with its first token. -/
theorem head {u : Token} (hu : u.WellSpelled) (h : Spaced (u :: us) cs) :
    ∀ c ∈ cs.head?, isBlank c = true ∨ c ∈ u.text.toList.head? := by
  cases h with
  | @cons _ _ blanks rest hb h =>
      intro c hc
      cases blanks with
      | cons d blanks =>
          obtain rfl := Option.some.inj hc
          exact .inl (hb d List.mem_cons_self)
      | nil =>
          have hne : u.text.toList ≠ [] := by
            intro hempty
            have hcut := @firstPiece?_text_append u hu [] nofun
            rw [hempty] at hcut
            cases hcut
          rw [List.nil_append, List.head?_append_of_ne_nil _ hne] at hc
          exact .inr hc

/-- If the tokens may touch, any blanks around them will do. -/
theorem typeset (h : Spaced ts cs) (hw : ∀ t ∈ ts, t.WellSpelled)
    (ht : ts.IsChain Token.MayTouch) : Typeset ts cs := by
  induction h with
  | nil hb => exact .nil hb
  | @cons t ts blanks rest hb h ih =>
      obtain ⟨hwt, hw⟩ := List.forall_mem_cons.mp hw
      refine .cons hb hwt (fun c hc => ?_) (ih hw ht.tail)
      cases ts with
      | nil =>
          cases h with
          | nil hb => exact t.endsBefore_of_isBlank (hb c (List.mem_of_mem_head? hc))
      | cons u us =>
          rcases h.head (hw u List.mem_cons_self) c hc with hblank | hu
          · exact t.endsBefore_of_isBlank hblank
          · exact (List.isChain_cons_cons.mp ht).1 c hu

end Spaced

/-! ### Trees -/

namespace Derivation

/-- An operand as an expression. -/
def alone (o : Derivation .operand) : Derivation .expression := .plain (.raise (.bare o) _)

/-- A row of operands as an expression. -/
def loosened : {l : Tightness} → Derivation (.row (some l)) → Derivation .expression
  | .equality, r => .plain r
  | .comparison, r => .plain (.tighter (l := .equality) r)
  | .sum, r => .plain (.tighter (l := .equality) (.tighter (l := .comparison) r))
  | .product, r =>
    .plain (.tighter (l := .equality) (.tighter (l := .comparison) (.tighter (l := .sum) r)))

/-- An operand as a row has the same tokens. -/
@[simp] theorem lexemes_alone (o : Derivation .operand) : o.alone.lexemes = o.lexemes := rfl

/-- An operand as a row is the same node. -/
@[simp] theorem lower_alone (o : Derivation .operand) : o.alone.lower = o.lower := rfl

/-- An operand as a row is tied alike. -/
@[simp] theorem tied_alone (o : Derivation .operand) : o.alone.Tied ↔ o.Tied := .rfl

/-- A row taken for one of looser operators is the same node. -/
@[simp] theorem lower_raise (u : Derivation (.row none)) (l : Option Tightness) :
    (u.raise l).lower = u.lower := by
  rcases l with _ | _ | _ | _ | _ <;> rfl

/-- A row taken for one of looser operators is tied alike. -/
@[simp] theorem tied_raise (u : Derivation (.row none)) (l : Option Tightness) :
    (u.raise l).Tied ↔ u.Tied := by
  rcases l with _ | _ | _ | _ | _ <;> rfl

/-- A row taken for an expression has the same tokens. -/
@[simp] theorem lexemes_loosened {l : Tightness} (r : Derivation (.row (some l))) :
    r.loosened.lexemes = r.lexemes := by
  cases l <;> rfl

/-- A row taken for an expression is the same node. -/
@[simp] theorem lower_loosened {l : Tightness} (r : Derivation (.row (some l))) :
    r.loosened.lower = r.lower := by
  cases l <;> rfl

/-- A row taken for an expression is tied alike. -/
@[simp] theorem tied_loosened {l : Tightness} (r : Derivation (.row (some l))) :
    r.loosened.Tied ↔ r.Tied := by
  cases l <;> rfl

end Derivation

/-- What begins with another token does not begin with a function. -/
theorem not_ties_cons {x : Lexeme} (h : x.token ≠ .keyword .wordFunction) (xs : List Lexeme) :
    ¬Ties (x :: xs) := by
  rintro ⟨f, y, rest, hf, -⟩
  cases f with
  | named =>
      obtain ⟨rfl, -⟩ := List.cons.inj hf
      exact h rfl

/-! ### Programs -/

/-- The program of a list of statements is their block. -/
theorem lower_program {body : Derivation .statements} {s : Scan} (h : body.lexemes = s.lexemes) :
    (Derivation.program body).lower = .block body.lower s.line := by
  rw [Derivation.lower, Scan.line, ← h]
  rcases hd : body.lexemes with _ | ⟨x, rest⟩
  · rfl
  · simp [Derivation.line, hd]

/-- A text with the tokens of a tree, each at its place, is the program that the tree means. -/
theorem program_of_lexemes {source : String} {d : Derivation .program}
    (hb : (scan source.toList).bad = none)
    (hs : ∀ x ∈ (scan source.toList).lexemes, x.token.oversize? = none)
    (hd : d.lexemes = (scan source.toList).lexemes) (ht : ¬d.Tied) :
    program source = .ok d.lower := by
  cases d with
  | program body =>
      obtain ⟨r, ns, hr, hf, hexact⟩ := body.exists_readAll
      have hbody : body.lexemes = (scan source.toList).lexemes := hd
      rw [hbody] at hr
      rw [lower_program hbody, ← hexact ht]
      exact program_of_finish? source hr hb hf (List.findSome?_eq_none_iff.mpr hs)

/-- A text with the tokens of a tree is the program that the tree means, on other lines. -/
theorem exists_program_of_tokens {source : String} {d : Derivation .program}
    (hb : (scan source.toList).bad = none)
    (hs : ∀ x ∈ (scan source.toList).lexemes, x.token.oversize? = none)
    (hd : d.tokens = (scan source.toList).tokens) (ht : ¬d.Tied) :
    ∃ n, program source = .ok n ∧ n.relined (fun _ => 0) = d.lower.relined fun _ => 0 := by
  have hderivable : Derivable (scan source.toList).tokens := by
    refine ⟨fun t ht => ?_, d, hd⟩
    obtain ⟨x, hx, rfl⟩ := List.mem_map.mp ht
    exact wellSpelled_of_mem_scan hx
  obtain ⟨n, hn⟩ := exists_program hb hs hderivable
  obtain ⟨r, ns, hr, hf, rfl⟩ := exists_reading hn
  refine ⟨_, hn, ?_⟩
  cases d with
  | program body =>
      obtain ⟨r', ns', hr', hf', hexact⟩ := body.exists_readAll
      rw [Derivation.lower, ← hexact ht, Node.relined, Node.relined, Node.relinedAll_eq_map,
        Node.relinedAll_eq_map, finish?_relined_eq hd.symm hr hr' hf hf']

end Scriptlet.Source
