import Scriptlet.Proofs.Tiling

/-!
# Comments between Tokens

Blanks and comments may stand between two tokens, in any order and number, and the first of them
is a blank: then each token ends before it. A slash would otherwise make a comment of the slash
that opens one. A comment holds whatever it likes, quote marks and slashes too, but for the mark
that ends it.

## Main definitions

* `Skipped`: a text is a row of blanks and comments.
* `Separator`: such a text may stand between any two tokens.
* `Separated`: a text is a row of tokens with separators between them.

## Main results

* `Skipped.lexemesFrom_append`: blanks and comments only move what stands behind them.
* `scan_of_separated`: the tokens that a text is made of are those that are found in it.
-/

namespace Scriptlet.Source

open Scriptlet.Text (Position)

/-- Whether a text is a row of blanks and comments. A comment that runs to the end of its line has
a line feed behind it, and one that is closed is closed nowhere before its end. -/
inductive Skipped : List Char → Prop
  | nil : Skipped []
  | blank {c : Char} {cs : List Char} (hc : isBlank c = true) (h : Skipped cs) : Skipped (c :: cs)
  | line {text cs : List Char} (ht : '\n' ∉ text) (h : Skipped cs) :
      Skipped ('/' :: '/' :: (text ++ '\n' :: cs))
  | block {body cs : List Char} (hb : ¬['*', '/'] <:+: body ++ ['*']) (h : Skipped cs) :
      Skipped ('/' :: '*' :: (body ++ '*' :: '/' :: cs))

/-- Whether a text may stand between any two tokens. -/
structure Separator (cs : List Char) : Prop where
  blank : ∃ c ∈ cs.head?, isBlank c = true
  skipped : Skipped cs

/-- Whether a text is a row of tokens with separators between them. -/
inductive Separated : List Token → List Char → Prop
  | nil : Separated [] []
  | single (t : Token) : Separated [t] t.text.toList
  | cons (t : Token) {u : Token} {ts : List Token} {separator rest : List Char}
      (hs : Separator separator) (h : Separated (u :: ts) rest) :
      Separated (t :: u :: ts) (t.text.toList ++ (separator ++ rest))

/-! ### What is skipped -/

/-- A comment ends where it is closed for the first time. -/
theorem splitComment_of_not_infix {body : List Char} (hb : ¬['*', '/'] <:+: body ++ ['*'])
    (rest : List Char) :
    splitComment (body ++ '*' :: '/' :: rest) = some (body ++ ['*', '/'], rest) := by
  induction body with
  | nil => simp [splitComment]
  | cons c body ih =>
      have hclosed := ih fun hpart => hb (List.infix_cons hpart)
      obtain ⟨d, ds, hd⟩ : ∃ d ds, body ++ ['*'] = d :: ds := by
        cases body <;> exact ⟨_, _, rfl⟩
      have hopen : ¬(c = '*' ∧ d = '/') := by
        rintro ⟨rfl, rfl⟩
        rw [List.cons_append, hd] at hb
        exact hb (List.prefix_append ['*', '/'] ds).isInfix
      have htext : body ++ '*' :: '/' :: rest = d :: (ds ++ '/' :: rest) := by
        rw [← List.cons_append, ← hd, List.append_assoc]
        rfl
      rw [htext] at hclosed
      rw [List.cons_append, htext, splitComment, if_neg hopen, hclosed]
      rfl

theorem firstPiece?_line {text : List Char} (ht : '\n' ∉ text) (rest : List Char) :
    firstPiece? ('/' :: '/' :: (text ++ '\n' :: rest)) =
      some (.comment ('/' :: '/' :: text), '\n' :: rest) := by
  have hmem : ∀ c ∈ text, decide (c ≠ '\n') = true := fun c hc =>
    decide_eq_true fun he => ht (he ▸ hc)
  show some (slashPiece _) = _
  rw [slashPiece, List.takeWhile_append_of_pos hmem, List.dropWhile_append_of_pos hmem]
  simp

theorem firstPiece?_block {body : List Char} (hb : ¬['*', '/'] <:+: body ++ ['*'])
    (rest : List Char) :
    firstPiece? ('/' :: '*' :: (body ++ '*' :: '/' :: rest)) =
      some (.comment ('/' :: '*' :: (body ++ ['*', '/'])), rest) := by
  show some (slashPiece _) = _
  rw [slashPiece, splitComment_of_not_infix hb]

/-- A comment only moves what stands behind it. -/
theorem lexemesFrom_of_comment {cs text after : List Char}
    (h : firstPiece? cs = some (.comment text, after)) (p : Position) :
    lexemesFrom p cs = lexemesFrom (p.after text) after ∧ (pieces cs).2 = (pieces after).2 :=
  ⟨lexemesFrom_of_firstPiece? h p, rest_of_firstPiece? h⟩

/-- Blanks and comments only move what stands behind them. -/
theorem Skipped.lexemesFrom_append {skipped : List Char} (h : Skipped skipped) (p : Position)
    (cs : List Char) :
    lexemesFrom p (skipped ++ cs) = lexemesFrom (p.after skipped) cs ∧
      (pieces (skipped ++ cs)).2 = (pieces cs).2 := by
  induction h generalizing p with
  | nil => exact ⟨rfl, rfl⟩
  | blank hc _ ih =>
      obtain ⟨hlexemes, hrest⟩ := lexemesFrom_cons_of_isBlank hc p (_ ++ cs)
      rw [List.cons_append, hlexemes, hrest]
      exact ih _
  | @line text skipped ht _ ih =>
      obtain ⟨hcomment, hcommentRest⟩ :=
        lexemesFrom_of_comment (firstPiece?_line ht (skipped ++ cs)) p
      obtain ⟨hfeed, hfeedRest⟩ := lexemesFrom_cons_of_isBlank (c := '\n') rfl
        (p.after ('/' :: '/' :: text)) (skipped ++ cs)
      obtain ⟨hlexemes, hrest⟩ := ih ((p.after ('/' :: '/' :: text)).next '\n')
      have htext : '/' :: '/' :: (text ++ '\n' :: skipped) =
          '/' :: '/' :: text ++ '\n' :: skipped := rfl
      rw [htext, List.append_assoc, Position.after_append]
      exact ⟨(hcomment.trans hfeed).trans hlexemes, (hcommentRest.trans hfeedRest).trans hrest⟩
  | @block body skipped hb _ ih =>
      obtain ⟨hcomment, hcommentRest⟩ :=
        lexemesFrom_of_comment (firstPiece?_block hb (skipped ++ cs)) p
      obtain ⟨hlexemes, hrest⟩ := ih (p.after ('/' :: '*' :: (body ++ ['*', '/'])))
      have htext (rest : List Char) : '/' :: '*' :: (body ++ '*' :: '/' :: rest) =
          '/' :: '*' :: (body ++ ['*', '/']) ++ rest := by simp
      rw [htext] at hcomment hcommentRest
      rw [htext, List.append_assoc, Position.after_append]
      exact ⟨hcomment.trans hlexemes, hcommentRest.trans hrest⟩

/-! ### What is separated -/

/-- Every token ends before a separator. -/
theorem Separator.endsBefore {separator : List Char} (h : Separator separator) (t : Token)
    (rest : List Char) : ∀ c ∈ (separator ++ rest).head?, t.endsBefore c = true := by
  obtain ⟨d, hd, hblank⟩ := h.blank
  obtain ⟨tail, rfl⟩ := List.head?_eq_some_iff.mp hd
  rintro c hc
  obtain rfl := Option.some.inj hc
  exact t.endsBefore_of_isBlank hblank

/-- The tokens that a text is made of are found in it, wherever it begins. -/
theorem Separated.lexemesFrom {ts : List Token} {cs : List Char} (h : Separated ts cs)
    (hw : ∀ t ∈ ts, t.WellSpelled) (p : Position) :
    (lexemesFrom p cs).map Lexeme.token = ts ∧ (pieces cs).2 = [] := by
  induction h generalizing p with
  | nil =>
      rw [lexemesFrom_nil, pieces_nil]
      exact ⟨rfl, rfl⟩
  | single t =>
      have hcut := @firstPiece?_text_append t (hw t List.mem_cons_self) [] nofun
      rw [List.append_nil] at hcut
      rw [lexemesFrom_of_firstPiece? hcut, rest_of_firstPiece? hcut, lexemesFrom_nil, pieces_nil]
      exact ⟨rfl, rfl⟩
  | @cons t _ _ separator rest hs _ ih =>
      obtain ⟨ht, hw⟩ := List.forall_mem_cons.mp hw
      have hcut := firstPiece?_text_append ht (hs.endsBefore t rest)
      obtain ⟨hlexemes, hrest⟩ := hs.skipped.lexemesFrom_append (p.after t.text.toList) rest
      obtain ⟨htokens, hnone⟩ := ih hw ((p.after t.text.toList).after separator)
      rw [lexemesFrom_of_firstPiece? hcut, rest_of_firstPiece? hcut, Piece.text, hlexemes, hrest]
      exact ⟨congrArg (t :: ·) htokens, hnone⟩

/-- **The tokens that a text is made of are those that are found in it**, whatever blanks and
comments separate them. -/
theorem scan_of_separated {ts : List Token} {cs : List Char} (hw : ∀ t ∈ ts, t.WellSpelled)
    (h : Separated ts cs) : (scan cs).tokens = ts ∧ (scan cs).bad = none := by
  obtain ⟨htokens, hrest⟩ := h.lexemesFrom hw .start
  exact ⟨htokens, bad_eq_none_iff.mpr hrest⟩

/-- Comments that look like their own ends, like literals and like one another, between a literal
that looks like one and two division signs. -/
theorem scan_of_separated_divisions :
    (scan "'/*' //*\x22\n/\t/*/ ' **/ /\r/**//*//*/x".toList).tokens =
        [.string .single "/*", .operator .divide, .operator .divide, .name "x"] ∧
      (scan "'/*' //*\x22\n/\t/*/ ' **/ /\r/**//*//*/x".toList).bad = none := by
  have hliteral : Token.WellSpelled (.string .single "/*") :=
    .plain (by decide) (by decide) (by decide)
      (.plain (by decide) (by decide) (by decide) .nil)
  have hname : Token.WellSpelled (.name "x") :=
    ⟨⟨'x', [], rfl, rfl, nofun⟩, fun k => by cases k <;> decide⟩
  have hfirst : Separator " //*\x22\n".toList :=
    ⟨⟨' ', rfl, rfl⟩, .blank rfl (@Skipped.line ['*', '\x22'] [] (by decide) .nil)⟩
  have hsecond : Separator "\t/*/ ' **/ ".toList :=
    ⟨⟨'\t', rfl, rfl⟩, .blank rfl (@Skipped.block "/ ' *".toList [' '] (by decide)
      (.blank rfl .nil))⟩
  have hthird : Separator "\r/**//*//*/".toList :=
    ⟨⟨'\r', rfl, rfl⟩, .blank rfl (@Skipped.block [] _ (by decide)
      (@Skipped.block ['/', '/'] [] (by decide) .nil))⟩
  refine scan_of_separated (fun t ht => ?_)
    (.cons _ hfirst (.cons _ hsecond (.cons _ hthird (.single _))))
  rcases List.mem_cons.mp ht with rfl | ht
  · exact hliteral
  rcases List.mem_cons.mp ht with rfl | ht
  · trivial
  rcases List.mem_cons.mp ht with rfl | ht
  · trivial
  · obtain rfl := List.mem_singleton.mp ht
    exact hname

end Scriptlet.Source
