import Scriptlet.Proofs.Location
import Scriptlet.Proofs.Spacing

/-!
# Where Texts Meet

A text is cut into pieces as if nothing came behind it, as long as a line feed comes first: no token
and no comment to the end of a line goes on with one. Only what has been opened and not closed could
be closed by what comes behind. A quote mark that opens no literal opens none then either, since no
literal runs over the end of a line. A block comment can be closed later. Where it is not, the text
has a division sign with a multiplication sign next to it, and that is in no program.

## Main definitions

* `lexemesFrom`: the tokens of a text that begins somewhere.
* `Lexeme.lowered`: a token some lines below.

## Main results

* `lexemesFrom_append`, `rest_append_ne_nil`: the tokens of two texts that meet at a line feed, and
  the bad character of the first one, if it has one.
* `lexemesFrom_lowered`: the tokens of a text that begins some lines below.
* `not_divide_times_of_runs`: the two signs are not next to one another in any program.
-/

namespace Scriptlet.Source

open Scriptlet.Text (Position)

/-- The tokens that are found in a text that begins at a place. -/
def lexemesFrom (p : Position) (cs : List Char) : List Lexeme := (lexemes p (pieces cs).1).1

theorem lexemes_scan (cs : List Char) : (scan cs).lexemes = lexemesFrom .start cs := rfl

/-- An empty text has no tokens. -/
theorem lexemesFrom_nil (p : Position) : lexemesFrom p [] = [] := by
  rw [lexemesFrom, pieces_nil]
  rfl

/-- There is no bad character exactly where everything was cut. -/
theorem bad_eq_none_iff {cs : List Char} : (scan cs).bad = none ↔ (pieces cs).2 = [] := by
  rw [scan]
  simp

section

variable {cs ds after : List Char} {p : Position} {q : Piece} {t : Token}

/-! ### Cutting off one piece -/

/-- The tokens of a text are that of its first piece, if it is one, and those behind it. -/
theorem lexemesFrom_of_firstPiece? (h : firstPiece? cs = some (q, after)) (p : Position) :
    lexemesFrom p cs =
      (q.token?.map fun t => ⟨t, p⟩).toList ++ lexemesFrom (p.after q.text) after := by
  rw [lexemesFrom, pieces_of_firstPiece? h]
  cases q <;> rfl

/-- What cannot be cut is behind the first piece. -/
theorem rest_of_firstPiece? (h : firstPiece? cs = some (q, after)) :
    (pieces cs).2 = (pieces after).2 := by
  rw [pieces_of_firstPiece? h]

/-- A blank only moves what stands behind it. -/
theorem lexemesFrom_cons_of_isBlank {c : Char} (hc : isBlank c = true) (p : Position)
    (cs : List Char) :
    lexemesFrom p (c :: cs) = lexemesFrom (p.next c) cs ∧
      (pieces (c :: cs)).2 = (pieces cs).2 := by
  have hcut : firstPiece? (c :: cs) =
      some (.blank (c :: cs.takeWhile isBlank), cs.dropWhile isBlank) := by
    rw [firstPiece?, if_pos hc]
  rw [lexemesFrom_of_firstPiece? hcut, rest_of_firstPiece? hcut]
  cases cs with
  | nil => exact ⟨rfl, rfl⟩
  | cons d ds =>
      by_cases hd : isBlank d = true
      · -- both runs of blanks end at the same place
        have hnext : firstPiece? (d :: ds) =
            some (.blank (d :: ds.takeWhile isBlank), ds.dropWhile isBlank) := by
          rw [firstPiece?, if_pos hd]
        rw [lexemesFrom_of_firstPiece? hnext, rest_of_firstPiece? hnext,
          List.takeWhile_cons_of_pos hd, List.dropWhile_cons_of_pos hd]
        exact ⟨rfl, rfl⟩
      · rw [List.takeWhile_cons_of_neg hd, List.dropWhile_cons_of_neg hd]
        exact ⟨rfl, rfl⟩

/-- Blanks only move what is behind them. -/
theorem lexemesFrom_blank_append {blanks : List Char} (hb : Blank blanks) (p : Position)
    (cs : List Char) :
    lexemesFrom p (blanks ++ cs) = lexemesFrom (p.after blanks) cs ∧
      (pieces (blanks ++ cs)).2 = (pieces cs).2 := by
  induction blanks generalizing p with
  | nil => exact ⟨rfl, rfl⟩
  | cons c blanks ih =>
      obtain ⟨hc, hb⟩ := List.forall_mem_cons.mp hb
      obtain ⟨hlexemes, hrest⟩ := lexemesFrom_cons_of_isBlank hc p (blanks ++ cs)
      rw [List.cons_append, hlexemes, hrest]
      exact ih hb (p.next c)

/-! ### Where a token has been cut off -/

/-- What stands behind a run of characters is none of them. -/
theorem eq_false_of_head?_dropWhile {f : Char → Bool} {c : Char}
    (h : c ∈ (cs.dropWhile f).head?) : f c = false := by
  have hnot := List.head?_dropWhile_not f cs
  rw [h] at hnot
  exact hnot

/-- A symbol that was cut off ends before what stands behind it. -/
theorem endsBefore_of_symbol? {c : Char} (h : symbol? c cs = some (t, after)) :
    ∀ d ∈ after.head?, t.endsBefore d = true := by
  intro d hd
  unfold symbol? at h
  split at h <;> simp only [Option.some.injEq, Prod.mk.injEq, reduceCtorEq] at h <;>
    obtain ⟨rfl, rfl⟩ := h <;> first
    | rfl
    | (obtain ⟨rest, rfl⟩ := List.head?_eq_some_iff.mp hd
       simp_all [Token.endsBefore])

/-- A token that was cut off ends before what stands behind it, unless it is a slash before a star
that opens no comment. -/
theorem endsBefore_of_firstPiece? (h : firstPiece? cs = some (.token t, after)) :
    (∀ c ∈ after.head?, t.endsBefore c = true) ∨
      t = .operator .divide ∧ ∃ rest, after = '*' :: rest ∧ splitComment rest = none := by
  cases cs with
  | nil => cases h
  | cons c cs =>
      simp only [firstPiece?] at h
      split at h
      · cases h
      split at h
      · obtain ⟨hword, rfl⟩ := Prod.mk.inj (Option.some.inj h)
        obtain rfl := Piece.token.inj hword
        refine .inl fun d hd => ?_
        have hneg := eq_false_of_head?_dropWhile hd
        unfold word
        split <;> simp [Token.endsBefore, hneg]
      split at h
      · obtain ⟨hinteger, rfl⟩ := Prod.mk.inj (Option.some.inj h)
        obtain rfl := Piece.token.inj hinteger
        refine .inl fun d hd => ?_
        simp [Token.endsBefore, eq_false_of_head?_dropWhile hd]
      split at h
      · obtain ⟨⟨b, a⟩, -, hcut⟩ := Option.map_eq_some_iff.mp h
        obtain rfl := Piece.token.inj (Prod.mk.inj hcut).1
        exact .inl fun _ _ => rfl
      split at h
      · obtain ⟨⟨b, a⟩, -, hcut⟩ := Option.map_eq_some_iff.mp h
        obtain rfl := Piece.token.inj (Prod.mk.inj hcut).1
        exact .inl fun _ _ => rfl
      split at h
      · have hslash := Option.some.inj h
        unfold slashPiece at hslash
        split at hslash
        · cases hslash
        · split at hslash
          · cases hslash
          next rest _ _ hopen =>
              obtain ⟨ht, rfl⟩ := Prod.mk.inj hslash
              exact .inr ⟨(Piece.token.inj ht).symm, _, rfl, hopen⟩
        next hline hblock =>
            obtain ⟨ht, rfl⟩ := Prod.mk.inj hslash
            obtain rfl := Piece.token.inj ht
            refine .inl fun d hd => ?_
            obtain ⟨rest, rfl⟩ := List.head?_eq_some_iff.mp hd
            have hd₁ : d ≠ '/' := fun he => hline rest (he ▸ rfl)
            have hd₂ : d ≠ '*' := fun he => hblock rest (he ▸ rfl)
            simp [Token.endsBefore, hd₁, hd₂]
      · obtain ⟨⟨u, a⟩, hsymbol, hcut⟩ := Option.map_eq_some_iff.mp h
        obtain ⟨htoken, rfl⟩ := Prod.mk.inj hcut
        obtain rfl := Piece.token.inj htoken
        exact .inl (endsBefore_of_symbol? hsymbol)

/-! ### Cutting in front of a line feed -/

/-- What comes behind a comment that was closed does not matter. -/
theorem splitComment_append_of_eq_some {body : List Char}
    (h : splitComment cs = some (body, after)) (ds : List Char) :
    splitComment (cs ++ ds) = some (body, after ++ ds) := by
  fun_induction splitComment cs generalizing body after with
  | case1 => cases h
  | case2 => cases h
  | case3 c d rest hc =>
      obtain ⟨rfl, rfl⟩ := Prod.mk.inj (Option.some.inj h)
      rw [List.cons_append, List.cons_append, splitComment, if_pos hc]
  | case4 c d rest hc ih =>
      obtain ⟨⟨b, a⟩, hs, hba⟩ := Option.map_eq_some_iff.mp h
      obtain ⟨rfl, rfl⟩ := Prod.mk.inj hba
      have hrest := ih hs
      rw [List.cons_append] at hrest
      rw [List.cons_append, List.cons_append, splitComment, if_neg hc, hrest]
      rfl

/-- A line ends in front of a line feed as it does at the end of a text. -/
theorem line_append (hds : ∀ c ∈ ds.head?, c = '\n') (cs : List Char) :
    (cs ++ ds).takeWhile (· ≠ '\n') = cs.takeWhile (· ≠ '\n') ∧
      (cs ++ ds).dropWhile (· ≠ '\n') = cs.dropWhile (· ≠ '\n') ++ ds := by
  induction cs with
  | nil =>
      cases ds with
      | nil => exact ⟨rfl, rfl⟩
      | cons d ds =>
          obtain rfl := hds d rfl
          exact ⟨rfl, rfl⟩
  | cons c cs ih =>
      by_cases hc : c = '\n'
      · subst hc
        exact ⟨rfl, rfl⟩
      · simpa [hc] using ih

/-- A comment is cut off in front of a line feed as it is at the end of a text. -/
theorem firstPiece?_comment_append {text : List Char}
    (h : firstPiece? cs = some (.comment text, after)) (hds : ∀ c ∈ ds.head?, c = '\n') :
    firstPiece? (cs ++ ds) = some (.comment text, after ++ ds) := by
  have htext : ∃ rest, cs = '/' :: rest := by
    rw [← firstPiece?_append h]
    rcases Piece.matched_of_firstPiece? h with ⟨rest, rfl, -⟩ | ⟨body, rfl⟩
    · exact ⟨_, rfl⟩
    · exact ⟨_, rfl⟩
  obtain ⟨cs, rfl⟩ := htext
  have hcut : slashPiece cs = (.comment text, after) := Option.some.inj h
  show some (slashPiece (cs ++ ds)) = _
  unfold slashPiece at hcut
  split at hcut
  next rest =>
      obtain ⟨hcomment, rfl⟩ := Prod.mk.inj hcut
      obtain rfl := Piece.comment.inj hcomment
      obtain ⟨htake, hdrop⟩ := line_append hds rest
      rw [List.cons_append, slashPiece, htake, hdrop]
  next rest =>
      split at hcut
      next body _ hclosed =>
          obtain ⟨hcomment, rfl⟩ := Prod.mk.inj hcut
          obtain rfl := Piece.comment.inj hcomment
          rw [List.cons_append, slashPiece, splitComment_append_of_eq_some hclosed ds]
      next => cases hcut
  next => cases hcut

/-- The body of a string literal is on one line. -/
theorem LiteralBody.notMem_lineFeed {mark : Quote} (h : LiteralBody mark cs) : '\n' ∉ cs := by
  induction h with
  | nil => exact List.not_mem_nil
  | plain _ _ hn _ ih => exact List.not_mem_cons_of_ne_of_not_mem hn.symm ih
  | escape hn _ ih =>
      exact List.not_mem_cons_of_ne_of_not_mem (by decide)
        (List.not_mem_cons_of_ne_of_not_mem hn.symm ih)

/-- Every token is on one line. -/
theorem Token.WellSpelled.notMem_lineFeed (h : t.WellSpelled) : '\n' ∉ t.text.toList := by
  cases t with
  | keyword k => cases k <;> decide
  | operator op => cases op <;> decide
  | punctuation mark => cases mark <;> decide
  | name text =>
      obtain ⟨c, rest, htext, hc, hrest⟩ := h.1
      rw [Token.text, htext]
      refine List.not_mem_cons_of_ne_of_not_mem ?_ fun hmem => ?_
      · rintro rfl
        cases hc
      · cases hrest _ hmem
  | integer digits => exact fun hmem => by cases h.2 _ hmem
  | string mark body =>
      have hmark : '\n' ≠ mark.char := by cases mark <;> decide
      have hbody := LiteralBody.notMem_lineFeed h
      simp [Token.text, hmark, hbody]

/-- Where no piece begins, none begins if a line feed comes behind what is there. -/
theorem firstPiece?_append_of_eq_none (hne : cs ≠ []) (h : firstPiece? cs = none)
    (hds : ∀ c ∈ ds.head?, c = '\n') : firstPiece? (cs ++ ds) = none := by
  rw [firstPiece?_eq_none_iff] at h ⊢
  rintro q hq hprefix
  rcases List.prefix_or_prefix_of_prefix hprefix (List.prefix_append cs ds) with
    hshort | ⟨more, htext⟩
  · exact h q hq hshort
  · -- only blanks and comments run over a line feed, and their first character is a piece itself
    obtain ⟨c, cs, rfl⟩ := List.exists_cons_of_ne_nil hne
    cases q with
    | token t =>
        have hmore : more = [] := by
          cases more with
          | nil => rfl
          | cons d more =>
              rw [← htext, List.prefix_append_right_inj] at hprefix
              obtain ⟨rest, rfl⟩ := hprefix
              obtain rfl := hds d rfl
              refine absurd ?_ (Token.WellSpelled.notMem_lineFeed hq)
              rw [show t.text.toList = c :: cs ++ '\n' :: more from htext.symm]
              simp
        rw [hmore, List.append_nil] at htext
        exact h _ hq ⟨[], by rw [htext, List.append_nil]⟩
    | blank text =>
        have hblank : isBlank c = true := hq.2 c (by
          rw [show text = c :: cs ++ more from htext.symm]
          exact List.mem_cons_self)
        exact h (.blank [c]) ⟨nofun, List.forall_mem_singleton.mpr hblank⟩ ⟨cs, rfl⟩
    | comment text =>
        have hslash : c = '/' := by
          rcases hq with ⟨rest, rfl, -⟩ | ⟨body, rfl⟩
          · exact (List.cons.inj htext).1
          · exact (List.cons.inj htext).1
        exact h (.token (.operator .divide)) trivial ⟨cs, hslash ▸ rfl⟩

/-! ### Texts that meet at a line feed -/

/-- Whether no comment that begins in a text ends in another one behind it: the tokens of the
text have no division sign with a multiplication sign next to it, or the other one ends nothing. -/
def NoneClosed (ts : List Token) (ds : List Char) : Prop :=
  ¬[.operator .divide, .operator .times] <:+: ts ∨
    ∀ rest, splitComment rest = none → splitComment (rest ++ ds) = none

/-- Where a comment does not end, two signs stand next to one another. -/
theorem prefix_of_splitComment_eq_none {rest : List Char} (h : splitComment rest = none)
    (p : Position) : [.operator .divide, .operator .times] <+:
      (lexemesFrom p ('/' :: '*' :: rest)).map Lexeme.token := by
  have hdivide : firstPiece? ('/' :: '*' :: rest) =
      some (.token (.operator .divide), '*' :: rest) := by
    show some (slashPiece ('*' :: rest)) = _
    rw [slashPiece, h]
  have htimes : firstPiece? ('*' :: rest) = some (.token (.operator .times), rest) := rfl
  rw [lexemesFrom_of_firstPiece? hdivide, lexemesFrom_of_firstPiece? htimes]
  exact ⟨_, rfl⟩

/-- A token is cut off in front of a line feed as it is at the end of a text. -/
theorem firstPiece?_token_append (h : firstPiece? cs = some (.token t, after))
    (hds : ∀ c ∈ ds.head?, c = '\n')
    (hn : NoneClosed ((lexemesFrom p cs).map Lexeme.token) ds) :
    firstPiece? (cs ++ ds) = some (.token t, after ++ ds) := by
  have htext : t.text.toList ++ after = cs := firstPiece?_append h
  rcases endsBefore_of_firstPiece? h with hends | ⟨rfl, rest, rfl, hopen⟩
  · rw [← htext, List.append_assoc]
    refine firstPiece?_text_append (Piece.matched_of_firstPiece? h) fun c hc => ?_
    cases after with
    | nil => exact t.endsBefore_of_isBlank (hds c hc ▸ rfl)
    | cons d after => exact hends c hc
  · rw [← htext] at hn
    have hopen' : splitComment (rest ++ ds) = none :=
      hn.elim (fun hnot => absurd (prefix_of_splitComment_eq_none hopen p).isInfix hnot)
        fun hclosed => hclosed rest hopen
    rw [← htext]
    show some (slashPiece ('*' :: (rest ++ ds))) = _
    rw [slashPiece, hopen']
    rfl

/-- One piece is cut off in front of a line feed. Blanks may go on, but they only move what stands
behind them. -/
theorem lexemesFrom_append_of_firstPiece? (h : firstPiece? cs = some (q, after))
    (hds : ∀ c ∈ ds.head?, c = '\n')
    (hn : NoneClosed ((lexemesFrom p cs).map Lexeme.token) ds) :
    lexemesFrom p (cs ++ ds) = (q.token?.map fun t => ⟨t, p⟩).toList ++
        lexemesFrom (p.after q.text) (after ++ ds) ∧
      (pieces (cs ++ ds)).2 = (pieces (after ++ ds)).2 := by
  cases q with
  | token t =>
      have hcut := firstPiece?_token_append h hds hn
      exact ⟨lexemesFrom_of_firstPiece? hcut p, rest_of_firstPiece? hcut⟩
  | comment text =>
      have hcut := firstPiece?_comment_append h hds
      exact ⟨lexemesFrom_of_firstPiece? hcut p, rest_of_firstPiece? hcut⟩
  | blank text =>
      have htext : text ++ after = cs := firstPiece?_append h
      rw [← htext, List.append_assoc]
      exact lexemesFrom_blank_append (Piece.matched_of_firstPiece? h).2 p (after ++ ds)

/-- What stands behind the first piece has none of the pairs of signs that the whole lacks. -/
theorem NoneClosed.of_firstPiece? (h : firstPiece? cs = some (q, after))
    (hn : NoneClosed ((lexemesFrom p cs).map Lexeme.token) ds) :
    NoneClosed ((lexemesFrom (p.after q.text) after).map Lexeme.token) ds := by
  refine hn.imp_left fun hnot hpart => hnot (hpart.trans ?_)
  rw [lexemesFrom_of_firstPiece? h, List.map_append]
  exact (List.suffix_append _ _).isInfix

/-- **Texts that meet at a line feed are cut one by one.** -/
theorem lexemesFrom_append (hds : ∀ c ∈ ds.head?, c = '\n') (hcs : (pieces cs).2 = [])
    (hn : NoneClosed ((lexemesFrom p cs).map Lexeme.token) ds) :
    lexemesFrom p (cs ++ ds) = lexemesFrom p cs ++ lexemesFrom (p.after cs) ds ∧
      (pieces (cs ++ ds)).2 = (pieces ds).2 := by
  fun_induction pieces cs generalizing p with
  | case1 cs h =>
      obtain rfl := hcs
      rw [lexemesFrom_nil]
      exact ⟨rfl, rfl⟩
  | case2 cs q after hcut _ ih =>
      obtain ⟨hlexemes, hrest⟩ := lexemesFrom_append_of_firstPiece? hcut hds hn
      obtain ⟨hlexemes', hrest'⟩ := ih hcs (hn.of_firstPiece? hcut)
      rw [hlexemes, hlexemes', hrest, hrest', lexemesFrom_of_firstPiece? hcut, List.append_assoc,
        ← Position.after_append, firstPiece?_append hcut]
      exact ⟨rfl, rfl⟩

/-- What stands behind a line feed makes no bad character good. -/
theorem rest_append_ne_nil (hds : ∀ c ∈ ds.head?, c = '\n') (hcs : (pieces cs).2 ≠ [])
    (hn : NoneClosed ((lexemesFrom p cs).map Lexeme.token) ds) :
    (pieces (cs ++ ds)).2 ≠ [] := by
  fun_induction pieces cs generalizing p with
  | case1 cs h =>
      have hbad := firstPiece?_append_of_eq_none hcs h hds
      rw [pieces]
      split
      · exact List.append_ne_nil_of_left_ne_nil hcs ds
      next hsome => cases hbad.symm.trans hsome
  | case2 cs q after hcut _ ih =>
      rw [(lexemesFrom_append_of_firstPiece? hcut hds hn).2]
      exact ih hcs (hn.of_firstPiece? hcut)

/-! ### Texts that begin some lines below -/

/-- A token some lines below. -/
def Lexeme.lowered (k : Nat) (x : Lexeme) : Lexeme :=
  ⟨x.token, ⟨x.position.line + k, x.position.column⟩⟩

theorem Lexeme.moves_lowered (k : Nat) (x : Lexeme) : x.Moves (· + k) (x.lowered k) :=
  ⟨rfl, Int.natCast_add ..⟩

/-- Some lines below, a text ends as many lines below. -/
theorem after_lowered (k : Nat) (p : Position) (text : List Char) :
    (Position.mk (p.line + k) p.column).after text =
      ⟨(p.after text).line + k, (p.after text).column⟩ := by
  induction text generalizing p with
  | nil => rfl
  | cons c cs ih =>
      have hnext : (Position.mk (p.line + k) p.column).next c =
          ⟨(p.next c).line + k, (p.next c).column⟩ := by
        unfold Position.next
        split
        · rw [Nat.add_right_comm]
        · rfl
      rw [Position.after_cons, hnext, ih, Position.after_cons]

/-- The tokens of a text that begins some lines below are those lines below. -/
theorem lexemesFrom_lowered (k : Nat) (p : Position) (cs : List Char) :
    lexemesFrom ⟨p.line + k, p.column⟩ cs = (lexemesFrom p cs).map (Lexeme.lowered k) := by
  unfold lexemesFrom
  induction (pieces cs).1 generalizing p with
  | nil => rfl
  | cons q rest ih =>
      have hrest : (lexemes ((Position.mk (p.line + k) p.column).after q.text) rest).1 =
          (lexemes (p.after q.text) rest).1.map (Lexeme.lowered k) := by
        rw [after_lowered, ih]
      cases q with
      | token t => exact congrArg (_ :: ·) hrest
      | blank | comment => exact hrest

/-! ### Signs next to one another -/

/-- Behind a division sign an operand must begin. -/
theorem exists_operand_of_step? {r r' : Reading} {x : Lexeme} (hx : x.token = .operator .divide)
    (h : r.step? x = some r') : ∃ gap, r' = .operand gap := by
  obtain ⟨t, p⟩ := x
  obtain rfl := hx
  cases r with
  | suffix | afterFunction => exact ⟨_, (Option.some.inj h).symm⟩
  | _ => cases h

/-- No operand begins with a multiplication sign. -/
theorem step?_operand_times {gap : Gap} {x : Lexeme} (hx : x.token = .operator .times) :
    (Reading.operand gap).step? x = none := by
  obtain ⟨t, p⟩ := x
  obtain rfl := hx
  rfl

/-- No program has a multiplication sign right behind a division sign. -/
theorem not_divide_times_of_runs {r r' : Reading} {xs : List Lexeme} (h : r.Runs xs r') :
    ¬[.operator .divide, .operator .times] <:+: xs.map Lexeme.token := by
  induction xs generalizing r with
  | nil => exact fun hpart => nomatch List.infix_nil.mp hpart
  | cons x rest ih =>
      obtain ⟨next, hs, hrest⟩ := h.exists_step
      intro hpart
      rcases List.infix_cons_iff.mp hpart with hprefix | hlater
      · obtain ⟨hx, hprefix⟩ := List.cons_prefix_cons.mp hprefix
        obtain ⟨gap, rfl⟩ := exists_operand_of_step? hx.symm hs
        cases rest with
        | nil => cases List.prefix_nil.mp hprefix
        | cons y rest =>
            obtain ⟨hy, -⟩ := List.cons_prefix_cons.mp hprefix
            obtain ⟨next, hs, -⟩ := hrest.exists_step
            rw [step?_operand_times hy.symm] at hs
            cases hs
      · exact ih hrest hlater

end

end Scriptlet.Source
