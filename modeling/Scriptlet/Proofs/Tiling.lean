import Mathlib.Data.List.DropRight
import Scriptlet.Proofs.Seam

/-!
# A Text as a Row of Pieces

The pieces of a text stand side by side, and each is the longest one that some terminal matches
where it begins. A block comment alone does not go by its length: a terminal matches it up to any
`*/` that comes behind, and it ends at the first. Both conditions are said of the text and of the
terminals (`Piece.Leads`), and a text has one row of such pieces only.

## Main definitions

* `Piece.Leads`: a piece is the one that a text has to begin with.
* `Position.behind`: the place behind a text, by its line feeds and by what follows the last one.
* `Tiled`: a text is a row of such pieces, with what begins with none behind them.
* `Scan.Describes`: what a scan says of a text that is such a row.

## Main results

* `firstPiece?_eq_some_iff`: what is cut off is the piece that a text has to begin with.
* `tiled_iff`: a text is a row of pieces in one way only.
* `scan_describes`: the scan of a text says what its tokens are, and where they stand.
-/

namespace Scriptlet.Text.Position

/-- The place behind a text: one line more than it has line feeds, and one column more than it has
characters behind the last of them. -/
def behind (text : List Char) : Position :=
  ⟨1 + text.count '\n', 1 + (text.rtakeWhile (· ≠ '\n')).length⟩

/-- A text that starts at the start of the source ends at the place behind it. -/
theorem after_start (text : List Char) : start.after text = behind text := by
  induction text using List.reverseRecOn with
  | nil => rfl
  | append_singleton text c ih =>
      rw [after_append, ih, after_cons, after_nil, next, behind, behind, List.count_append]
      split
      next hc =>
          subst hc
          rw [List.rtakeWhile_concat_neg _ _ _ (by decide)]
          rfl
      next hc =>
          rw [List.rtakeWhile_concat_pos _ _ _ (by simpa using hc), List.length_append,
            List.count_singleton, if_neg (by simpa using hc)]
          rfl

end Scriptlet.Text.Position

namespace Scriptlet.Source

open Scriptlet.Text (Position)

/-! ### The piece that a text has to begin with -/

/-- Whether a piece is a comment that is closed by a mark of its own. -/
def Piece.IsBlock (p : Piece) : Prop := ∃ body, p = .comment ('/' :: '*' :: (body ++ ['*', '/']))

/-- Whether a piece is the one that a text has to begin with: the longest that a terminal matches
there, except that a block comment ends where it is closed for the first time. -/
structure Piece.Leads (p : Piece) (cs : List Char) : Prop where
  matched : p.Matched
  begins : p.text <+: cs
  longest : ∀ q : Piece, q.Matched → q.text <+: cs →
    q.text.length ≤ p.text.length ∨ p.IsBlock ∧ q.IsBlock
  first : ∀ body, p = .comment ('/' :: '*' :: (body ++ ['*', '/'])) →
    ¬['*', '/'] <:+: body ++ ['*']

section

variable {cs after rest : List Char} {p q : Piece} {t : Token}

/-! ### What is cut off is the longest -/

/-- A word takes every character that goes on with it. -/
theorem length_lt_of_word {c : Char} (hcs : NameText cs) (hc : continuesName c = true)
    (h : firstPiece? (cs ++ c :: rest) = some (p, after)) : cs.length < p.text.length := by
  have hlong : NameText (cs ++ c :: rest.takeWhile continuesName) := by
    obtain ⟨d, ds, rfl, hd, hds⟩ := hcs
    refine ⟨d, _, rfl, hd, List.forall_mem_append.mpr ⟨hds, ?_⟩⟩
    exact List.forall_mem_cons.mpr ⟨hc, fun e he => mem_takeWhile he⟩
  have hcut := firstPiece?_word hlong fun _ => @eq_false_of_head?_dropWhile rest _ _
  rw [List.append_assoc, List.cons_append, List.takeWhile_append_dropWhile, h] at hcut
  obtain ⟨rfl, -⟩ := Prod.mk.inj (Option.some.inj hcut)
  rw [Piece.text, text_word, List.length_append, List.length_cons]
  omega

/-- Digits before a digit are not a whole piece. -/
theorem length_lt_of_integer {c : Char} (hne : cs ≠ []) (hcs : ∀ d ∈ cs, d.isDigit = true)
    (hc : c.isDigit = true) (h : firstPiece? (cs ++ c :: rest) = some (p, after)) :
    cs.length < p.text.length := by
  have hlong : ∀ d ∈ cs ++ c :: rest.takeWhile Char.isDigit, d.isDigit = true :=
    List.forall_mem_append.mpr
      ⟨hcs, List.forall_mem_cons.mpr ⟨hc, fun e he => mem_takeWhile he⟩⟩
  have hcut := firstPiece?_integer (List.append_ne_nil_of_left_ne_nil hne _) hlong
    fun _ => @eq_false_of_head?_dropWhile rest _ _
  rw [List.append_assoc, List.cons_append, List.takeWhile_append_dropWhile, h] at hcut
  obtain ⟨rfl, -⟩ := Prod.mk.inj (Option.some.inj hcut)
  rw [Piece.text, Token.text, String.toList_ofList, List.length_append, List.length_cons]
  omega

/-- What is cut off where a slash stands is that slash, or is longer. -/
theorem divide_or_length_lt (h : firstPiece? ('/' :: rest) = some (p, after)) :
    p = .token (.operator .divide) ∨ 1 < p.text.length := by
  have hslash : slashPiece rest = (p, after) := Option.some.inj h
  unfold slashPiece at hslash
  split at hslash
  · obtain ⟨rfl, -⟩ := Prod.mk.inj hslash
    exact .inr (by simp [Piece.text])
  · split at hslash
    · obtain ⟨rfl, -⟩ := Prod.mk.inj hslash
      exact .inr (by simp [Piece.text])
    · exact .inl (Prod.mk.inj hslash).1.symm
  · exact .inl (Prod.mk.inj hslash).1.symm

/-- Where a token stands, it is cut off, or something longer is. -/
theorem token_or_length_lt (ht : t.WellSpelled)
    (h : firstPiece? (t.text.toList ++ rest) = some (p, after)) :
    .token t = p ∨ t.text.toList.length < p.text.length := by
  by_cases hends : ∀ c ∈ rest.head?, t.endsBefore c = true
  · rw [firstPiece?_text_append ht hends] at h
    exact .inl (Prod.mk.inj (Option.some.inj h)).1
  push Not at hends
  obtain ⟨c, hc, hgoes⟩ := hends
  obtain ⟨rest, rfl⟩ := List.head?_eq_some_iff.mp hc
  -- each token that goes on with the character behind it is part of something longer
  cases t with
  | keyword k =>
      exact .inr (length_lt_of_word k.nameText (by simpa [Token.endsBefore] using hgoes) h)
  | name text => exact .inr (length_lt_of_word ht.1 (by simpa [Token.endsBefore] using hgoes) h)
  | integer digits =>
      exact .inr (length_lt_of_integer ht.1 ht.2 (by simpa [Token.endsBefore] using hgoes) h)
  | string mark body => exact absurd rfl hgoes
  | operator op =>
      cases op with
      | less | greater =>
          obtain rfl : c = '=' := by simpa [Token.endsBefore] using hgoes
          obtain ⟨rfl, -⟩ := Prod.mk.inj (Option.some.inj h)
          exact .inr (by decide)
      | divide => exact (divide_or_length_lt h).imp_left Eq.symm
      | _ => exact absurd rfl hgoes
  | punctuation mark =>
      cases mark with
      | assign =>
          obtain rfl : c = '=' := by simpa [Token.endsBefore] using hgoes
          obtain ⟨rfl, -⟩ := Prod.mk.inj (Option.some.inj h)
          exact .inr (by decide)
      | _ => exact absurd rfl hgoes

/-- A block comment is closed somewhere if its mark stands anywhere. -/
theorem exists_splitComment (body rest : List Char) :
    ∃ found, splitComment (body ++ '*' :: '/' :: rest) = some found := by
  induction body with
  | nil => exact ⟨(['*', '/'], rest), by simp [splitComment]⟩
  | cons c body ih =>
      obtain ⟨found, hfound⟩ := ih
      obtain ⟨d, ds, hd⟩ : ∃ d ds, body ++ '*' :: '/' :: rest = d :: ds := by
        cases body <;> exact ⟨_, _, rfl⟩
      rw [hd] at hfound
      rw [List.cons_append, hd, splitComment]
      split
      · exact ⟨_, rfl⟩
      · exact ⟨_, by rw [hfound, Option.map_some]⟩

/-- What a terminal matches is cut off, or something longer is, or else both are block comments. -/
theorem Piece.Matched.cut_or_length_lt (hq : q.Matched)
    (h : firstPiece? (q.text ++ rest) = some (p, after)) :
    q = p ∨ q.text.length < p.text.length ∨ p.IsBlock ∧ q.IsBlock := by
  cases q with
  | token t => exact (token_or_length_lt hq h).imp_right .inl
  | blank text =>
      obtain ⟨hne, hb⟩ := hq
      obtain ⟨c, cs, rfl⟩ := List.exists_cons_of_ne_nil hne
      obtain ⟨hc, hcs⟩ := List.forall_mem_cons.mp hb
      rw [Piece.text, List.cons_append, firstPiece?, if_pos hc,
        List.takeWhile_append_of_pos hcs] at h
      obtain ⟨rfl, -⟩ := Prod.mk.inj (Option.some.inj h)
      cases hmore : rest.takeWhile isBlank with
      | nil => exact .inl (by rw [List.append_nil])
      | cons d ds => exact .inr (.inl (by simp [Piece.text]))
  | comment text =>
      rcases hq with ⟨line, rfl, hline⟩ | ⟨body, rfl⟩
      · have hmem : ∀ c ∈ line, decide (c ≠ '\n') = true := fun c hc =>
          decide_eq_true fun he => hline (he ▸ hc)
        have hcut : slashPiece ('/' :: (line ++ rest)) = (p, after) := Option.some.inj h
        rw [slashPiece, List.takeWhile_append_of_pos hmem] at hcut
        obtain ⟨rfl, -⟩ := Prod.mk.inj hcut
        cases hmore : rest.takeWhile (· ≠ '\n') with
        | nil => exact .inl (by rw [List.append_nil])
        | cons d ds => exact .inr (.inl (by simp [Piece.text]))
      · refine .inr (.inr ⟨?_, body, rfl⟩)
        obtain ⟨⟨closed, behind⟩, hclosed⟩ := exists_splitComment body rest
        have htext : body ++ ['*', '/'] ++ rest = body ++ '*' :: '/' :: rest := by
          rw [List.append_assoc]
          rfl
        have hcut : slashPiece ('*' :: (body ++ ['*', '/'] ++ rest)) = (p, after) :=
          Option.some.inj h
        rw [slashPiece, htext, hclosed] at hcut
        obtain ⟨rfl, -⟩ := Prod.mk.inj hcut
        obtain ⟨inner, rfl⟩ := exists_of_splitComment hclosed
        exact ⟨inner, rfl⟩

/-! ### Block comments end where they are closed -/

/-- No mark that closes a comment comes before the one that does. -/
theorem not_infix_of_splitComment {body : List Char}
    (h : splitComment cs = some (body ++ ['*', '/'], after)) :
    ¬['*', '/'] <:+: body ++ ['*'] := by
  induction body generalizing cs with
  | nil => decide
  | cons e body ih =>
      match cs, h with
      | c :: d :: rest, h =>
        rw [splitComment] at h
        split at h
        · have hlength := congrArg List.length (Prod.mk.inj (Option.some.inj h)).1
          simp at hlength
        next hc =>
            obtain ⟨⟨b, a⟩, hs, hba⟩ := Option.map_eq_some_iff.mp h
            obtain ⟨hb, rfl⟩ := Prod.mk.inj hba
            obtain ⟨rfl, rfl⟩ := List.cons.inj hb
            intro hpart
            rcases List.infix_cons_iff.mp hpart with hprefix | hlater
            · -- the mark would stand at the very beginning of the text that was split
              have hbegins : ['*', '/'] <+: c :: d :: rest := by
                refine hprefix.trans ?_
                rw [← splitComment_append hs]
                exact ⟨'/' :: a, by simp⟩
              obtain ⟨hc', hbegins⟩ := List.cons_prefix_cons.mp hbegins
              exact hc ⟨hc'.symm, (List.cons_prefix_cons.mp hbegins).1.symm⟩
            · exact ih hs hlater

/-- A comment ends where it first could. -/
theorem not_infix_of_firstPiece? {body : List Char}
    (h : firstPiece? cs = some (.comment ('/' :: '*' :: (body ++ ['*', '/'])), after)) :
    ¬['*', '/'] <:+: body ++ ['*'] := by
  have hcs := firstPiece?_append h
  obtain ⟨rest, rfl⟩ : ∃ rest, cs = '/' :: '*' :: rest := ⟨_, hcs.symm⟩
  have hcut : slashPiece ('*' :: rest) = (_, after) := Option.some.inj h
  rw [slashPiece] at hcut
  split at hcut
  next closed _ hclosed =>
      obtain ⟨hcomment, rfl⟩ := Prod.mk.inj hcut
      obtain ⟨-, hbody⟩ := List.cons.inj (Piece.comment.inj hcomment)
      obtain rfl := (List.cons.inj hbody).2
      exact not_infix_of_splitComment hclosed
  next => cases hcut

/-- What is cut off is what the text has to begin with. -/
theorem Piece.leads_of_firstPiece? (h : firstPiece? cs = some (p, after)) : p.Leads cs where
  matched := Piece.matched_of_firstPiece? h
  begins := ⟨after, firstPiece?_append h⟩
  longest := by
    rintro q hq ⟨rest, rfl⟩
    rcases hq.cut_or_length_lt h with rfl | hlonger | hblocks
    · exact .inl (Nat.le_refl _)
    · exact .inl (Nat.le_of_lt hlonger)
    · exact .inr hblocks
  first := by
    rintro body rfl
    exact not_infix_of_firstPiece? h

/-! ### There is one such piece -/

/-- Two block comments that end where they are closed for the first time end at the same place. -/
theorem Piece.Leads.length_le_of_isBlock (hp : p.Leads cs) (hq : q.Leads cs) (hp' : p.IsBlock)
    (hq' : q.IsBlock) : q.text.length ≤ p.text.length := by
  obtain ⟨b, rfl⟩ := hp'
  obtain ⟨b', rfl⟩ := hq'
  by_contra hlonger
  have hlength : b.length < b'.length := by simpa [Piece.text] using hlonger
  refine hq.first b' rfl ?_
  have hprefix : b ++ ['*', '/'] <+: b' ++ ['*', '/'] := by
    have hboth := List.prefix_of_prefix_length_le hp.begins hq.begins (Nat.le_of_not_le hlonger)
    exact (List.cons_prefix_cons.mp (List.cons_prefix_cons.mp hboth).2).2
  have hshort : b ++ ['*', '/'] <+: b' ++ ['*'] := by
    refine List.prefix_of_prefix_length_le hprefix ⟨['/'], by simp⟩ ?_
    simp only [List.length_append, List.length_cons, List.length_nil]
    omega
  exact (List.suffix_append b _).isInfix.trans hshort.isInfix

/-- A piece that leads is the longest one. -/
theorem Piece.Leads.length_le (hp : p.Leads cs) (hq : q.Leads cs) :
    q.text.length ≤ p.text.length := by
  rcases hp.longest q hq.matched hq.begins with hle | ⟨hp', hq'⟩
  · exact hle
  · exact hp.length_le_of_isBlock hq hp' hq'

/-- **What is cut off is the piece that a text has to begin with**, and nothing else is. -/
theorem firstPiece?_eq_some_iff :
    firstPiece? cs = some (p, after) ↔ p.Leads cs ∧ p.text ++ after = cs := by
  refine ⟨fun h => ⟨Piece.leads_of_firstPiece? h, firstPiece?_append h⟩, ?_⟩
  rintro ⟨hp, rfl⟩
  cases hcut : firstPiece? (p.text ++ after) with
  | none => exact absurd hp.begins (firstPiece?_eq_none_iff.mp hcut p hp.matched)
  | some found =>
      obtain ⟨q, behind⟩ := found
      have hq := Piece.leads_of_firstPiece? hcut
      have hlength := Nat.le_antisymm (hp.length_le hq) (hq.length_le hp)
      obtain ⟨htext, rfl⟩ := List.append_inj (firstPiece?_append hcut) hlength
      rcases hp.matched.cut_or_length_lt hcut with rfl | hlonger | ⟨⟨b, rfl⟩, ⟨b', rfl⟩⟩
      · rfl
      · omega
      · exact congrArg (fun text => some (Piece.comment text, _)) htext

end

/-! ### Rows of pieces -/

/-- Whether a text is a row of pieces with `left` behind them: each piece is the one that the text
has to begin with from there on, and what is left does not begin with any. -/
structure Tiled (source : List Char) (ps : List Piece) (left : List Char) : Prop where
  text : ps.flatMap Piece.text ++ left = source
  leads : ∀ before p after, ps = before ++ p :: after →
    p.Leads (p.text ++ (after.flatMap Piece.text ++ left))
  stop : ∀ p : Piece, p.Matched → ¬p.text <+: left

/-- **A text is a row of pieces in one way only**, and that is how it is cut. -/
theorem tiled_iff {source left : List Char} {ps : List Piece} :
    Tiled source ps left ↔ pieces source = (ps, left) := by
  constructor
  · rintro ⟨rfl, hleads, hstop⟩
    induction ps with
    | nil =>
        rw [List.flatMap_nil, List.nil_append, pieces]
        split
        next => rfl
        next hcut => cases hcut.symm.trans (firstPiece?_eq_none_iff.mpr hstop)
    | cons p rest ih =>
        have hcut := firstPiece?_eq_some_iff.mpr ⟨hleads [] p rest rfl, rfl⟩
        rw [List.flatMap_cons, List.append_assoc, pieces_of_firstPiece? hcut,
          ih fun before q after hrest => hleads (p :: before) q after (congrArg (p :: ·) hrest)]
  · intro h
    fun_induction pieces source generalizing ps left with
    | case1 cs hnone =>
        obtain ⟨rfl, rfl⟩ := Prod.mk.inj h
        exact ⟨rfl, fun before p after hnil => by simp at hnil, firstPiece?_eq_none_iff.mp hnone⟩
    | case2 cs p after hcut _ ih =>
        obtain ⟨rfl, rfl⟩ := Prod.mk.inj h
        obtain ⟨htext, hleads, hstop⟩ := ih rfl
        refine ⟨by rw [List.flatMap_cons, List.append_assoc, htext, firstPiece?_append hcut], ?_,
          hstop⟩
        intro before q behind hsplit
        cases before with
        | nil =>
            obtain ⟨rfl, rfl⟩ := List.cons.inj hsplit
            rw [htext, firstPiece?_append hcut]
            exact Piece.leads_of_firstPiece? hcut
        | cons _ before => exact hleads before q behind (List.cons.inj hsplit).2

/-! ### What a scan says of them -/

/-- The seven texts that are never names. -/
def keywordTexts : List String := ["var", "let", "const", "return", "if", "else", "function"]

/-- A token that is a run of name characters is a keyword if the run spells one, and a name
otherwise. -/
theorem Token.eq_word {t : Token} (ht : t.WellSpelled) (h : NameText t.text.toList) :
    t = word t.text.toList := by
  have htoken := @firstPiece?_text_append t ht [] nofun
  rw [@firstPiece?_word _ [] h nofun] at htoken
  exact (Piece.token.inj (Prod.mk.inj (Option.some.inj htoken)).1).symm

/-- A word is a keyword or a name, by its text. -/
theorem exists_keyword_iff {t : Token} (ht : t.WellSpelled) (h : NameText t.text.toList) :
    ((∃ k, t = .keyword k) ↔ t.text ∈ keywordTexts) ∧
      (t = .name t.text ↔ t.text ∉ keywordTexts) := by
  have hword := Token.eq_word ht h
  rw [word, String.ofList_toList] at hword
  split at hword
  next k hk =>
      obtain rfl := hword
      have hmem : k.text ∈ keywordTexts := by
        cases k <;> decide
      exact ⟨iff_of_true ⟨k, rfl⟩ hmem, iff_of_false nofun (not_not_intro hmem)⟩
  next hk =>
      have hnone : ∀ k : Keyword, k.text ≠ t.text := fun k hk' => by
        rw [Keyword.ofText?_eq_some_iff.mpr hk'] at hk
        cases hk
      have hnot : t.text ∉ keywordTexts := by
        intro hmem
        have hk : t.text ∈ Keyword.all.map Keyword.text := hmem
        obtain ⟨k, -, hk⟩ := List.mem_map.mp hk
        exact hnone k hk
      refine ⟨iff_of_false ?_ hnot, iff_of_true hword hnot⟩
      rintro ⟨k, rfl⟩
      exact hnone k rfl

/-- What a scan says of a text that is a row of pieces: which of them are tokens, where each of
these stands, and which character could not begin a piece, if one is left. -/
structure Scan.Describes (s : Scan) (source : List Char) (ps : List Piece) (left : List Char) :
    Prop where
  tiled : Tiled source ps left
  tokens : s.tokens = ps.filterMap Piece.token?
  keyword : ∀ t, .token t ∈ ps → NameText t.text.toList →
    ((∃ k, t = .keyword k) ↔ t.text ∈ keywordTexts) ∧ (t = .name t.text ↔ t.text ∉ keywordTexts)
  position : ∀ before x after, s.lexemes = before ++ x :: after →
    ∃ ps₁ ps₂, ps = ps₁ ++ .token x.token :: ps₂ ∧
      ps₁.filterMap Piece.token? = before.map Lexeme.token ∧
      x.position = .behind (ps₁.flatMap Piece.text)
  bad : ∀ b, s.bad = some b ↔
    (∃ after, left = b.char :: after) ∧ b.position = .behind (ps.flatMap Piece.text)

/-- **The scan of a text describes the one row of pieces that the text is.** -/
theorem scan_describes (source : List Char) :
    (scan source).Describes source (pieces source).1 (pieces source).2 ∧
      ∀ ps left, Tiled source ps left ↔ pieces source = (ps, left) := by
  refine ⟨{ tiled := tiled_iff.mpr rfl, tokens := tokens_lexemes .start _, keyword := ?_,
            position := ?_, bad := ?_ }, fun ps left => tiled_iff⟩
  · exact fun t ht hname => exists_keyword_iff (matched_of_mem_pieces ht) hname
  · intro before x after h
    obtain ⟨ps₁, ps₂, hps, htokens, hx⟩ := exists_of_lexemes_eq h
    exact ⟨ps₁, ps₂, hps, htokens, hx.trans (Position.after_start _)⟩
  · rintro ⟨c, p⟩
    have hfinish : (lexemes .start (pieces source).1).2 =
        .behind ((pieces source).1.flatMap Piece.text) :=
      (lexemes_finish _ _).trans (Position.after_start _)
    change ((pieces source).2.head?.map fun c => BadCharacter.mk c (lexemes .start _).2) = _ ↔ _
    rw [hfinish]
    cases (pieces source).2 with
    | nil => simp
    | cons d after => simp [eq_comm]

end Scriptlet.Source
