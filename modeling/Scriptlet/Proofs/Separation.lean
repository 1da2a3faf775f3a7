import Scriptlet.Proofs.Terminal

/-!
# Where Tokens End

A token is cut off as it is if what comes behind it begins with no character that it could go on
with: no name character behind a word, no digit behind a number, no `=` behind what could become
one operator with it, and nothing behind a slash that would make a comment of it. No token goes on
with a blank, so the text of a token, alone, says which token it is.

## Main definitions

* `Token.endsBefore`: whether a token ends where a character stands behind it.

## Main results

* `firstPiece?_text_append`: a token that ends is cut off whole.
* `Token.endsBefore_of_isBlank`: every token ends before a blank.
* `Token.eq_of_text_eq`: different tokens have different texts.
-/

namespace Scriptlet.Source

/-- Whether a token ends where a character stands behind it. -/
def Token.endsBefore : Token → Char → Bool
  | .keyword _, c | .name _, c => !continuesName c
  | .integer _, c => !c.isDigit
  | .operator .less, c | .operator .greater, c | .punctuation .assign, c => c ≠ '='
  | .operator .divide, c => c ≠ '/' && c ≠ '*'
  | .string .., _ | .operator _, _ | .punctuation _, _ => true

/-- A blank is one of five characters. -/
theorem cases_of_isBlank {c : Char} (h : isBlank c = true) :
    c = ' ' ∨ c = '\t' ∨ c = '\x0c' ∨ c = '\r' ∨ c = '\n' := by
  simpa [isBlank, or_assoc] using h

/-- No token goes on with a blank. -/
theorem Token.endsBefore_of_isBlank {c : Char} (h : isBlank c = true) (t : Token) :
    t.endsBefore c = true := by
  cases t with
  | operator op =>
      rcases cases_of_isBlank h with rfl | rfl | rfl | rfl | rfl <;> cases op <;> rfl
  | punctuation mark =>
      rcases cases_of_isBlank h with rfl | rfl | rfl | rfl | rfl <;> cases mark <;> rfl
  | keyword | name | integer | string =>
      rcases cases_of_isBlank h with rfl | rfl | rfl | rfl | rfl <;> rfl

/-- What a token may go on with is no blank. -/
theorem not_isBlank_of_endsBefore {t : Token} {c : Char} (h : t.endsBefore c = false) :
    isBlank c = false := by
  rw [← Bool.not_eq_true]
  intro hb
  rw [t.endsBefore_of_isBlank hb] at h
  cases h

/-- No name starts with a digit. -/
theorem not_startsName_of_isDigit {c : Char} (h : c.isDigit = true) : startsName c = false := by
  have hdigit : 48 ≤ c.toNat ∧ c.toNat ≤ 57 := by
    simpa [Char.isDigit, UInt32.le_iff_toNat_le] using h
  have hspelled : startsName c =
      ((decide ('A'.val ≤ c.val ∧ c.val ≤ 'Z'.val) ||
        (decide ('a'.val ≤ c.val) && decide (c.val ≤ 'z'.val))) || c = '_' || c = '$') := rfl
  rw [← Bool.not_eq_true, hspelled]
  intro hstarts
  simp only [Bool.or_eq_true, Bool.and_eq_true, decide_eq_true_eq, UInt32.le_iff_toNat_le]
    at hstarts
  rcases hstarts with ((hupper | hlower) | rfl) | rfl
  · have hlower : 65 ≤ c.toNat := hupper.1
    omega
  · have hlower : 97 ≤ c.toNat := hlower.1
    omega
  · cases h
  · cases h

/-- Characters that go on as `f` demands end before the first one that does not. -/
theorem takeWhile_append_of_head? {f : Char → Bool} {cs rest : List Char}
    (hcs : ∀ c ∈ cs, f c = true) (hr : ∀ c ∈ rest.head?, f c = false) :
    (cs ++ rest).takeWhile f = cs ∧ (cs ++ rest).dropWhile f = rest := by
  rw [List.takeWhile_append_of_pos hcs, List.dropWhile_append_of_pos hcs]
  cases rest with
  | nil => simp
  | cons c tail =>
      have hneg : ¬f c = true := by
        rw [hr c rfl]
        exact Bool.false_ne_true
      rw [List.takeWhile_cons_of_neg hneg, List.dropWhile_cons_of_neg hneg, List.append_nil]
      exact ⟨rfl, rfl⟩

/-- A run of name characters is cut off as a word. -/
theorem firstPiece?_word {cs rest : List Char} (h : NameText cs)
    (hr : ∀ c ∈ rest.head?, continuesName c = false) :
    firstPiece? (cs ++ rest) = some (.token (word cs), rest) := by
  obtain ⟨c, cs, rfl, hc, hcs⟩ := h
  have hblank : isBlank c = false := by
    refine not_isBlank_of_endsBefore (t := .name "") ?_
    rw [Token.endsBefore, continuesName, hc]
    rfl
  obtain ⟨htake, hdrop⟩ := takeWhile_append_of_head? hcs hr
  rw [List.cons_append, firstPiece?, hblank, hc, htake, hdrop]
  rfl

theorem firstPiece?_integer {cs rest : List Char} (hne : cs ≠ [])
    (hcs : ∀ c ∈ cs, c.isDigit = true) (hr : ∀ c ∈ rest.head?, c.isDigit = false) :
    firstPiece? (cs ++ rest) = some (.token (.integer (String.ofList cs)), rest) := by
  obtain ⟨c, cs, rfl⟩ := List.exists_cons_of_ne_nil hne
  obtain ⟨hc, hcs⟩ := List.forall_mem_cons.mp hcs
  have hblank : isBlank c = false := by
    refine not_isBlank_of_endsBefore (t := .integer "") ?_
    rw [Token.endsBefore, hc]
    rfl
  have hstarts := not_startsName_of_isDigit hc
  obtain ⟨htake, hdrop⟩ := takeWhile_append_of_head? hcs hr
  rw [List.cons_append, firstPiece?, hblank, hstarts, hc, htake, hdrop]
  rfl

theorem firstPiece?_string {mark : Quote} {body : List Char} (h : LiteralBody mark body)
    (rest : List Char) :
    firstPiece? (mark.char :: (body ++ mark.char :: rest)) =
      some (.token (.string mark (String.ofList body)), rest) := by
  have hs := splitLiteral_of_literalBody h rest
  cases mark with
  | single =>
      show literalPiece? .single _ = _
      rw [literalPiece?, hs]
      rfl
  | double =>
      show literalPiece? .double _ = _
      rw [literalPiece?, hs]
      rfl

/-- What could be one symbol with `=`, and has something else behind it, is one by itself. -/
theorem symbol?_cons_of_ne {d : Char} (h : d ≠ '=') (c : Char) (cs : List Char) :
    symbol? c (d :: cs) = (symbol? c []).map fun x => (x.1, d :: cs) := by
  unfold symbol?
  split <;> simp_all

/-- A token that ends is cut off whole. -/
theorem firstPiece?_text_append {t : Token} (h : t.WellSpelled) {rest : List Char}
    (hr : ∀ c ∈ rest.head?, t.endsBefore c = true) :
    firstPiece? (t.text.toList ++ rest) = some (.token t, rest) := by
  cases t with
  | keyword k =>
      have hword : word k.text.toList = .keyword k := by
        cases k <;> rfl
      rw [Token.text, firstPiece?_word k.nameText fun c hc =>
        (Bool.not_eq_true' _).mp (hr c hc), hword]
  | name text =>
      obtain ⟨hname, hk⟩ := h
      have hword : word text.toList = .name text := by
        unfold word
        split
        next k hk' => exact absurd (Keyword.ofText?_eq_some_iff.mp hk') (by simpa using hk k)
        next => simp
      rw [Token.text, firstPiece?_word hname fun c hc =>
        (Bool.not_eq_true' _).mp (hr c hc), hword]
  | integer digits =>
      rw [Token.text, firstPiece?_integer h.1 h.2 fun c hc =>
        (Bool.not_eq_true' _).mp (hr c hc), String.ofList_toList]
  | string mark body =>
      have hs := firstPiece?_string h rest
      simpa [Token.text] using hs
  | operator op =>
      cases rest with
      | nil => cases op <;> rfl
      | cons c cs =>
          have hc := hr c rfl
          cases op with
          | equal | unequal | lessEqual | greaterEqual | plus | minus | times | remainder => rfl
          | less | greater =>
              rw [Token.endsBefore, decide_eq_true_eq] at hc
              show (symbol? _ (c :: cs)).map _ = _
              rw [symbol?_cons_of_ne hc]
              rfl
          | divide =>
              rw [Token.endsBefore, Bool.and_eq_true, decide_eq_true_eq, decide_eq_true_eq] at hc
              show some (slashPiece (c :: cs)) = _
              rw [slashPiece]
              · exact fun _ hslash => hc.1 (List.cons.inj hslash).1
              · exact fun _ hstar => hc.2 (List.cons.inj hstar).1
  | punctuation mark =>
      cases rest with
      | nil => cases mark <;> rfl
      | cons c cs =>
          have hc := hr c rfl
          cases mark with
          | semicolon | comma | dot | colon | openParen | closeParen | openBrace | closeBrace => rfl
          | assign =>
              rw [Token.endsBefore, decide_eq_true_eq] at hc
              show (symbol? _ (c :: cs)).map _ = _
              rw [symbol?_cons_of_ne hc]
              rfl

/-- Different tokens have different texts. -/
theorem Token.eq_of_text_eq {t u : Token} (ht : t.WellSpelled) (hu : u.WellSpelled)
    (h : t.text = u.text) : t = u := by
  have hpiece := @firstPiece?_text_append t ht [] nofun
  rw [h, @firstPiece?_text_append u hu [] nofun] at hpiece
  obtain ⟨hpiece, -⟩ := Prod.mk.inj (Option.some.inj hpiece)
  exact (Piece.token.inj hpiece).symm

/-- Nor do different rows of tokens have the same texts. -/
theorem tokens_eq_of_texts_eq {xs ys : List Lexeme} (hx : ∀ x ∈ xs, x.token.WellSpelled)
    (hy : ∀ y ∈ ys, y.token.WellSpelled)
    (h : xs.map (fun x => x.token.text) = ys.map fun y => y.token.text) :
    xs.map Lexeme.token = ys.map Lexeme.token := by
  induction xs generalizing ys with
  | nil =>
      rw [List.map_eq_nil_iff.mp h.symm]
  | cons x rest ih =>
      obtain ⟨y, rest', rfl, hy', hrest⟩ := List.map_eq_cons_iff.mp h.symm
      have htoken : x.token = y.token :=
        Token.eq_of_text_eq (hx x List.mem_cons_self) (hy y List.mem_cons_self) hy'.symm
      have htokens := ih (fun z hz => hx z (List.mem_cons_of_mem _ hz))
        (fun z hz => hy z (List.mem_cons_of_mem _ hz)) hrest.symm
      rw [List.map_cons, List.map_cons, htoken, htokens]

end Scriptlet.Source
