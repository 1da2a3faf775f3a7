import Scriptlet.Proofs.Seam

/-!
# Strings as Literals

Every string is the value of a literal, between marks of either kind. A backslash is put before each
backslash and each mark of that kind, and a line feed, which a literal cannot hold, is written as a
backslash and a letter. Nothing else needs one: neither a mark of the other kind nor a letter that
denotes something behind a backslash, since what stands before it has taken the backslash already.

## Main definitions

* `Quote.written`: what is written for one character.
* `Quote.literal`: the literal that is written for a string.

## Main results

* `unescape_flatMap_written`: what is written for some characters denotes them.
* `program_literal`: a literal is one token, a program, and a key.
-/

namespace Scriptlet.Source

/-- What is written for a character between two marks. -/
def Quote.written (mark : Quote) (c : Char) : List Char :=
  if c = '\n' then ['\\', 'n']
  else if c = '\\' ∨ c = mark.char then ['\\', c]
  else [c]

/-- The literal that is written for a string. -/
def Quote.literal (mark : Quote) (s : String) : String :=
  String.ofList (mark.char :: (s.toList.flatMap mark.written ++ [mark.char]))

variable {mark : Quote}

/-! ### What is written between the marks -/

/-- What is written for characters may stand between the marks. -/
theorem literalBody_flatMap_written (cs : List Char) :
    LiteralBody mark (cs.flatMap mark.written) := by
  induction cs with
  | nil => exact .nil
  | cons c cs ih =>
      rw [List.flatMap_cons, Quote.written]
      by_cases hn : c = '\n'
      · rw [if_pos hn]
        exact .escape (by decide) ih
      rw [if_neg hn]
      by_cases hc : c = '\\' ∨ c = mark.char
      · rw [if_pos hc]
        exact .escape hn ih
      · rw [if_neg hc]
        exact .plain (fun h => hc (.inr h)) (fun h => hc (.inl h)) hn ih

/-- A character that is no backslash denotes itself. -/
theorem unescape_cons {c : Char} (h : c ≠ '\\') (cs : List Char) :
    unescape (c :: cs) = c :: unescape cs := by
  cases cs with
  | nil => rfl
  | cons d rest => rw [unescape, if_neg h]

/-- What is written for some characters denotes them. -/
theorem unescape_flatMap_written (cs : List Char) : unescape (cs.flatMap mark.written) = cs := by
  induction cs with
  | nil => rfl
  | cons c cs ih =>
      rw [List.flatMap_cons, Quote.written]
      by_cases hn : c = '\n'
      · rw [if_pos hn, List.cons_append, List.cons_append, unescape, if_pos rfl,
          List.nil_append, ih, hn]
        rfl
      rw [if_neg hn]
      by_cases hc : c = '\\' ∨ c = mark.char
      · have hescaped : escaped c = c := by
          rcases hc with rfl | rfl <;> cases mark <;> decide
        rw [if_pos hc, List.cons_append, List.cons_append, unescape, if_pos rfl,
          List.nil_append, ih, hescaped]
      · rw [if_neg hc, List.singleton_append, unescape_cons (fun h => hc (.inl h)), ih]

/-- What is written between the marks for a string. -/
def Quote.body (mark : Quote) (s : String) : String :=
  String.ofList (s.toList.flatMap mark.written)

/-- So it is the body of a string. -/
theorem wellSpelled_body (mark : Quote) (s : String) :
    (Token.string mark (mark.body s)).WellSpelled := by
  rw [Token.WellSpelled, Quote.body, String.toList_ofList]
  exact literalBody_flatMap_written _

/-- The body of a text is read as the text. -/
theorem literalText_body (mark : Quote) (s : String) : literalText (mark.body s) = s := by
  rw [literalText, Quote.body, String.toList_ofList, unescape_flatMap_written,
    String.ofList_toList]

/-- The token of a string is its literal. -/
theorem text_string_body (mark : Quote) (s : String) :
    (Token.string mark (mark.body s)).text = mark.literal s := by
  simp [Token.text, Quote.body, Quote.literal, ← String.toList_inj]

/-! ### Programs that are one operand -/

/-- All tokens of a text without line feeds stand on its first line. -/
theorem line_eq_one_of_mem_scan {cs : List Char} (h : '\n' ∉ cs) {x : Lexeme}
    (hx : x ∈ (scan cs).lexemes) : x.line = 1 := by
  obtain ⟨hlower, hupper⟩ := line_le_of_mem_scan hx
  rw [List.count_eq_zero.mpr h] at hupper
  exact Int.le_antisymm hupper hlower

/-- A text with the tokens of an operand that does not begin with a function is the program that
consists of it. -/
theorem program_of_primary {source : String} {h : Derivation .primary} {x : Lexeme}
    {xs : List Lexeme} (hb : (scan source.toList).bad = none)
    (hs : ∀ y ∈ (scan source.toList).lexemes, y.token.oversize? = none)
    (hd : (scan source.toList).lexemes = h.lexemes) (hx : h.lexemes = x :: xs)
    (hfunction : x.token ≠ .keyword .wordFunction) (ht : ¬h.Tied) :
    program source = .ok (.block [h.lower] x.line) := by
  let body : Derivation .statements := .last (.value (.alone (.uncut (.head h))))
  have htied : ¬body.Tied := by
    rintro (hties | hlater)
    · have hlexemes : (Derivation.value (.alone (.uncut (.head h)))).lexemes = x :: xs := hx
      rw [hlexemes] at hties
      exact not_ties_cons hfunction xs hties
    · exact ht hlater
  have hprogram := @program_of_lexemes source (.program body) hb hs hd.symm htied
  rw [lower_program hd.symm, Scan.line, hd, hx] at hprogram
  exact hprogram

/-! ### Literals -/

/-- A literal is one token. -/
theorem scan_literal (mark : Quote) (s : String) :
    scan (mark.literal s).toList = ⟨[⟨.string mark (mark.body s), .start⟩], none⟩ := by
  have hcut := @firstPiece?_text_append _ (wellSpelled_body mark s) [] nofun
  rw [List.append_nil, text_string_body] at hcut
  rw [scan, pieces_of_firstPiece? hcut, pieces_nil]
  rfl

/-- A literal alone is a program. -/
theorem program_of_literal (mark : Quote) (s : String) :
    program (mark.literal s) = .ok (.block [.constant (.string s) 1] 1) := by
  have hscan := scan_literal mark s
  have hprogram := @program_of_primary (mark.literal s) (.string mark (mark.body s) .start) _ _
    (by rw [hscan]) (by rw [hscan]; exact List.forall_mem_singleton.mpr rfl) (by rw [hscan]; rfl)
    rfl nofun not_false
  rw [Derivation.lower, literalText_body] at hprogram
  exact hprogram

/-- The tokens of an object literal between parentheses. -/
theorem typeset_record (mark : Quote) (s : String) :
    Typeset [.punctuation .openParen, .punctuation .openBrace, .string mark (mark.body s),
        .punctuation .colon, .integer "1", .punctuation .closeBrace, .punctuation .closeParen]
      ("(\x7b " ++ mark.literal s ++ " : 1 \x7d)").toList := by
  have hnone : Blank [] := List.forall_mem_nil _
  have hspace : Blank [' '] := List.forall_mem_singleton.mpr rfl
  have htext : ("(\x7b " ++ mark.literal s ++ " : 1 \x7d)").toList =
      ['('] ++ (['\x7b'] ++ ([' '] ++ ((Token.string mark (mark.body s)).text.toList ++
        ([' '] ++ ([':'] ++ ([' '] ++ (['1'] ++ ([' '] ++ (['\x7d'] ++ ([')'] ++ [])))))))))) := by
    rw [text_string_body]
    simp
  rw [htext]
  have hone : Token.WellSpelled (.integer "1") := ⟨by decide, List.forall_mem_singleton.mpr rfl⟩
  refine .cons hnone trivial (fun _ _ => rfl) (.cons hnone trivial (fun _ _ => rfl) ?_)
  refine .cons hspace (wellSpelled_body mark s) (fun _ _ => rfl) ?_
  refine .cons hspace trivial (fun _ _ => rfl) (.cons hspace hone ?_ ?_)
  · rintro c hc
    obtain rfl := Option.some.inj hc
    rfl
  · exact .cons hspace trivial (fun _ _ => rfl)
      (.cons hnone trivial (fun _ _ => rfl) (.nil hnone))

/-- A literal may be the key of an entry. -/
theorem program_of_record (mark : Quote) (s : String) :
    program ("(\x7b " ++ mark.literal s ++ " : 1 \x7d)") =
      .ok (.block [.record [(s, .constant (.integer 1) 1)] 1] 1) := by
  obtain ⟨htokens, hbad⟩ := (typeset_record mark s).scan
  have hfeed : '\n' ∉ ("(\x7b " ++ mark.literal s ++ " : 1 \x7d)").toList := by
    have hliteral := (wellSpelled_body mark s).notMem_lineFeed
    rw [text_string_body] at hliteral
    simpa using hliteral
  have hlines := @line_eq_one_of_mem_scan _ hfeed
  simp only [Scan.tokens, List.map_eq_cons_iff, List.map_eq_nil_iff] at htokens
  obtain ⟨⟨_, p₁⟩, _, hlexemes, rfl, ⟨_, p₂⟩, _, rfl, rfl, ⟨_, p₃⟩, _, rfl, rfl, ⟨_, p₄⟩, _, rfl,
    rfl, ⟨_, p₅⟩, _, rfl, rfl, ⟨_, p₆⟩, _, rfl, rfl, ⟨_, p₇⟩, _, rfl, rfl, rfl⟩ := htokens
  rw [hlexemes] at hlines
  have h₁ : (p₁.line : Int) = 1 := @hlines ⟨.punctuation .openParen, p₁⟩ (by simp)
  have h₂ : (p₂.line : Int) = 1 := @hlines ⟨.punctuation .openBrace, p₂⟩ (by simp)
  have h₅ : (p₅.line : Int) = 1 := @hlines ⟨.integer "1", p₅⟩ (by simp)
  let tree : Derivation .primary :=
    .parentheses p₁ (.alone (.uncut (.head (.record p₂ (.oneMember (.underString mark
      (mark.body s) p₃ p₄ (.alone (.uncut (.head (.integer "1" p₅)))))) p₆)))) p₇
  have hone : Token.oversize? (.integer "1") = none := by decide
  have hsize : ∀ y ∈ (scan ("(\x7b " ++ mark.literal s ++ " : 1 \x7d)").toList).lexemes,
      y.token.oversize? = none := by
    rw [hlexemes]
    simp only [List.forall_mem_cons]
    exact ⟨rfl, rfl, rfl, rfl, hone, rfl, rfl, List.forall_mem_nil _⟩
  have hprogram := @program_of_primary _ tree _ _ hbad hsize hlexemes rfl
    (fun hword => by cases hword) not_false
  have hlower : tree.lower = .record [(s, .constant (.integer 1) p₅.line)] p₂.line := by
    rw [← literalText_body mark s]
    rfl
  rw [hprogram, hlower, Lexeme.line, h₁, h₂, h₅]

/-- **Every string can be written between marks of either kind**: what is written is one token, a
program whose only instruction is the string, and the key of an entry. -/
theorem program_literal (s : String) (mark : Quote) :
    scan (mark.literal s).toList = ⟨[⟨.string mark (mark.body s), .start⟩], none⟩ ∧
      program (mark.literal s) = .ok (.block [.constant (.string s) 1] 1) ∧
      program ("(\x7b " ++ mark.literal s ++ " : 1 \x7d)") =
        .ok (.block [.record [(s, .constant (.integer 1) 1)] 1] 1) :=
  ⟨scan_literal mark s, program_of_literal mark s, program_of_record mark s⟩

end Scriptlet.Source
