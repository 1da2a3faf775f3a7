import Scriptlet.Proofs.Acceptance
import Scriptlet.Proofs.Completion
import Scriptlet.Proofs.Relocation
import Scriptlet.Proofs.Soundness
import Scriptlet.Proofs.Terminal

/-!
# The Language That Is Read

What the reader does, said of texts and the grammar alone. The tokens that can be read to their
end are those that a program can begin with (`exists_readAll_iff`), and a program may end behind
them exactly if they have a derivation tree (`exists_finish_iff`). From this follow the three
results on programs and errors, and that the grammar has one meaning for every text without a
tie.

## Main results

* `program_iff_derivable`: a text is a program exactly if the grammar derives its tokens, and
  what it means is what one of its trees means.
* `syntaxError_iff_fits`: a text that is no program gets the error that fits it.
* `lower_eq_of_lexemes_eq`: two trees of the same tokens mean the same unless there is a tie.
-/

namespace Scriptlet.Source

open Scriptlet.Text (Position)

/-- The tokens of a scanned text. -/
def Scan.tokens (s : Scan) : List Token := s.lexemes.map Lexeme.token

/-! ### Reading and the grammar -/

/-- Reading tokens goes on to their end, or fails at the first that cannot be read. -/
theorem readAll_cases (r : Reading) (xs : List Lexeme) :
    (∃ r', r.readAll xs = .ok r') ∨ ∃ before x after r', xs = before ++ x :: after ∧
      r.Runs before r' ∧ r'.step? x = none ∧ r.readAll xs = .error x := by
  induction xs generalizing r with
  | nil => exact .inl ⟨r, rfl⟩
  | cons y ys ih =>
      cases hs : r.step? y with
      | none => exact .inr ⟨[], y, ys, r, rfl, .nil r, hs, by rw [Reading.readAll, hs]⟩
      | some next =>
          have hstep : r.readAll (y :: ys) = next.readAll ys := by rw [Reading.readAll, hs]
          rcases ih next with ⟨r', h⟩ | ⟨before, x, after, r', rfl, hrun, hx, h⟩
          · exact .inl ⟨r', hstep.trans h⟩
          · exact .inr ⟨y :: before, x, after, r', rfl, .cons hs hrun, hx, hstep.trans h⟩

/-- What can be read to its end can be read up to any token of it. -/
theorem exists_readAll_of_append {r r' : Reading} {xs ys : List Lexeme}
    (h : r.readAll (xs ++ ys) = .ok r') : ∃ r₁, r.readAll xs = .ok r₁ := by
  induction xs generalizing r with
  | nil => exact ⟨r, rfl⟩
  | cons x xs ih =>
      obtain ⟨next, hs, hn⟩ := Reading.Runs.exists_step h
      obtain ⟨r₁, h₁⟩ := ih hn
      exact ⟨r₁, Reading.Runs.cons hs h₁⟩

/-- The tokens of a program can be read, wherever they stand, and the program may end there. -/
theorem exists_finish_of_derivable {xs : List Lexeme} (h : Derivable (xs.map Lexeme.token)) :
    ∃ r statements, Reading.start.readAll xs = .ok r ∧ r.finish? = some statements := by
  obtain ⟨-, d, hd⟩ := h
  cases d with
  | program body =>
      obtain ⟨body', rfl⟩ := body.exists_relocated hd.symm
      obtain ⟨r, statements, hr, hf, -⟩ := body'.exists_readAll
      exact ⟨r, statements, hr, hf⟩

/-- A program may end behind well-spelled tokens exactly if the grammar derives them. -/
theorem exists_finish_iff {xs : List Lexeme} (hw : ∀ x ∈ xs, x.token.WellSpelled) :
    (∃ r statements, Reading.start.readAll xs = .ok r ∧ r.finish? = some statements) ↔
      Derivable (xs.map Lexeme.token) := by
  constructor
  · rintro ⟨r, statements, hr, hf⟩
    obtain ⟨d, hx, -⟩ := (Reading.spells_start.readAll hr).exists_of_finish hf
    refine ⟨by simpa using hw, .program d, ?_⟩
    show d.lexemes.map Lexeme.token = _
    rw [hx]
    rfl
  · exact exists_finish_of_derivable

/-- Well-spelled tokens can be read to their end exactly if a program can begin with them. -/
theorem exists_readAll_iff {xs : List Lexeme} (hw : ∀ x ∈ xs, x.token.WellSpelled) :
    (∃ r, Reading.start.readAll xs = .ok r) ↔ Viable (xs.map Lexeme.token) := by
  constructor
  · rintro ⟨r, hr⟩
    obtain ⟨ys, r', statements, hys, hrun, hf⟩ := r.completable
    have hw' : ∀ x ∈ xs ++ ys, x.token.WellSpelled := by
      intro x hx
      rcases List.mem_append.mp hx with hx | hx
      · exact hw x hx
      · exact hys x hx
    have hderivable := (exists_finish_iff hw').mp ⟨r', statements, Reading.Runs.append hr hrun, hf⟩
    rw [List.map_append] at hderivable
    exact ⟨_, hderivable⟩
  · rintro ⟨rest, hrest⟩
    have happend : xs.map Lexeme.token ++ rest =
        (xs ++ rest.map fun t => (⟨t, .start⟩ : Lexeme)).map Lexeme.token := by
      simp [Function.comp_def]
    rw [happend] at hrest
    obtain ⟨r, -, hr, -⟩ := exists_finish_of_derivable hrest
    exact exists_readAll_of_append hr

/-! ### The outcome for a text -/

section

variable (source : String)

/-- The first token that cannot be read is the error. -/
theorem program_of_readAll_error {x : Lexeme}
    (h : Reading.start.readAll (scan source.toList).lexemes = .error x) :
    program source = .error (.syntaxError (.unexpectedToken x.token x.position)) := by
  simp [program, Scan.statements, Scan.reading, h, Except.bind]

/-- If all tokens can be read, a bad character is the error. -/
theorem program_of_bad {r : Reading} {bad : BadCharacter}
    (h : Reading.start.readAll (scan source.toList).lexemes = .ok r)
    (hb : (scan source.toList).bad = some bad) :
    program source = .error (.syntaxError (.unexpectedCharacter bad.char bad.position)) := by
  simp [program, Scan.statements, Scan.reading, h, hb, Except.bind]

/-- If there is none and no program may end, the end is the error. -/
theorem program_of_finish?_eq_none {r : Reading}
    (h : Reading.start.readAll (scan source.toList).lexemes = .ok r)
    (hb : (scan source.toList).bad = none) (hf : r.finish? = none) :
    program source = .error (.syntaxError .unexpectedEnd) := by
  simp [program, Scan.statements, Scan.reading, h, hb, hf, Except.bind]

/-- Otherwise the first integer literal with too many digits is. -/
theorem program_of_oversize? {r : Reading} {statements : List Node} {digits : Nat}
    (h : Reading.start.readAll (scan source.toList).lexemes = .ok r)
    (hb : (scan source.toList).bad = none) (hf : r.finish? = some statements)
    (hd : (scan source.toList).lexemes.findSome? (fun x => x.token.oversize?) = some digits) :
    program source = .error (.oversizedInteger digits) := by
  simp [program, Scan.statements, Scan.reading, h, hb, hf, hd, Except.bind]

/-- A text with none of these errors is a program. -/
theorem program_of_finish? {r : Reading} {statements : List Node}
    (h : Reading.start.readAll (scan source.toList).lexemes = .ok r)
    (hb : (scan source.toList).bad = none) (hf : r.finish? = some statements)
    (hd : (scan source.toList).lexemes.findSome? (fun x => x.token.oversize?) = none) :
    program source = .ok (.block statements (scan source.toList).line) := by
  simp [program, Scan.statements, Scan.reading, h, hb, hf, hd, Except.bind]

/-- What can come of a text: a token or a character is in the way, or the text ends too early,
or an integer literal has too many digits, or it is a program. -/
inductive Outcome (source : String) : Prop
  | token (before after : List Lexeme) (x : Lexeme)
      (split : (scan source.toList).lexemes = before ++ x :: after)
      (viable : Viable (before.map Lexeme.token))
      (not_viable : ¬Viable (before.map Lexeme.token ++ [x.token]))
      (outcome : program source =
        .error (.syntaxError (.unexpectedToken x.token x.position)))
  | character (bad : BadCharacter) (is_bad : (scan source.toList).bad = some bad)
      (viable : Viable (scan source.toList).tokens)
      (outcome : program source =
        .error (.syntaxError (.unexpectedCharacter bad.char bad.position)))
  | early (not_bad : (scan source.toList).bad = none) (viable : Viable (scan source.toList).tokens)
      (not_derivable : ¬Derivable (scan source.toList).tokens)
      (outcome : program source = .error (.syntaxError .unexpectedEnd))
  | oversized (not_bad : (scan source.toList).bad = none)
      (derivable : Derivable (scan source.toList).tokens) (x : Lexeme) (digits : Nat)
      (mem : x ∈ (scan source.toList).lexemes) (digits_eq : x.token.oversize? = some digits)
      (outcome : program source = .error (.oversizedInteger digits))
  | accepted (not_bad : (scan source.toList).bad = none) (d : Derivation .program)
      (spelled : d.lexemes = (scan source.toList).lexemes)
      (small : ∀ x ∈ (scan source.toList).lexemes, x.token.oversize? = none)
      (outcome : program source = .ok d.lower)

end

/-- What a program can begin with, it can begin with the beginning of. -/
theorem Viable.of_append {ts : List Token} (us : List Token) (h : Viable (ts ++ us)) :
    Viable ts := by
  obtain ⟨rest, h⟩ := h
  rw [List.append_assoc] at h
  exact ⟨us ++ rest, h⟩

theorem Derivable.viable {ts : List Token} (h : Derivable ts) : Viable ts :=
  ⟨[], by rwa [List.append_nil]⟩

theorem viable_of_append_cons {before after : List Lexeme} {x : Lexeme}
    (h : Viable ((before ++ x :: after).map Lexeme.token)) :
    Viable (before.map Lexeme.token ++ [x.token]) := by
  refine Viable.of_append (after.map Lexeme.token) ?_
  simpa using h

/-- A text whose tokens cannot all stand does not have tokens that begin a program. -/
theorem not_viable_of_split {s : Scan} {before after : List Lexeme} {x : Lexeme}
    (h : s.lexemes = before ++ x :: after)
    (hx : ¬Viable (before.map Lexeme.token ++ [x.token])) : ¬Viable s.tokens := by
  intro hv
  rw [Scan.tokens, h] at hv
  exact hx (viable_of_append_cons hv)

/-- A program is what one of its trees means. -/
theorem exists_lower_eq {s : Scan} {r : Reading} {statements : List Node}
    (h : Reading.start.readAll s.lexemes = .ok r) (hf : r.finish? = some statements) :
    ∃ d : Derivation .program, d.lexemes = s.lexemes ∧ d.lower = .block statements s.line := by
  obtain ⟨d, hx, rfl⟩ := (Reading.spells_start.readAll h).exists_of_finish hf
  have hspelled : d.lexemes = s.lexemes := hx
  refine ⟨.program d, hspelled, ?_⟩
  show Node.block d.lower (if d.lexemes.isEmpty then 1 else d.line) = .block d.lower s.line
  rw [Scan.line, ← hspelled]
  rcases hd : d.lexemes with _ | ⟨x, rest⟩
  · rfl
  · simp [Derivation.line, hd]

/-- Every text has one of the outcomes. -/
theorem outcome (source : String) : Outcome source := by
  have hw : ∀ x ∈ (scan source.toList).lexemes, x.token.WellSpelled :=
    fun x => wellSpelled_of_mem_scan
  rcases readAll_cases .start (scan source.toList).lexemes with
    ⟨r, hr⟩ | ⟨before, x, after, r, hx, hrun, hs, hr⟩
  · have hviable := (exists_readAll_iff hw).mp ⟨r, hr⟩
    cases hb : (scan source.toList).bad with
    | some bad => exact .character bad hb hviable (program_of_bad source hr hb)
    | none =>
        cases hf : r.finish? with
        | none =>
            refine .early hb hviable (fun h => ?_) (program_of_finish?_eq_none source hr hb hf)
            obtain ⟨r', statements, hr', hf'⟩ := exists_finish_of_derivable h
            obtain rfl := Reading.Runs.unique hr hr'
            simp [hf] at hf'
        | some statements =>
            cases hd : (scan source.toList).lexemes.findSome? (fun x => x.token.oversize?) with
            | none =>
                obtain ⟨d, hspelled, hlower⟩ := exists_lower_eq hr hf
                refine .accepted hb d hspelled (List.findSome?_eq_none_iff.mp hd) ?_
                rw [hlower]
                exact program_of_finish? source hr hb hf hd
            | some digits =>
                obtain ⟨x, hx, hdigits⟩ := List.exists_of_findSome?_eq_some hd
                exact .oversized hb ((exists_finish_iff hw).mp ⟨r, statements, hr, hf⟩) x digits hx
                  hdigits (program_of_oversize? source hr hb hf hd)
  · have hw' : ∀ y ∈ before ++ [x], y.token.WellSpelled := fun y hy => hw y (by
      rw [hx]
      rcases List.mem_append.mp hy with hy | hy
      · exact List.mem_append_left _ hy
      · exact List.mem_append_right _ (by simpa using .inl (List.mem_singleton.mp hy)))
    refine .token before after x hx ?_ (fun h => ?_) (program_of_readAll_error source hr)
    · exact (exists_readAll_iff fun y hy => hw' y (List.mem_append_left _ hy)).mp ⟨r, hrun⟩
    · have hconcat : before.map Lexeme.token ++ [x.token] = (before ++ [x]).map Lexeme.token := by
        simp
      rw [hconcat] at h
      obtain ⟨r', hr'⟩ := (exists_readAll_iff hw').mpr h
      obtain ⟨next, hnext, -⟩ := (Reading.Runs.behind hr' hrun).exists_step
      simp [hs] at hnext

/-! ### Programs -/

/-- A tree of the tokens of a text derives them. -/
theorem derivable_of_spelled {source : String} {d : Derivation .program}
    (h : d.lexemes = (scan source.toList).lexemes) : Derivable (scan source.toList).tokens := by
  refine ⟨fun t ht => ?_, d, congrArg (List.map Lexeme.token) h⟩
  obtain ⟨x, hx, rfl⟩ := List.mem_map.mp ht
  exact wellSpelled_of_mem_scan hx

/-- A program has a derivation tree, and means what it means. -/
theorem exists_derivation {source : String} {n : Node} (h : program source = .ok n) :
    (scan source.toList).bad = none ∧
      (∀ x ∈ (scan source.toList).lexemes, x.token.oversize? = none) ∧
      ∃ d : Derivation .program, d.lexemes = (scan source.toList).lexemes ∧ d.lower = n := by
  cases outcome source with
  | accepted hb d hspelled hs ho =>
      rw [ho] at h
      obtain rfl := Except.ok.inj h
      exact ⟨hb, hs, d, hspelled, rfl⟩
  | token _ _ _ _ _ _ ho | character _ _ _ ho | early _ _ _ ho | oversized _ _ _ _ _ _ ho =>
      rw [ho] at h
      cases h

/-- A text whose tokens the grammar derives is a program. -/
theorem exists_program {source : String} (hb : (scan source.toList).bad = none)
    (hs : ∀ x ∈ (scan source.toList).lexemes, x.token.oversize? = none)
    (hd : Derivable (scan source.toList).tokens) : ∃ n, program source = .ok n := by
  cases outcome source with
  | accepted _ d _ _ ho => exact ⟨d.lower, ho⟩
  | token before after x hsplit _ hx _ =>
      exact absurd hd.viable (not_viable_of_split hsplit hx)
  | character bad hbad _ _ =>
      rw [hb] at hbad
      cases hbad
  | early _ _ hnot _ => exact absurd hd hnot
  | oversized _ _ x digits hx hdigits _ =>
      rw [hs x hx] at hdigits
      cases hdigits

/-- **A text is a program exactly if the grammar derives its tokens**, and every character of it
is part of one or skipped, and no integer literal is too long to be read. What the program is, is
what a derivation tree of its tokens means. -/
theorem program_iff_derivable (source : String) :
    ((∃ n, program source = .ok n) ↔
      (scan source.toList).bad = none ∧
      (∀ x ∈ (scan source.toList).lexemes, x.token.oversize? = none) ∧
      Derivable (scan source.toList).tokens) ∧
    ∀ n, program source = .ok n → ∃ d : Derivation .program,
      d.lexemes = (scan source.toList).lexemes ∧ d.lower = n := by
  refine ⟨⟨?_, ?_⟩, ?_⟩
  · rintro ⟨n, hn⟩
    obtain ⟨hb, hs, d, hspelled, -⟩ := exists_derivation hn
    exact ⟨hb, hs, derivable_of_spelled hspelled⟩
  · rintro ⟨hb, hs, hd⟩
    exact exists_program hb hs hd
  · intro n hn
    obtain ⟨-, -, hd⟩ := exists_derivation hn
    exact hd

/-! ### Errors -/

/-- Whether an error is the right one for a text. A token is the error if the tokens before it
can begin a program and no program goes on with it; a character, if no terminal matches there and
all tokens before it can begin a program; the end, which has no position, if the tokens can begin
a program but are none. Tokens and characters stand where the error says. -/
def SyntaxError.Fits (source : List Char) : SyntaxError → Prop
  | unexpectedToken t p =>
    (∃ before after, (scan source).lexemes = before ++ ⟨t, p⟩ :: after ∧
      Viable (before.map Lexeme.token) ∧ ¬Viable (before.map Lexeme.token ++ [t])) ∧
    ∃ before after, source = before ++ t.text.toList ++ after ∧ p = Position.start.after before
  | unexpectedCharacter c p =>
    ((scan source).bad = some ⟨c, p⟩ ∧ Viable (scan source).tokens) ∧
    ∃ before after, source = before ++ c :: after ∧ p = Position.start.after before ∧
      ∀ piece : Piece, piece.Matched → ¬piece.text <+: c :: after
  | unexpectedEnd =>
    ((scan source).bad = none ∧ Viable (scan source).tokens ∧
      ¬Derivable (scan source).tokens) ∧ unexpectedEnd.position? = none

/-- Tokens go wrong in one place only: two places where no program goes on, behind tokens that
begin one, are the same. -/
theorem eq_of_not_viable {before before' after after' : List Lexeme} {x x' : Lexeme}
    (h : before ++ x :: after = before' ++ x' :: after')
    (hb : Viable (before.map Lexeme.token))
    (hx : ¬Viable (before.map Lexeme.token ++ [x.token]))
    (hb' : Viable (before'.map Lexeme.token))
    (hx' : ¬Viable (before'.map Lexeme.token ++ [x'.token])) : x = x' := by
  rcases List.append_eq_append_iff.mp h with ⟨m, rfl, hm⟩ | ⟨m, rfl, hm⟩
  · cases m with
    | nil => exact (List.cons.inj hm).1
    | cons y m =>
        obtain ⟨rfl, -⟩ := List.cons.inj hm
        exact absurd (viable_of_append_cons hb') hx
  · cases m with
    | nil => exact (List.cons.inj hm).1.symm
    | cons y m =>
        obtain ⟨rfl, -⟩ := List.cons.inj hm
        exact absurd (viable_of_append_cons hb) hx'

/-- No two errors fit one text. -/
theorem SyntaxError.Fits.unique {source : List Char} {e e' : SyntaxError} (h : e.Fits source)
    (h' : e'.Fits source) : e = e' := by
  -- the other two errors are behind tokens that begin a program
  have wrong {t : Token} {p : Position} (h : (unexpectedToken t p).Fits source) :
      ¬Viable (scan source).tokens := by
    obtain ⟨⟨before, after, hsplit, -, hx⟩, -⟩ := h
    exact not_viable_of_split hsplit hx
  cases e with
  | unexpectedToken t p =>
      cases e' with
      | unexpectedToken t' p' =>
          obtain ⟨⟨before, after, hsplit, hb, hx⟩, -⟩ := h
          obtain ⟨⟨before', after', hsplit', hb', hx'⟩, -⟩ := h'
          have heq := eq_of_not_viable (hsplit.symm.trans hsplit') hb hx hb' hx'
          obtain ⟨rfl, rfl⟩ := Lexeme.mk.inj heq
          rfl
      | unexpectedCharacter c p' => exact absurd h'.1.2 (wrong h)
      | unexpectedEnd => exact absurd h'.1.2.1 (wrong h)
  | unexpectedCharacter c p =>
      have hbad := h.1.1
      cases e' with
      | unexpectedToken t' p' => exact absurd h.1.2 (wrong h')
      | unexpectedCharacter c' p' =>
          have hbad' := h'.1.1
          rw [hbad] at hbad'
          obtain ⟨rfl, rfl⟩ := BadCharacter.mk.inj (Option.some.inj hbad')
          rfl
      | unexpectedEnd =>
          rw [h'.1.1] at hbad
          cases hbad
  | unexpectedEnd =>
      cases e' with
      | unexpectedToken t' p' => exact absurd h.1.2.1 (wrong h')
      | unexpectedCharacter c' p' =>
          have hbad' := h'.1.1
          rw [h.1.1] at hbad'
          cases hbad'
      | unexpectedEnd => rfl

/-- No error fits a text that the grammar derives. -/
theorem SyntaxError.Fits.not_derivable {source : List Char} {e : SyntaxError}
    (h : e.Fits source) : (scan source).bad ≠ none ∨ ¬Derivable (scan source).tokens := by
  cases e with
  | unexpectedToken t p =>
      obtain ⟨⟨before, after, hsplit, -, hx⟩, -⟩ := h
      exact .inr fun hd => not_viable_of_split hsplit hx hd.viable
  | unexpectedCharacter c p =>
      refine .inl fun hb => ?_
      rw [h.1.1] at hb
      cases hb
  | unexpectedEnd => exact .inr h.1.2.2

/-- The error that a text gets fits it. -/
theorem fits_of_program {source : String} {e : SyntaxError}
    (h : program source = .error (.syntaxError e)) : e.Fits source.toList := by
  cases outcome source with
  | token before after x hsplit hb hx ho =>
      rw [ho] at h
      obtain rfl := SourceError.syntaxError.inj (Except.error.inj h)
      have hmem : x ∈ (scan source.toList).lexemes := by simp [hsplit]
      exact ⟨⟨before, after, hsplit, hb, hx⟩, place_of_mem_scan hmem⟩
  | character bad hbad hv ho =>
      rw [ho] at h
      obtain rfl := SourceError.syntaxError.inj (Except.error.inj h)
      exact ⟨⟨hbad, hv⟩, place_of_bad hbad⟩
  | early hb hv hd ho =>
      rw [ho] at h
      obtain rfl := SourceError.syntaxError.inj (Except.error.inj h)
      exact ⟨⟨hb, hv, hd⟩, rfl⟩
  | oversized _ _ _ _ _ _ ho | accepted _ _ _ _ ho =>
      rw [ho] at h
      cases h

/-- A text with a bad character, or with tokens that the grammar does not derive, gets an
error. -/
theorem exists_syntaxError {source : String}
    (h : (scan source.toList).bad ≠ none ∨ ¬Derivable (scan source.toList).tokens) :
    ∃ e, program source = .error (.syntaxError e) := by
  cases outcome source with
  | token _ _ _ _ _ _ ho | character _ _ _ ho | early _ _ _ ho => exact ⟨_, ho⟩
  | oversized hb hd _ _ _ _ _ => exact absurd hd (h.resolve_left fun hne => hne hb)
  | accepted hb d hspelled _ _ =>
      exact absurd (derivable_of_spelled hspelled) (h.resolve_left fun hne => hne hb)

/-- **A text that is no program gets the error that fits it**: the first token that no program
has there, or the bad character behind tokens that begin a program, or the end. A text gets an
error exactly if it has a bad character or its tokens are not derivable. -/
theorem syntaxError_iff_fits (source : String) :
    (∀ e, program source = .error (.syntaxError e) ↔ e.Fits source.toList) ∧
    ((∃ e, program source = .error (.syntaxError e)) ↔
      (scan source.toList).bad ≠ none ∨ ¬Derivable (scan source.toList).tokens) := by
  refine ⟨fun e => ⟨fits_of_program, fun he => ?_⟩, ?_, exists_syntaxError⟩
  · obtain ⟨e', he'⟩ := exists_syntaxError he.not_derivable
    rw [he', he.unique (fits_of_program he')]
  · rintro ⟨e, he⟩
    exact (fits_of_program he).not_derivable

/-! ### Two trees of the same tokens -/

/-- **The grammar has one meaning for tokens without a tie.** Two trees of the same tokens mean
the same program, with all its lines, unless in one of them a statement begins with a named
function that a parenthesis or a minus sign follows directly. A named function that ends its list,
and one that a semicolon follows, may be read as a statement or as an expression, and mean the
same both ways. -/
theorem lower_eq_of_lexemes_eq :
    (∀ t u : Derivation .program, t.lexemes = u.lexemes →
      t.Tied ∨ u.Tied ∨ t.lower = u.lower) ∧
    ∀ (f : Derivation .named) (q : Position) (rest : Derivation .statements),
      (Derivation.last (.value f.asExpression)).lexemes =
        (Derivation.cons (.defined f) .done).lexemes ∧
      (Derivation.last (.value f.asExpression)).lower =
        (Derivation.cons (.defined f) .done).lower ∧
      (Derivation.cons (.ended (.value f.asExpression) q) rest).lexemes =
        (Derivation.cons (.defined f) (.cons (.skip q) rest)).lexemes ∧
      (Derivation.cons (.ended (.value f.asExpression) q) rest).lower =
        (Derivation.cons (.defined f) (.cons (.skip q) rest)).lower := by
  refine ⟨fun t u h => ?_, fun f q rest => ?_⟩
  · by_cases ht : t.Tied
    · exact .inl ht
    by_cases hu : u.Tied
    · exact .inr (.inl hu)
    cases t with
    | program b =>
        cases u with
        | program b' =>
            obtain ⟨r, ss, hr, hf, hexact⟩ := b.exists_readAll
            obtain ⟨r', ss', hr', hf', hexact'⟩ := b'.exists_readAll
            have hx : b.lexemes = b'.lexemes := h
            rw [hx] at hr
            obtain rfl := Reading.Runs.unique hr hr'
            obtain rfl := Option.some.inj (hf.symm.trans hf')
            have hlower : b.lower = b'.lower := (hexact ht).symm.trans (hexact' hu)
            right; right
            simp only [Derivation.lower, Derivation.line, hx, hlower]
  · have hl : f.asExpression.lower = f.lower := rfl
    simp [Derivation.lexemes, Derivation.lower, hl]

/-- The function `function f() {}`. -/
def emptyFunction : Derivation .named :=
  .named ⟨1, 1⟩ "f" ⟨1, 10⟩ ⟨1, 11⟩ .noParameters ⟨1, 12⟩ (.block ⟨1, 14⟩ .done ⟨1, 15⟩)

/-- Its tokens are too few for a function and another token. -/
theorem not_ties_emptyFunction : ¬Ties emptyFunction.lexemes := by
  rintro ⟨f, x, rest, h, -⟩
  cases f with
  | named w n p o ps q body =>
      cases body with
      | block b statements c =>
          have hlength := congrArg List.length h
          simp [emptyFunction, Derivation.lexemes] at hlength
          omega

/-- A program that is this function has two trees. -/
theorem lower_eq_emptyFunction : ∃ t u : Derivation .program,
    t ≠ u ∧ t.lexemes = u.lexemes ∧ ¬t.Tied ∧ ¬u.Tied ∧ t.lower = u.lower := by
  let t : Derivation .program := .program (.last (.value emptyFunction.asExpression))
  let u : Derivation .program := .program (.cons (.defined emptyFunction) .done)
  have hlexemes : t.lexemes = u.lexemes := rfl
  have ht : ¬t.Tied := by
    rintro (h | h)
    · exact not_ties_emptyFunction h
    · exact h
  have hu : ¬u.Tied := by
    rintro (h | h | h)
    · exact not_ties_emptyFunction h
    · exact h
    · exact h
  refine ⟨t, u, fun h => ?_, hlexemes, ht, hu, ?_⟩
  · cases Derivation.program.inj h
  · exact ((lower_eq_of_lexemes_eq.1 t u hlexemes).resolve_left ht).resolve_left hu

end Scriptlet.Source
