import Scriptlet.Proofs.Running

/-!
# Every Reading Can Be Completed

No reading is a dead end: from any one of them some tokens lead to the end of a program. So
tokens that have been read are always what a program can begin with, and the first token that
cannot be read is the first that no program has in its place.

A reading is completed from the inside out. Each construct around it is closed by a token or two
(`Place.completable`, `Gap.completable` and so on, by recursion on the constructs), which leaves
the next construct outwards, and a statement in the program itself may be its last.

## Main results

* `Reading.completable`: some tokens complete any reading.
-/

namespace Scriptlet.Source

open Scriptlet.Text (Position)

/-! ### Tokens to complete with -/

/-- A reading from which tokens, all as their terminals demand them, lead to where a program may
end. -/
def Reading.Completable (r : Reading) : Prop :=
  ∃ (ys : List Lexeme) (r' : Reading) (statements : List Node),
    (∀ y ∈ ys, y.token.WellSpelled) ∧ r.Runs ys r' ∧ r'.finish? = some statements

/-- A token completes a reading if it leads to one that can be completed. -/
theorem Reading.Completable.step {r next : Reading} {t : Token} (h : next.Completable)
    (ht : t.WellSpelled) (hs : r.step? ⟨t, .start⟩ = some next) : r.Completable := by
  obtain ⟨ys, r', statements, hys, hrun, hf⟩ := h
  refine ⟨⟨t, .start⟩ :: ys, r', statements, ?_, .cons hs hrun, hf⟩
  simpa using ⟨ht, hys⟩

/-- The name that completes where there must be one. -/
theorem wellSpelled_name : (Token.name "x").WellSpelled := by
  refine ⟨⟨'x', [], by decide, by decide, by simp⟩, fun k => ?_⟩
  cases k <;> decide

/-! ### Constructs around a reading -/

mutual

/-- A list of statements can be ended, and then what it belongs to. -/
theorem Owner.completable : (owner : Owner) → (statements : List Node) →
    (Reading.statement (.mk owner statements)).Completable
  | .program, statements => ⟨[], _, statements.reverse, by simp, .nil _, rfl⟩
  | .consequence line test site brace, statements =>
      have hsite := site.completable (.branch test (.block statements.reverse brace)
        (.block [] line) line)
      have hconsequence : (Reading.consequence line test (.block statements.reverse brace)
          site).Completable :=
        hsite.step (t := .punctuation .semicolon) trivial rfl
      hconsequence.step (t := .punctuation .closeBrace) trivial rfl
  | .alternative line test consequence site brace, statements =>
      have hsite := site.completable (.branch test consequence (.block statements.reverse brace)
        line)
      hsite.step (t := .punctuation .closeBrace) trivial rfl
  | .function line name read host brace, statements =>
      have hhost := host.completable (.function name read (.block statements.reverse brace) line)
        line
      hhost.step (t := .punctuation .closeBrace) trivial rfl

/-- So can a choice that is complete. -/
theorem Site.completable : (site : Site) → (n : Node) →
    (Reading.statement (site.fill n)).Completable
  | .statement (.mk owner statements), n => owner.completable (n :: statements)
  | .alternative line test consequence outer, n =>
      outer.completable (.branch test consequence (.block [n] n.line) line)

/-- And a function that is complete. -/
theorem Host.completable : (host : Host) → (n : Node) → (line : Int) →
    (host.fill n line).Completable
  | .statement (.mk owner statements), n, _ =>
      (owner.completable (n :: statements)).step (t := .punctuation .semicolon) trivial rfl
  | .operand gap, n, line => gap.completable (.node n) line

/-- And an expression that has an operand. -/
theorem Gap.completable : (gap : Gap) → (hd : Head) → (line : Int) →
    (gap.fill hd line).Completable
  | .mk place phrase minuses, hd, line => place.completable phrase ⟨minuses, hd, line, []⟩

/-- And what an expression stands in. -/
theorem Place.completable : (place : Place) → (phrase : Phrase) → (o : Operand) →
    (Reading.suffix place phrase o).Completable
  | .statement _ (.mk owner statements), phrase, o =>
      (owner.completable (phrase.node o :: statements)).step (t := .punctuation .semicolon)
        trivial rfl
  | .declaration line name (.mk owner statements), phrase, o =>
      (owner.completable (.assign name (phrase.node o) true line :: statements)).step
        (t := .punctuation .semicolon) trivial rfl
  | .result line (.mk owner statements), phrase, o =>
      (owner.completable (.giveBack (phrase.node o) line :: statements)).step
        (t := .punctuation .semicolon) trivial rfl
  | .condition line site, phrase, o =>
      -- an empty first branch, and a semicolon behind it
      have hsite := site.completable (.branch (phrase.node o) (.block [] Position.start.line)
        (.block [] line) line)
      have hconsequence : (Reading.consequence line (phrase.node o)
          (.block [] Position.start.line) site).Completable :=
        hsite.step (t := .punctuation .semicolon) trivial rfl
      have hbody : (Reading.statement (.mk (.consequence line (phrase.node o) site
          Position.start.line) [])).Completable :=
        hconsequence.step (t := .punctuation .closeBrace) trivial rfl
      have hcondition : (Reading.condition line (phrase.node o) site).Completable :=
        hbody.step (t := .punctuation .openBrace) trivial rfl
      hcondition.step (t := .punctuation .closeParen) trivial rfl
  | .parentheses line gap, phrase, o =>
      (gap.completable (.node (phrase.node o)) line).step (t := .punctuation .closeParen)
        trivial rfl
  | .argument place outer callee line given, phrase, o =>
      (place.completable outer (callee.suffixed (.call (phrase.node o :: given).reverse
        line))).step (t := .punctuation .closeParen) trivial rfl
  | .member line entries key gap, phrase, o =>
      (gap.completable (.node (.record (Entries.put entries key (phrase.node o)) line))
        line).step (t := .punctuation .closeBrace) trivial rfl

end

/-- Every list of statements can be ended. -/
theorem Body.completable (body : Body) : (Reading.statement body).Completable := by
  obtain ⟨owner, statements⟩ := body
  exact owner.completable statements

/-! ### Readings -/

/-- Where a statement may end, a semicolon completes it. -/
theorem completable_of_finishStatement? {r : Reading} {body : Body}
    (h : r.finishStatement? true = some body) : r.Completable := by
  refine body.completable.step (t := .punctuation .semicolon) trivial ?_
  show (r.finishStatement? true).map Reading.statement = _
  rw [h]
  rfl

/-- Where an operand must begin, a name completes it. -/
theorem completable_operand (gap : Gap) : (Reading.operand gap).Completable :=
  (gap.completable (.name "x") _).step wellSpelled_name rfl

/-- Where the statements of a function must begin, a brace does. -/
theorem completable_header (line : Int) (name : Option String) (read : List String)
    (host : Host) : (Reading.header line name read host).Completable :=
  (Owner.completable (.function line name read host _) []).step
    (t := .punctuation .openBrace) trivial rfl

/-- Some tokens complete any reading. -/
theorem Reading.completable (r : Reading) : r.Completable := by
  cases r with
  | statement body => exact body.completable
  | operand gap => exact completable_operand gap
  | suffix place phrase o => exact place.completable phrase o
  | field place phrase o =>
      exact (place.completable phrase (o.suffixed (.field "x"))).step wellSpelled_name rfl
  | arguments place phrase o line =>
      exact (place.completable phrase (o.suffixed (.call [] line))).step
        (t := .punctuation .closeParen) trivial rfl
  | key line entries gap =>
      exact (gap.completable (.node (.record entries line)) line).step
        (t := .punctuation .closeBrace) trivial rfl
  | colon line entries key gap =>
      exact (completable_operand (Place.member line entries key gap).gap).step
        (t := .punctuation .colon) trivial rfl
  | declaration line body =>
      have h : (declared line "x" body).Completable := completable_of_finishStatement? rfl
      exact h.step wellSpelled_name rfl
  | declared line name body => exact completable_of_finishStatement? rfl
  | result line body => exact completable_of_finishStatement? rfl
  | choice line site =>
      exact (completable_operand (Place.condition line site).gap).step
        (t := .punctuation .openParen) trivial rfl
  | condition line test site =>
      exact (Owner.completable (.consequence line test site _) []).step
        (t := .punctuation .openBrace) trivial rfl
  | consequence line test block site => exact completable_of_finishStatement? rfl
  | alternative line test block site =>
      exact (Owner.completable (.alternative line test block site _) []).step
        (t := .punctuation .openBrace) trivial rfl
  | function line host =>
      have h : (named line "x" host).Completable :=
        have hparameters : (parameters line (some "x") host).Completable :=
          (completable_header line (some "x") [] host).step (t := .punctuation .closeParen)
            trivial rfl
        hparameters.step (t := .punctuation .openParen) trivial rfl
      exact h.step wellSpelled_name rfl
  | named line name host =>
      have h : (parameters line (some name) host).Completable :=
        (completable_header line (some name) [] host).step (t := .punctuation .closeParen)
          trivial rfl
      exact h.step (t := .punctuation .openParen) trivial rfl
  | parameters line name host =>
      exact (completable_header line name [] host).step (t := .punctuation .closeParen)
        trivial rfl
  | parameter line name read host =>
      exact (completable_header line name read.reverse host).step
        (t := .punctuation .closeParen) trivial rfl
  | nextParameter line name read host =>
      have h : (parameter line name ("x" :: read) host).Completable :=
        (completable_header line name ("x" :: read).reverse host).step
          (t := .punctuation .closeParen) trivial rfl
      exact h.step wellSpelled_name rfl
  | header line name read host => exact completable_header line name read host
  | afterFunction made line body => exact completable_of_finishStatement? rfl

end Scriptlet.Source
