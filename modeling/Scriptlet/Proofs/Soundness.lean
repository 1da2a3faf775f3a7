import Scriptlet.Proofs.Spelling

/-!
# Every Step Spells One Token More

The reader is sound: a reading that may stand for some tokens steps, over one more token, to a
reading that may stand for all of them. The proof follows the step function. Whatever ends a
statement is handled once (`Reading.Spells.exists_of_finishStatement`), whether the statement ends
at a semicolon, at a closing brace, or with the program.

## Main results

* `Reading.Spells.step`: one step.
* `Reading.Spells.readAll`: all of them.
* `Reading.Spells.exists_of_finish`: where the program may end, the tokens have a derivation
  tree, and it means the statements that were read.
-/

namespace Scriptlet.Source

open Scriptlet.Text (Position)

variable {xs : List Lexeme}

/-! ### The end of a statement -/

/-- What an expression must begin with depends on how it begins only. -/
theorem Place.Leads.congr {place : Place} {e e' : Derivation .expression} (h : place.Leads e)
    (hl : e'.leading = e.leading) : place.Leads e' := by
  cases place with
  | statement leading outer =>
      cases leading with
      | none => trivial
      | some made =>
          obtain ⟨f, hf, hm⟩ := h
          exact ⟨f, hl.trans hf, hm⟩
  | _ => trivial

/-- An expression statement is its expression, or the function that it begins with and an
expression behind it. -/
theorem Body.Spells.exists_of_expression {outer : Body} {leading : Option Node}
    {e : Derivation .expression} (h : outer.Spells xs)
    (hl : (Place.statement leading outer).Leads e) (semicolon : Bool) :
    ∃ (body : Body) (ys : List Lexeme) (t : Derivation .ending), body.Spells ys ∧
      xs ++ e.lexemes = ys ++ t.lexemes ∧
      (expressionStatements semicolon leading e.phrase e.lastOperand).foldl Body.push outer =
        body.push t.lower := by
  have whole : ∃ (body : Body) (ys : List Lexeme) (t : Derivation .ending), body.Spells ys ∧
      xs ++ e.lexemes = ys ++ t.lexemes ∧
      [e.phrase.node e.lastOperand].foldl Body.push outer = body.push t.lower :=
    ⟨outer, xs, .value e, h, rfl, by simp [Derivation.node_phrase, Derivation.lower]⟩
  cases semicolon with
  | true => exact whole
  | false =>
      cases leading with
      | none => exact whole
      | some made =>
          cases hb : e.phrase.behindFunction? e.lastOperand with
          | none => simpa only [expressionStatements, hb] using whole
          | some rest =>
              obtain ⟨f, hf, rfl⟩ := hl
              obtain ⟨e', hx, rfl, -⟩ := Derivation.exists_behind e hf hb
              have hd := h.push (.defined f) rfl
              refine ⟨_, _, .value e', hd, by simp [hx, Derivation.lexemes], ?_⟩
              simp only [expressionStatements, hb, List.foldl_cons, List.foldl_nil]
              rfl

/-- A statement that can end here is complete, or it is an ending. -/
theorem Reading.Spells.exists_of_finishStatement {r : Reading} {semicolon : Bool} {body : Body}
    (h : r.Spells xs) (hf : r.finishStatement? semicolon = some body) :
    body.Spells xs ∨ ∃ (outer : Body) (ys : List Lexeme) (t : Derivation .ending),
      outer.Spells ys ∧ xs = ys ++ t.lexemes ∧ body = outer.push t.lower := by
  cases r with
  | statement outer =>
      obtain rfl := Option.some.inj hf
      exact .inl h
  | suffix place phrase last =>
      obtain ⟨ys, e, hp, rfl, rfl, rfl, hl⟩ := h
      right
      cases place with
      | statement leading outer =>
          obtain rfl := Option.some.inj hf
          obtain ⟨body, zs, t, hb, hx, hn⟩ := Body.Spells.exists_of_expression hp hl semicolon
          exact ⟨body, zs, t, hb, hx, hn⟩
      | declaration line name outer =>
          obtain rfl := Option.some.inj hf
          obtain ⟨zs, k, w, p, a, ho, hk, rfl, rfl⟩ := hp
          exact ⟨outer, zs, .declaration k hk w name p a e, ho, by simp [Derivation.lexemes],
            by simp [Derivation.node_phrase, Derivation.lower]⟩
      | result line outer =>
          obtain rfl := Option.some.inj hf
          obtain ⟨zs, w, ho, rfl, rfl⟩ := hp
          exact ⟨outer, zs, .giveBack w e, ho, by simp [Derivation.lexemes],
            by simp [Derivation.node_phrase, Derivation.lower]⟩
      | _ => cases hf
  | declared line name outer =>
      obtain rfl := Option.some.inj hf
      obtain ⟨zs, k, w, p, ho, hk, rfl, rfl⟩ := h
      exact .inr ⟨outer, zs, .bareDeclaration k hk w name p, ho, rfl, rfl⟩
  | result line outer =>
      obtain rfl := Option.some.inj hf
      obtain ⟨zs, w, ho, rfl, rfl⟩ := h
      exact .inr ⟨outer, zs, .bareReturn w, ho, rfl, rfl⟩
  | consequence line test block site =>
      obtain rfl := Option.some.inj hf
      obtain ⟨ys, zs, hs, hb, rfl⟩ := h
      exact .inl (hs.fillWithoutElse hb)
  | afterFunction made line outer =>
      obtain rfl := Option.some.inj hf
      obtain ⟨ys, f, ho, rfl, rfl, -⟩ := h
      exact .inl (ho.push (.defined f) rfl)
  | _ => cases hf

/-- A statement that a semicolon ends. -/
theorem Reading.Spells.semicolon {r : Reading} {body : Body} (h : r.Spells xs)
    (hf : r.finishStatement? true = some body) (q : Position) :
    body.Spells (xs ++ [⟨.punctuation .semicolon, q⟩]) := by
  rcases h.exists_of_finishStatement hf with hb | ⟨outer, ys, t, ho, rfl, rfl⟩
  · obtain ⟨owner, statements⟩ := body
    obtain ⟨ys, ds, ho, rfl, hs⟩ := hb
    exact ⟨ys, ds ++ [.skip q], ho, by simp [Derivation.lexemes], by simp [hs, Derivation.lower]⟩
  · have hd := ho.push (.ended t q) rfl
    rw [List.append_assoc]
    exact hd

/-- A statement that its list ends with. -/
theorem Reading.Spells.ends {r : Reading} {body : Body} (h : r.Spells xs)
    (hf : r.finishStatement? false = some body) : body.Ends xs := by
  rcases h.exists_of_finishStatement hf with hb | ⟨outer, ys, t, ho, rfl, rfl⟩
  · exact hb.ends
  · exact ho.pushLast t rfl

/-! ### The end of a list -/

/-- A closing brace behind a list of statements. -/
theorem Body.Ends.close {body : Body} {r : Reading} (h : body.Ends xs) (q : Position)
    (hc : body.close? = some r) : r.Spells (xs ++ [⟨.punctuation .closeBrace, q⟩]) := by
  obtain ⟨owner, statements⟩ := body
  obtain ⟨ys, d, ho, rfl, hs⟩ := h
  simp only [Body.close?, hs] at hc
  cases owner with
  | program => cases hc
  | consequence line test site brace =>
      obtain rfl := Option.some.inj hc
      obtain ⟨us, zs, b, hsite, ht, rfl, rfl⟩ := ho
      exact ⟨us, _, hsite, ⟨zs, .block b d q, ht, rfl, rfl⟩, by simp [Derivation.lexemes]⟩
  | alternative line test consequence site brace =>
      obtain rfl := Option.some.inj hc
      obtain ⟨us, zs, w, b, hsite, hb, rfl, rfl⟩ := ho
      obtain ⟨c, hx, hl⟩ := hb.exists_choice (.elseBlock w (.block b d q))
      have hd := hsite.fill c
      rw [hx, hl] at hd
      simp only [List.append_assoc]
      exact hd
  | function line name read host brace =>
      obtain rfl := Option.some.inj hc
      obtain ⟨us, zs, b, hhost, ha, hh, rfl, rfl⟩ := ho
      have hd := hhost.fill ha hh (.block b d q)
      simp only [List.append_assoc]
      exact hd

/-! ### Object literals -/

/-- One entry more is put last. -/
theorem ofList_append {α : Type} (ms : List (String × α)) (m : String × α) :
    Entries.ofList (ms ++ [m]) = (Entries.ofList ms).put m.1 m.2 := by
  simp [Entries.ofList]

/-- A key and the value under it are an entry. -/
theorem SpellsKey.exists_member {key : String} (h : SpellsKey key xs) (q : Position)
    (e : Derivation .expression) : ∃ m : Derivation .member,
      m.lexemes = xs ++ ⟨.punctuation .colon, q⟩ :: e.lexemes ∧ m.lower = (key, e.lower) := by
  rcases h with ⟨p, rfl⟩ | ⟨mark, body, p, rfl, rfl⟩
  · exact ⟨.underName key p q e, rfl, rfl⟩
  · exact ⟨.underString mark body p q e, rfl, rfl⟩

/-- Entries with one more. -/
theorem SpellsEntries.put {entries : List (String × Node)} (h : SpellsEntries entries xs)
    (m : Derivation .member) (q : Position) :
    SpellsEntries (Entries.put entries m.lower.1 m.lower.2)
      (xs ++ (m.lexemes ++ [⟨.punctuation .comma, q⟩])) := by
  obtain ⟨ms, rfl, rfl⟩ := h
  exact ⟨ms ++ [(m, q)], by simp, by rw [List.map_append]; exact (ofList_append _ _).symm⟩

/-- Entries with commas behind them, between braces. -/
theorem SpellsEntries.exists_record {entries : List (String × Node)}
    (h : SpellsEntries entries xs) (p q : Position) : ∃ k : Derivation .primary,
      k.lexemes = ⟨.punctuation .openBrace, p⟩ :: (xs ++ [⟨.punctuation .closeBrace, q⟩]) ∧
      k.lastOperand = ⟨[], .node (.record entries p.line), p.line, []⟩ := by
  obtain ⟨ms, rfl, rfl⟩ := h
  cases ms with
  | nil => exact ⟨.emptyRecord p q, rfl, rfl⟩
  | cons m ms =>
      obtain ⟨d, hx, hl⟩ := Derivation.exists_members_comma m ms
      refine ⟨.record p d q, by rw [Derivation.lexemes, hx], ?_⟩
      rw [Derivation.lastOperand, Derivation.lower, hl]

/-- Entries of which the last has no comma behind it, between braces. -/
theorem SpellsEntries.exists_record_put {entries : List (String × Node)}
    (h : SpellsEntries entries xs) (m : Derivation .member) (p q : Position) :
    ∃ k : Derivation .primary,
      k.lexemes = ⟨.punctuation .openBrace, p⟩ ::
        (xs ++ m.lexemes ++ [⟨.punctuation .closeBrace, q⟩]) ∧
      k.lastOperand = ⟨[], .node (.record (Entries.put entries m.lower.1 m.lower.2) p.line),
        p.line, []⟩ := by
  obtain ⟨ms, rfl, rfl⟩ := h
  obtain ⟨d, hx, hl⟩ := Derivation.exists_members ms m
  refine ⟨.record p d q, by rw [Derivation.lexemes, hx], ?_⟩
  rw [Derivation.lastOperand, Derivation.lower, hl, ofList_append]

/-! ### The beginning of operands and statements -/

/-- A token that begins an operand. -/
theorem Gap.Spells.begin {gap : Gap} {x : Lexeme} {r : Reading} (h : gap.Spells xs)
    (hb : Reading.beginOperand? gap x = some r) : r.Spells (xs ++ [x]) := by
  obtain ⟨t, p⟩ := x
  cases t with
  | keyword k =>
      cases k with
      | wordFunction =>
          obtain rfl := Option.some.inj hb
          exact ⟨xs, _, h, ⟨p, rfl, rfl⟩, rfl⟩
      | _ => cases hb
  | name text =>
      obtain rfl := Option.some.inj hb
      exact Gap.Spells.fill h (.name text p) rfl
  | integer digits =>
      obtain rfl := Option.some.inj hb
      exact Gap.Spells.fill h (.integer digits p) rfl
  | string mark body =>
      obtain rfl := Option.some.inj hb
      exact Gap.Spells.fill h (.string mark body p) rfl
  | operator op =>
      cases op with
      | minus =>
          obtain rfl := Option.some.inj hb
          exact h.negated p
      | _ => cases hb
  | punctuation mark =>
      cases mark with
      | openParen =>
          obtain rfl := Option.some.inj hb
          exact Place.Spells.gap (.parentheses p.line gap) ⟨xs, p, h, rfl, rfl⟩
            fun _ => trivial
      | openBrace =>
          obtain rfl := Option.some.inj hb
          exact ⟨xs, [], p, h, ⟨[], rfl, rfl⟩, rfl, rfl⟩
      | _ => cases hb

/-- A token that begins a statement. -/
theorem Body.Spells.begin {body : Body} {x : Lexeme} {r : Reading} (h : body.Spells xs)
    (hb : Reading.beginStatement? body x = some r) : r.Spells (xs ++ [x]) := by
  have expression (hb : Reading.beginOperand? (Place.statement none body).gap x = some r) :
      r.Spells (xs ++ [x]) :=
    Gap.Spells.begin (Place.Spells.gap (.statement none body) h fun _ => trivial) hb
  obtain ⟨t, p⟩ := x
  cases t with
  | keyword k =>
      cases k with
      | wordVar | wordLet | wordConst =>
          obtain rfl := Option.some.inj hb
          exact ⟨xs, _, p, h, rfl, rfl, rfl⟩
      | wordReturn =>
          obtain rfl := Option.some.inj hb
          exact ⟨xs, p, h, rfl, rfl⟩
      | wordIf =>
          obtain rfl := Option.some.inj hb
          exact ⟨xs, p, h, rfl, rfl⟩
      | wordFunction =>
          obtain rfl := Option.some.inj hb
          exact ⟨xs, _, h, ⟨p, rfl, rfl⟩, rfl⟩
      | wordElse => exact expression hb
  | _ => exact expression hb

/-! ### What follows an operand -/

/-- A suffix behind an operand. -/
theorem SpellsSuffix.suffixed {place : Place} {phrase : Phrase} {last : Operand} {s : Suffix}
    {ys : List Lexeme} (h : SpellsSuffix place phrase last xs) (hs : Derivation.Follows s ys) :
    SpellsSuffix place phrase (last.suffixed s) (xs ++ ys) := by
  obtain ⟨zs, e, hp, rfl, rfl, rfl, hl⟩ := h
  obtain ⟨e', hx, hph, ho, hle⟩ := Derivation.exists_suffixed_expression hs e
  exact ⟨zs, e', hp, by rw [hx, List.append_assoc], hph, ho, hl.congr hle⟩

/-- An operator behind an operand. -/
theorem SpellsSuffix.push {place : Place} {phrase : Phrase} {last : Operand}
    (h : SpellsSuffix place phrase last xs) (op : Operator) (p : Position) :
    (Gap.mk place (phrase.push ⟨last, op, p.line⟩) []).Spells
      (xs ++ [⟨.operator op, p⟩]) := by
  obtain ⟨zs, e, hp, rfl, rfl, rfl, hl⟩ := h
  refine ⟨zs, e.lexemes ++ [⟨.operator op, p⟩], hp, by simp, fun u => ?_⟩
  obtain ⟨e', hx, hph, ho, hle⟩ := Derivation.exists_push_expression op p u e
  exact ⟨e', by simp [hx], hph, by simp [ho], hl.congr hle⟩

/-- The equals sign behind an operand that can be assigned to. -/
theorem SpellsSuffix.assign {place : Place} {phrase phrase' : Phrase} {last : Operand}
    (h : SpellsSuffix place phrase last xs) (ha : phrase.assign? last = some phrase')
    (p : Position) :
    (Gap.mk place phrase' []).Spells (xs ++ [⟨.punctuation .assign, p⟩]) := by
  obtain ⟨zs, e, hp, rfl, rfl, rfl, hl⟩ := h
  refine ⟨zs, e.lexemes ++ [⟨.punctuation .assign, p⟩], hp, by simp, fun u => ?_⟩
  by_cases hterms : e.terms = []
  · rw [Phrase.assign?, if_pos (by simp [Derivation.phrase, hterms]),
      Option.map_eq_some_iff] at ha
    obtain ⟨t, ht, rfl⟩ := ha
    obtain ⟨e', hx, hph, ho, hle⟩ := Derivation.exists_assign_expression p u e hterms ht
    exact ⟨e', by simp [hx], by rw [hph]; simp [Derivation.phrase, hterms], by simp [ho],
      hl.congr hle⟩
  · rw [Phrase.assign?, if_neg (by simp [Derivation.phrase, hterms])] at ha
    cases ha

/-- Arguments of a call are complete with one more. -/
theorem SpellsArguments.exists_arguments {given : List Node} (h : SpellsArguments given xs)
    (e : Derivation .expression) : ∃ d : Derivation .arguments, d.lexemes = xs ++ e.lexemes ∧
      d.lower = given ++ [e.lower] := by
  obtain ⟨es, rfl, rfl⟩ := h
  obtain ⟨d, hx, hl⟩ := Derivation.exists_expressions es e
  exact ⟨.arguments d, hx, hl⟩

/-- A parenthesis that closes behind an operand. -/
theorem SpellsSuffix.closeParen {place : Place} {phrase : Phrase} {last : Operand} {r : Reading}
    (h : SpellsSuffix place phrase last xs)
    (hc : Reading.closeParen? place phrase last = some r) (q : Position) :
    r.Spells (xs ++ [⟨.punctuation .closeParen, q⟩]) := by
  obtain ⟨ys, e, hp, rfl, rfl, rfl, -⟩ := h
  cases place with
  | condition line site =>
      obtain rfl := Option.some.inj hc
      obtain ⟨zs, w, p, hs, rfl, rfl⟩ := hp
      exact ⟨zs, _, hs, ⟨w, p, e, q, rfl, rfl, e.node_phrase⟩, by simp⟩
  | parentheses line gap =>
      obtain rfl := Option.some.inj hc
      obtain ⟨zs, p, hg, rfl, rfl⟩ := hp
      have hd := Gap.Spells.fill hg (.parentheses p e q) rfl
      rw [e.node_phrase]
      simpa [Derivation.lexemes] using hd
  | argument outer phrase callee line given =>
      obtain rfl := Option.some.inj hc
      obtain ⟨us, zs, e₀, p, ho, rfl, rfl, hl, ha, rfl, rfl⟩ := hp
      obtain ⟨d, hx, hd⟩ := ha.exists_arguments e
      have hs : SpellsSuffix outer e₀.phrase e₀.lastOperand (us ++ e₀.lexemes) :=
        ⟨us, e₀, ho, rfl, rfl, rfl, hl⟩
      have hcall := hs.suffixed (Derivation.follows_call p d q)
      rw [hd, hx] at hcall
      simpa [Derivation.node_phrase, Reading.Spells] using hcall
  | _ => cases hc

/-- A comma behind an operand. -/
theorem SpellsSuffix.comma {place : Place} {phrase : Phrase} {last : Operand} {r : Reading}
    (h : SpellsSuffix place phrase last xs)
    (hc : Reading.comma? place phrase last = some r) (q : Position) :
    r.Spells (xs ++ [⟨.punctuation .comma, q⟩]) := by
  obtain ⟨ys, e, hp, rfl, rfl, rfl, -⟩ := h
  cases place with
  | argument outer phrase callee line given =>
      obtain rfl := Option.some.inj hc
      obtain ⟨us, zs, e₀, p, ho, hph, hlast, hl, ⟨es, rfl, hes⟩, rfl, rfl⟩ := hp
      refine Place.Spells.gap (.argument outer phrase callee p.line _) ?_
        fun _ => trivial
      exact ⟨us, _, e₀, p, ho, hph, hlast, hl,
        ⟨es ++ [(e, q)], rfl, by simp [hes, Derivation.node_phrase]⟩, by simp, rfl⟩
  | member line entries key gap =>
      obtain rfl := Option.some.inj hc
      obtain ⟨us, zs, ks, p, q', hg, he, hk, rfl, rfl⟩ := hp
      obtain ⟨m, hx, hm⟩ := hk.exists_member q' e
      have hput := he.put m q
      rw [hm] at hput
      exact ⟨us, _, p, hg, by rw [e.node_phrase]; exact hput, by simp [hx], rfl⟩
  | _ => cases hc

/-- Any other token behind an operand. -/
theorem SpellsSuffix.continue {place : Place} {phrase : Phrase} {last : Operand} {r : Reading}
    {x : Lexeme} (h : SpellsSuffix place phrase last xs)
    (hc : Reading.continueOperand? place phrase last x = some r) : r.Spells (xs ++ [x]) := by
  obtain ⟨t, p⟩ := x
  cases t with
  | operator op =>
      obtain rfl := Option.some.inj hc
      exact h.push op p
  | punctuation mark =>
      cases mark with
      | dot =>
          obtain rfl := Option.some.inj hc
          exact ⟨xs, p, h, rfl⟩
      | openParen =>
          obtain rfl := Option.some.inj hc
          exact ⟨xs, p, h, rfl, rfl⟩
      | assign =>
          obtain ⟨phrase', ha, rfl⟩ := Option.map_eq_some_iff.mp hc
          exact h.assign ha p
      | closeParen => exact h.closeParen hc p
      | comma => exact h.comma hc p
      | _ => cases hc
  | _ => cases hc

/-! ### One step -/

/-- A closing brace. -/
theorem Reading.Spells.closeBrace {r r' : Reading} (h : r.Spells xs)
    (hc : r.closeBrace? = some r') (q : Position) :
    r'.Spells (xs ++ [⟨.punctuation .closeBrace, q⟩]) := by
  have statement (hc : (r.finishStatement? false).bind Body.close? = some r') :
      r'.Spells (xs ++ [⟨.punctuation .closeBrace, q⟩]) := by
    obtain ⟨body, hf, hb⟩ := Option.bind_eq_some_iff.mp hc
    exact (h.ends hf).close q hb
  cases r with
  | key line entries gap =>
      obtain rfl := Option.some.inj hc
      obtain ⟨ys, zs, p, hg, he, rfl, rfl⟩ := h
      obtain ⟨k, hx, hk⟩ := he.exists_record p q
      have hd := Gap.Spells.fill hg k hk
      simpa [hx] using hd
  | suffix place phrase last =>
      cases place with
      | member line entries key gap =>
          obtain rfl := Option.some.inj hc
          obtain ⟨ys, e, hp, rfl, rfl, rfl, -⟩ := h
          obtain ⟨us, zs, ks, p, q', hg, he, hk, rfl, rfl⟩ := hp
          obtain ⟨m, hx, hm⟩ := hk.exists_member q' e
          obtain ⟨k, hkx, hkl⟩ := he.exists_record_put m p q
          have hd := Gap.Spells.fill hg k hkl
          rw [hm] at hd
          rw [e.node_phrase]
          simpa [hkx, hx] using hd
      | _ => exact statement hc
  | _ => exact statement hc

/-- Only the mark leads on. -/
theorem eq_of_onMark? {mark : Punctuation} {x : Lexeme} {next r : Reading}
    (h : Reading.onMark? mark x next = some r) :
    (∃ p, x = ⟨.punctuation mark, p⟩) ∧ r = next := by
  obtain ⟨t, p⟩ := x
  by_cases ht : t = .punctuation mark
  · rw [Reading.onMark?, if_pos ht] at h
    exact ⟨⟨p, by rw [ht]⟩, (Option.some.inj h).symm⟩
  · rw [Reading.onMark?, if_neg ht] at h
    cases h

/-- Only a name leads on. -/
theorem eq_of_onName? {x : Lexeme} {next : String → Reading} {r : Reading}
    (h : Reading.onName? x next = some r) : ∃ n p, x = ⟨.name n, p⟩ ∧ r = next n := by
  obtain ⟨t, p⟩ := x
  cases t with
  | name n => exact ⟨n, p, rfl, (Option.some.inj h).symm⟩
  | _ => cases h

/-- Only a key leads on. -/
theorem spellsKey_of_onKey? {x : Lexeme} {next : String → Reading} {r : Reading}
    (h : Reading.onKey? x next = some r) : ∃ key, SpellsKey key [x] ∧ r = next key := by
  obtain ⟨t, p⟩ := x
  cases t with
  | name n => exact ⟨n, .inl ⟨p, rfl⟩, (Option.some.inj h).symm⟩
  | string mark body => exact ⟨_, .inr ⟨mark, body, p, rfl, rfl⟩, (Option.some.inj h).symm⟩
  | _ => cases h

/-- A function without a name is an expression wherever it stands. -/
theorem Host.Spells.anonymous {host : Host} (h : host.Spells xs) : host.anonymous.Spells xs := by
  cases host with
  | statement outer => exact Place.Spells.gap (.statement none outer) h fun _ => trivial
  | operand gap => exact h

/-- The place of a function without a name admits one. -/
theorem Host.admits_anonymous (host : Host) : host.anonymous.Admits none := by
  cases host <;> trivial

/-- Every place admits a function with a name. -/
theorem Host.admits_some (host : Host) (name : String) : host.Admits (some name) := by
  cases host with
  | statement outer => exact Option.some_ne_none name
  | operand gap => trivial

/-- A named function as an expression. -/
def Derivation.asExpression (f : Derivation .named) : Derivation .expression :=
  .plain (.raise (.bare (.uncut (.head (.function f)))) _)

@[simp] theorem Derivation.lexemes_asExpression (f : Derivation .named) :
    f.asExpression.lexemes = f.lexemes := by
  simp [asExpression, lexemes]

@[simp] theorem Derivation.phrase_asExpression (f : Derivation .named) :
    f.asExpression.phrase = .empty := by
  simp [asExpression, phrase, Phrase.empty]

@[simp] theorem Derivation.lastOperand_asExpression (f : Derivation .named) :
    f.asExpression.lastOperand = ⟨[], .node f.lower, f.line, []⟩ := by
  simp [asExpression, lastOperand]

@[simp] theorem Derivation.leading_asExpression (f : Derivation .named) :
    f.asExpression.leading = some f :=
  rfl

/-- A token that is neither a semicolon nor a closing brace. -/
theorem Reading.Spells.advance {r r' : Reading} {x : Lexeme} (h : r.Spells xs)
    (ha : r.advance? x = some r') : r'.Spells (xs ++ [x]) := by
  cases r with
  | statement body => exact Body.Spells.begin h ha
  | operand gap => exact Gap.Spells.begin h ha
  | suffix place phrase last => exact SpellsSuffix.continue h ha
  | field place phrase last =>
      obtain ⟨ys, d, hs, rfl⟩ := h
      obtain ⟨n, p, rfl, rfl⟩ := eq_of_onName? ha
      rw [List.append_assoc]
      exact hs.suffixed (Derivation.follows_field n d p)
  | arguments place phrase callee line =>
      obtain ⟨ys, p, hs, rfl, rfl⟩ := h
      obtain ⟨t, q⟩ := x
      by_cases ht : t = .punctuation .closeParen
      · subst ht
        obtain rfl := Option.some.inj ha
        rw [List.append_assoc]
        exact hs.suffixed (Derivation.follows_call p .noArguments q)
      · rw [advance?, if_neg ht] at ha
        obtain ⟨zs, e, hp, rfl, hph, ho, hl⟩ := hs
        have hplace : (Place.argument place phrase callee p.line []).Spells
            (zs ++ e.lexemes ++ [⟨.punctuation .openParen, p⟩]) :=
          ⟨zs, [], e, p, hp, hph, ho, hl, ⟨[], rfl, rfl⟩, rfl, rfl⟩
        exact Gap.Spells.begin (Place.Spells.gap _ hplace fun _ => trivial) ha
  | key line entries gap =>
      obtain ⟨ys, zs, p, hg, he, rfl, rfl⟩ := h
      obtain ⟨key, hk, rfl⟩ := spellsKey_of_onKey? ha
      exact ⟨ys, zs, [x], p, hg, he, hk, by simp, rfl⟩
  | colon line entries name gap =>
      obtain ⟨ys, zs, ks, p, hg, he, hk, rfl, rfl⟩ := h
      obtain ⟨⟨q, rfl⟩, rfl⟩ := eq_of_onMark? ha
      refine Place.Spells.gap (.member p.line entries name gap) ?_ fun _ => trivial
      exact ⟨ys, zs, ks, p, q, hg, he, hk, by simp, rfl⟩
  | declaration line body =>
      obtain ⟨ys, k, w, ho, hk, rfl, rfl⟩ := h
      obtain ⟨n, p, rfl, rfl⟩ := eq_of_onName? ha
      exact ⟨ys, k, w, p, ho, hk, by simp, rfl⟩
  | declared line name body =>
      obtain ⟨ys, k, w, p, ho, hk, rfl, rfl⟩ := h
      obtain ⟨⟨a, rfl⟩, rfl⟩ := eq_of_onMark? ha
      refine Place.Spells.gap (.declaration w.line name body) ?_ fun _ => trivial
      exact ⟨ys, k, w, p, a, ho, hk, by simp, rfl⟩
  | result line body =>
      exact Gap.Spells.begin (Place.Spells.gap (.result line body) h fun _ => trivial) ha
  | choice line site =>
      obtain ⟨ys, w, hs, rfl, rfl⟩ := h
      obtain ⟨⟨p, rfl⟩, rfl⟩ := eq_of_onMark? ha
      refine Place.Spells.gap (.condition w.line site) ?_ fun _ => trivial
      exact ⟨ys, w, p, hs, by simp, rfl⟩
  | condition line test site =>
      obtain ⟨ys, zs, hs, ht, rfl⟩ := h
      obtain ⟨⟨b, rfl⟩, rfl⟩ := eq_of_onMark? ha
      exact ⟨_, [], ⟨ys, zs, b, hs, ht, rfl, rfl⟩, by simp, rfl⟩
  | consequence line test block site =>
      obtain ⟨ys, zs, hs, hb, rfl⟩ := h
      obtain ⟨t, w⟩ := x
      by_cases ht : t = .keyword .wordElse
      · subst ht
        obtain rfl := Option.some.inj ha
        exact ⟨ys, zs, w, hs, hb, rfl⟩
      · rw [advance?, if_neg ht] at ha
        exact (hs.fillWithoutElse hb).begin ha
  | alternative line test block site =>
      obtain ⟨ys, zs, w, hs, hb, rfl⟩ := h
      obtain ⟨t, p⟩ := x
      by_cases ht : t = .keyword .wordIf
      · subst ht
        obtain rfl := Option.some.inj ha
        exact ⟨_, p, ⟨ys, zs, w, hs, hb, rfl⟩, rfl, rfl⟩
      · rw [advance?, if_neg ht] at ha
        obtain ⟨⟨b, hx⟩, rfl⟩ := eq_of_onMark? ha
        rw [hx, List.append_assoc _ [_]]
        exact ⟨_, [], ⟨ys, zs, w, b, hs, hb, rfl, rfl⟩, by simp, rfl⟩
  | function line host =>
      obtain ⟨ys, zs, hh, ⟨w, rfl, rfl⟩, rfl⟩ := h
      obtain ⟨t, p⟩ := x
      cases t with
      | name n =>
          obtain rfl := Option.some.inj ha
          exact ⟨ys, _, hh, ⟨w, rfl, p, rfl⟩, by simp⟩
      | punctuation mark =>
          cases mark with
          | openParen =>
              obtain rfl := Option.some.inj ha
              exact ⟨ys, _, p, hh.anonymous, host.admits_anonymous, ⟨w, rfl, rfl⟩, rfl⟩
          | _ => cases ha
      | _ => cases ha
  | named line name host =>
      obtain ⟨ys, zs, hh, hn, rfl⟩ := h
      obtain ⟨⟨p, rfl⟩, rfl⟩ := eq_of_onMark? ha
      exact ⟨ys, zs, p, hh, host.admits_some name, hn, rfl⟩
  | parameters line name host =>
      obtain ⟨ys, zs, p, hh, hadmits, hn, rfl⟩ := h
      obtain ⟨t, q⟩ := x
      cases t with
      | name n =>
          obtain rfl := Option.some.inj ha
          exact ⟨ys, zs, p, .oneName n q, hh, hadmits, hn, by simp [Derivation.lexemes], rfl⟩
      | punctuation mark =>
          cases mark with
          | closeParen =>
              obtain rfl := Option.some.inj ha
              exact ⟨ys, _, hh, hadmits, ⟨zs, p, .noParameters, q, hn, rfl, rfl⟩,
                by simp [Derivation.lexemes]⟩
          | _ => cases ha
      | _ => cases ha
  | parameter line name read host =>
      obtain ⟨t, q⟩ := x
      cases t with
      | punctuation mark =>
          cases mark with
          | closeParen =>
              obtain rfl := Option.some.inj ha
              obtain ⟨ys, zs, p, ns, hh, hadmits, hn, rfl, hread⟩ := h
              exact ⟨ys, _, hh, hadmits, ⟨zs, p, .parameters ns, q, hn, rfl, hread⟩,
                by simp [Derivation.lexemes]⟩
          | comma =>
              obtain rfl := Option.some.inj ha
              exact ⟨xs, q, h, rfl⟩
          | _ => cases ha
      | _ => cases ha
  | nextParameter line name read host =>
      obtain ⟨ys, q, ⟨us, zs, p, ns, hh, hadmits, hn, rfl, hread⟩, rfl⟩ := h
      obtain ⟨n, q', rfl, rfl⟩ := eq_of_onName? ha
      obtain ⟨d, hx, hl⟩ := ns.exists_names q n q'
      exact ⟨us, zs, p, d, hh, hadmits, hn, by simp [hx], by simp [hread, hl]⟩
  | header line name read host =>
      obtain ⟨ys, zs, hh, hadmits, hheader, rfl⟩ := h
      obtain ⟨⟨b, rfl⟩, rfl⟩ := eq_of_onMark? ha
      exact ⟨_, [], ⟨ys, zs, b, hh, hadmits, hheader, rfl, rfl⟩, by simp, rfl⟩
  | afterFunction made line body =>
      obtain ⟨ys, f, ho, rfl, rfl, rfl⟩ := h
      rw [advance?] at ha
      split at ha
      · have hs : SpellsSuffix (.statement (some f.lower) body) .empty
            ⟨[], .node f.lower, f.line, []⟩ (ys ++ f.lexemes) :=
          ⟨ys, f.asExpression, ho, by simp, by simp, by simp, f, by simp, rfl⟩
        exact hs.continue ha
      · exact (ho.push (.defined f) rfl).begin ha

/-- A step takes a reading of some tokens to one of one token more. -/
theorem Reading.Spells.step {r r' : Reading} {x : Lexeme} (h : r.Spells xs)
    (hs : r.step? x = some r') : r'.Spells (xs ++ [x]) := by
  obtain ⟨t, p⟩ := x
  cases t with
  | punctuation mark =>
      cases mark with
      | semicolon =>
          obtain ⟨body, hf, rfl⟩ := Option.map_eq_some_iff.mp hs
          exact h.semicolon hf p
      | closeBrace => exact h.closeBrace hs p
      | _ => exact h.advance hs
  | _ => exact h.advance hs

/-! ### Whole runs -/

/-- Nothing is read at the start. -/
theorem Reading.spells_start : Reading.start.Spells [] :=
  ⟨[], [], rfl, rfl, rfl⟩

/-- Reading tokens takes a reading of some tokens to one of those with the new ones behind
them. -/
theorem Reading.Spells.readAll {r r' : Reading} {ys : List Lexeme} (h : r.Spells xs)
    (hr : r.readAll ys = .ok r') : r'.Spells (xs ++ ys) := by
  induction ys generalizing r xs with
  | nil =>
      obtain rfl := Except.ok.inj hr
      simpa using h
  | cons y ys ih =>
      rw [Reading.readAll] at hr
      cases hs : r.step? y with
      | none => simp [hs] at hr
      | some next =>
          rw [hs] at hr
          simpa using ih (h.step hs) hr

/-- Where the program may end, the tokens have a derivation tree, and it means the statements
that were read. -/
theorem Reading.Spells.exists_of_finish {r : Reading} {statements : List Node}
    (h : r.Spells xs) (hf : r.finish? = some statements) :
    ∃ d : Derivation .statements, d.lexemes = xs ∧ d.lower = statements := by
  rw [Reading.finish?] at hf
  split at hf
  next read hread =>
      obtain rfl := Option.some.inj hf
      obtain ⟨ys, d, rfl, rfl, hd⟩ := h.ends hread
      exact ⟨d, rfl, hd.symm⟩
  next => cases hf

end Scriptlet.Source
