import Scriptlet.Proofs.Leading

/-!
# What a Reading Spells

A reading keeps of the tokens that were read only what the program will consist of.
`Reading.Spells r xs` says that the reading `r` may stand for the tokens `xs`: they can be cut
into the parts that the reading knows, each part has a derivation tree or the beginning of one,
and what the reading keeps of a part is what its tree means. Every construct around the
innermost one is a hole with tokens before it, so the relation follows the places, gaps and
bodies of the reading outwards.

A gap spells tokens to which any operand can be added to make an expression; that is how it is
stated (`Gap.Spells`), since the tree of an unfinished expression is no tree of the grammar.

## Main results

* `Reading.Spells.step`: a step takes a reading that spells some tokens to one that spells one
  token more.
* `Reading.Spells.finish`: where the program may end, the tokens have a derivation tree, and it
  means the statements that were read.
-/

namespace Scriptlet.Source

open Scriptlet.Text (Position)

/-! ### Parts of constructs -/

/-- The beginning of a choice, up to the end of its condition. -/
def SpellsTest (line : Int) (test : Node) (xs : List Lexeme) : Prop :=
  ∃ (w p : Position) (e : Derivation .expression) (q : Position),
    xs = ⟨.keyword .wordIf, w⟩ :: ⟨.punctuation .openParen, p⟩ ::
      (e.lexemes ++ [⟨.punctuation .closeParen, q⟩]) ∧ line = w.line ∧ test = e.lower

/-- The beginning of a choice, up to the end of its first branch. -/
def SpellsBranch (line : Int) (test consequence : Node) (xs : List Lexeme) : Prop :=
  ∃ ys, ∃ b : Derivation .block, SpellsTest line test ys ∧ xs = ys ++ b.lexemes ∧
    consequence = b.lower

/-- The keyword of a function and its name, if it has one. -/
def SpellsName (line : Int) (name : Option String) (xs : List Lexeme) : Prop :=
  ∃ w : Position, line = w.line ∧ match name with
    | none => xs = [⟨.keyword .wordFunction, w⟩]
    | some n => ∃ p : Position, xs = [⟨.keyword .wordFunction, w⟩, ⟨.name n, p⟩]

/-- A function up to the end of its parameters. -/
def SpellsHeader (line : Int) (name : Option String) (parameters : List String)
    (xs : List Lexeme) : Prop :=
  ∃ ys, ∃ (p : Position) (ps : Derivation .parameters) (q : Position), SpellsName line name ys ∧
    xs = ys ++ ⟨.punctuation .openParen, p⟩ :: (ps.lexemes ++ [⟨.punctuation .closeParen, q⟩]) ∧
    parameters = ps.lower

/-- Entries of an object literal, each with a comma behind it. -/
def SpellsEntries (entries : List (String × Node)) (xs : List Lexeme) : Prop :=
  ∃ ms : List (Derivation .member × Position),
    xs = ms.flatMap (fun m => m.1.lexemes ++ [⟨.punctuation .comma, m.2⟩]) ∧
    entries = Entries.ofList (ms.map fun m => m.1.lower)

/-- A key of an object literal. -/
def SpellsKey (key : String) (xs : List Lexeme) : Prop :=
  (∃ p : Position, xs = [⟨.name key, p⟩]) ∨
    ∃ (mark : Quote) (body : String) (p : Position), xs = [⟨.string mark body, p⟩] ∧
      key = literalText body

/-- Arguments of a call, each with a comma behind it. -/
def SpellsArguments (given : List Node) (xs : List Lexeme) : Prop :=
  ∃ es : List (Derivation .expression × Position),
    xs = es.flatMap (fun e => e.1.lexemes ++ [⟨.punctuation .comma, e.2⟩]) ∧
    given = es.map fun e => e.1.lower

/-- Whether a function with this name may stand in a host: without a name, only in an
expression. -/
def Host.Admits (name : Option String) : Host → Prop
  | .statement _ => name ≠ none
  | .operand _ => True

/-- Whether an expression begins with the named function that its place demands. -/
def Place.Leads (e : Derivation .expression) : Place → Prop
  | .statement (some made) _ => ∃ f, e.leading = some f ∧ f.lower = made
  | _ => True

/-! ### Constructs with a hole -/

mutual

/-- The tokens up to the end of the statements that were read. -/
def Body.Spells : Body → List Lexeme → Prop
  | .mk owner statements, xs => ∃ ys, ∃ ds : List (Derivation .statement), owner.Spells ys ∧
    xs = ys ++ ds.flatMap Derivation.lexemes ∧ statements.reverse = ds.flatMap Derivation.lower

/-- The tokens before the statements of a list. -/
def Owner.Spells : Owner → List Lexeme → Prop
  | .program, xs => xs = []
  | .consequence line test site brace, xs => ∃ ys zs, ∃ b : Position, site.Spells ys ∧
    SpellsTest line test zs ∧ xs = ys ++ zs ++ [⟨.punctuation .openBrace, b⟩] ∧ brace = b.line
  | .alternative line test consequence site brace, xs => ∃ ys zs, ∃ w b : Position,
    site.Spells ys ∧ SpellsBranch line test consequence zs ∧
    xs = ys ++ zs ++ [⟨.keyword .wordElse, w⟩, ⟨.punctuation .openBrace, b⟩] ∧ brace = b.line
  | .function line name parameters host brace, xs => ∃ ys zs, ∃ b : Position, host.Spells ys ∧
    host.Admits name ∧ SpellsHeader line name parameters zs ∧
    xs = ys ++ zs ++ [⟨.punctuation .openBrace, b⟩] ∧ brace = b.line

/-- The tokens before a choice. -/
def Site.Spells : Site → List Lexeme → Prop
  | .statement outer, xs => outer.Spells xs
  | .alternative line test consequence outer, xs => ∃ ys zs, ∃ w : Position, outer.Spells ys ∧
    SpellsBranch line test consequence zs ∧ xs = ys ++ zs ++ [⟨.keyword .wordElse, w⟩]

/-- The tokens before a function. -/
def Host.Spells : Host → List Lexeme → Prop
  | .statement outer, xs => outer.Spells xs
  | .operand gap, xs => gap.Spells xs

/-- The tokens before an operand: with any operand behind them they end in an expression. -/
def Gap.Spells : Gap → List Lexeme → Prop
  | .mk place phrase minuses, xs => ∃ ys zs, place.Spells ys ∧ xs = ys ++ zs ∧
    ∀ u : Derivation (.row none), ∃ e : Derivation .expression, e.lexemes = zs ++ u.lexemes ∧
      e.phrase = phrase ∧
      e.lastOperand = { u.lastOperand with minuses := u.lastOperand.minuses ++ minuses } ∧
      place.Leads e

/-- The tokens before an expression. -/
def Place.Spells : Place → List Lexeme → Prop
  | .statement _ outer, xs => outer.Spells xs
  | .declaration line name outer, xs => ∃ ys, ∃ k : Keyword, ∃ w p a : Position, outer.Spells ys ∧
    k.declares = true ∧
    xs = ys ++ [⟨.keyword k, w⟩, ⟨.name name, p⟩, ⟨.punctuation .assign, a⟩] ∧ line = w.line
  | .result line outer, xs => ∃ ys, ∃ w : Position, outer.Spells ys ∧
    xs = ys ++ [⟨.keyword .wordReturn, w⟩] ∧ line = w.line
  | .condition line site, xs => ∃ ys, ∃ w p : Position, site.Spells ys ∧
    xs = ys ++ [⟨.keyword .wordIf, w⟩, ⟨.punctuation .openParen, p⟩] ∧ line = w.line
  | .parentheses line gap, xs => ∃ ys, ∃ p : Position, gap.Spells ys ∧
    xs = ys ++ [⟨.punctuation .openParen, p⟩] ∧ line = p.line
  | .argument place phrase callee line given, xs => ∃ ys zs,
    ∃ (e : Derivation .expression) (p : Position), place.Spells ys ∧ e.phrase = phrase ∧
    e.lastOperand = callee ∧ place.Leads e ∧ SpellsArguments given.reverse zs ∧
    xs = ys ++ e.lexemes ++ ⟨.punctuation .openParen, p⟩ :: zs ∧ line = p.line
  | .member line entries key gap, xs => ∃ ys zs ks, ∃ p q : Position, gap.Spells ys ∧
    SpellsEntries entries zs ∧ SpellsKey key ks ∧
    xs = ys ++ ⟨.punctuation .openBrace, p⟩ :: (zs ++ ks ++ [⟨.punctuation .colon, q⟩]) ∧
    line = p.line

end

/-! ### Readings -/

/-- The tokens up to the end of an operand, which ends an expression for the time being. -/
def SpellsSuffix (place : Place) (phrase : Phrase) (last : Operand) (xs : List Lexeme) : Prop :=
  ∃ ys, ∃ e : Derivation .expression, place.Spells ys ∧ xs = ys ++ e.lexemes ∧
    e.phrase = phrase ∧ e.lastOperand = last ∧ place.Leads e

/-- The tokens up to a name among the parameters of a function. -/
def SpellsParameter (line : Int) (name : Option String) (read : List String) (host : Host)
    (xs : List Lexeme) : Prop :=
  ∃ ys zs, ∃ (p : Position) (ns : Derivation .names), host.Spells ys ∧ host.Admits name ∧
    SpellsName line name zs ∧ xs = ys ++ zs ++ ⟨.punctuation .openParen, p⟩ :: ns.lexemes ∧
    read.reverse = ns.lower

/-- The tokens that a reading may stand for. -/
def Reading.Spells : Reading → List Lexeme → Prop
  | .statement body, xs => body.Spells xs
  | .operand gap, xs => gap.Spells xs
  | .suffix place phrase last, xs => SpellsSuffix place phrase last xs
  | .field place phrase last, xs => ∃ ys, ∃ d : Position, SpellsSuffix place phrase last ys ∧
    xs = ys ++ [⟨.punctuation .dot, d⟩]
  | .arguments place phrase callee line, xs => ∃ ys, ∃ p : Position,
    SpellsSuffix place phrase callee ys ∧ xs = ys ++ [⟨.punctuation .openParen, p⟩] ∧
    line = p.line
  | .key line entries gap, xs => ∃ ys zs, ∃ p : Position, gap.Spells ys ∧
    SpellsEntries entries zs ∧ xs = ys ++ ⟨.punctuation .openBrace, p⟩ :: zs ∧ line = p.line
  | .colon line entries name gap, xs => ∃ ys zs ks, ∃ p : Position, gap.Spells ys ∧
    SpellsEntries entries zs ∧ SpellsKey name ks ∧
    xs = ys ++ ⟨.punctuation .openBrace, p⟩ :: (zs ++ ks) ∧ line = p.line
  | .declaration line body, xs => ∃ ys, ∃ k : Keyword, ∃ w : Position, body.Spells ys ∧
    k.declares = true ∧ xs = ys ++ [⟨.keyword k, w⟩] ∧ line = w.line
  | .declared line name body, xs => ∃ ys, ∃ k : Keyword, ∃ w p : Position, body.Spells ys ∧
    k.declares = true ∧ xs = ys ++ [⟨.keyword k, w⟩, ⟨.name name, p⟩] ∧ line = w.line
  | .result line body, xs => ∃ ys, ∃ w : Position, body.Spells ys ∧
    xs = ys ++ [⟨.keyword .wordReturn, w⟩] ∧ line = w.line
  | .choice line site, xs => ∃ ys, ∃ w : Position, site.Spells ys ∧
    xs = ys ++ [⟨.keyword .wordIf, w⟩] ∧ line = w.line
  | .condition line test site, xs => ∃ ys zs, site.Spells ys ∧ SpellsTest line test zs ∧
    xs = ys ++ zs
  | .consequence line test block site, xs => ∃ ys zs, site.Spells ys ∧
    SpellsBranch line test block zs ∧ xs = ys ++ zs
  | .alternative line test block site, xs => ∃ ys zs, ∃ w : Position, site.Spells ys ∧
    SpellsBranch line test block zs ∧ xs = ys ++ zs ++ [⟨.keyword .wordElse, w⟩]
  | .function line host, xs => ∃ ys zs, host.Spells ys ∧ SpellsName line none zs ∧ xs = ys ++ zs
  | .named line name host, xs => ∃ ys zs, host.Spells ys ∧ SpellsName line (some name) zs ∧
    xs = ys ++ zs
  | .parameters line name host, xs => ∃ ys zs, ∃ p : Position, host.Spells ys ∧
    host.Admits name ∧ SpellsName line name zs ∧ xs = ys ++ zs ++ [⟨.punctuation .openParen, p⟩]
  | .parameter line name read host, xs => SpellsParameter line name read host xs
  | .nextParameter line name read host, xs => ∃ ys, ∃ q : Position,
    SpellsParameter line name read host ys ∧ xs = ys ++ [⟨.punctuation .comma, q⟩]
  | .header line name read host, xs => ∃ ys zs, host.Spells ys ∧ host.Admits name ∧
    SpellsHeader line name read zs ∧ xs = ys ++ zs
  | .afterFunction made line body, xs => ∃ ys, ∃ f : Derivation .named, body.Spells ys ∧
    xs = ys ++ f.lexemes ∧ made = f.lower ∧ line = f.line

/-- The tokens up to the end of a list, the statement that ends it included. -/
def Body.Ends : Body → List Lexeme → Prop
  | .mk owner statements, xs => ∃ ys, ∃ d : Derivation .statements, owner.Spells ys ∧
    xs = ys ++ d.lexemes ∧ statements.reverse = d.lower

/-! ### Completing lists -/

namespace Derivation

/-- Statements in a row, with more behind them. -/
theorem exists_statements (ds : List (Derivation .statement)) (t : Derivation .statements) :
    ∃ d : Derivation .statements, d.lexemes = ds.flatMap lexemes ++ t.lexemes ∧
      d.lower = ds.flatMap lower ++ t.lower := by
  induction ds with
  | nil => exact ⟨t, rfl, rfl⟩
  | cons s ds ih =>
      obtain ⟨d, hx, hl⟩ := ih
      exact ⟨cons s d, by simp [lexemes, hx], by simp [lower, hl]⟩

/-- Arguments with commas behind them, and one more. -/
theorem exists_expressions (es : List (Derivation .expression × Position))
    (e : Derivation .expression) : ∃ d : Derivation .expressions,
      d.lexemes = es.flatMap (fun e => e.1.lexemes ++ [⟨.punctuation .comma, e.2⟩]) ++ e.lexemes ∧
      d.lower = (es.map fun e => e.1.lower) ++ [e.lower] := by
  induction es with
  | nil => exact ⟨oneExpression e, rfl, rfl⟩
  | cons f es ih =>
      obtain ⟨d, hx, hl⟩ := ih
      exact ⟨moreExpressions f.1 f.2 d, by simp [lexemes, hx], by simp [lower, hl]⟩

/-- Entries with commas behind them, and one more. -/
theorem exists_members (ms : List (Derivation .member × Position)) (m : Derivation .member) :
    ∃ d : Derivation .members,
      d.lexemes = ms.flatMap (fun m => m.1.lexemes ++ [⟨.punctuation .comma, m.2⟩]) ++ m.lexemes ∧
      d.lower = (ms.map fun m => m.1.lower) ++ [m.lower] := by
  induction ms with
  | nil => exact ⟨oneMember m, rfl, rfl⟩
  | cons k ms ih =>
      obtain ⟨d, hx, hl⟩ := ih
      exact ⟨moreMembers k.1 k.2 d, by simp [lexemes, hx], by simp [lower, hl]⟩

/-- Entries with commas behind them. -/
theorem exists_members_comma (m : Derivation .member × Position)
    (ms : List (Derivation .member × Position)) : ∃ d : Derivation .members,
      d.lexemes =
        (m :: ms).flatMap (fun m => m.1.lexemes ++ [⟨.punctuation .comma, m.2⟩]) ∧
      d.lower = (m :: ms).map fun m => m.1.lower := by
  induction ms generalizing m with
  | nil => exact ⟨trailingComma m.1 m.2, by simp [lexemes], rfl⟩
  | cons k ms ih =>
      obtain ⟨d, hx, hl⟩ := ih k
      exact ⟨moreMembers m.1 m.2 d, by simp [lexemes, hx], by simp [lower, hl]⟩

/-- One more name behind names. -/
theorem exists_names (q : Position) (n : String) (p : Position) : (ns : Derivation .names) →
    ∃ d : Derivation .names,
      d.lexemes = ns.lexemes ++ [⟨.punctuation .comma, q⟩, ⟨.name n, p⟩] ∧
      d.lower = ns.lower ++ [n]
  | oneName m r => ⟨moreNames m r q (oneName n p), rfl, rfl⟩
  | moreNames m r t rest => by
      obtain ⟨d, hx, hl⟩ := exists_names q n p rest
      exact ⟨moreNames m r t d, by simp [lexemes, hx], by simp [lower, hl]⟩

end Derivation

/-! ### Filling holes -/

variable {xs : List Lexeme}

/-- A list with one more statement. -/
theorem Body.Spells.push {body : Body} (h : body.Spells xs) (d : Derivation .statement)
    {n : Node} (hn : d.lower = [n]) : (body.push n).Spells (xs ++ d.lexemes) := by
  obtain ⟨owner, statements⟩ := body
  obtain ⟨ys, ds, ho, rfl, hs⟩ := h
  exact ⟨ys, ds ++ [d], ho, by simp, by simp [hs, hn]⟩

/-- A list with one more statement, which ends it. -/
theorem Body.Spells.pushLast {body : Body} (h : body.Spells xs) (e : Derivation .ending)
    {n : Node} (hn : e.lower = n) : (body.push n).Ends (xs ++ e.lexemes) := by
  obtain ⟨owner, statements⟩ := body
  obtain ⟨ys, ds, ho, rfl, hs⟩ := h
  obtain ⟨d, hx, hl⟩ := Derivation.exists_statements ds (.last e)
  exact ⟨ys, d, ho, by simp [hx, Derivation.lexemes], by simp [hs, hl, hn, Derivation.lower]⟩

/-- A list may end behind any statement. -/
theorem Body.Spells.ends {body : Body} (h : body.Spells xs) : body.Ends xs := by
  obtain ⟨owner, statements⟩ := body
  obtain ⟨ys, ds, ho, rfl, hs⟩ := h
  obtain ⟨d, hx, hl⟩ := Derivation.exists_statements ds .done
  exact ⟨ys, d, ho, by simp [hx, Derivation.lexemes], by simp [hs, hl, Derivation.lower]⟩

/-- The first branch of a choice and what follows it are a choice. -/
theorem SpellsBranch.exists_choice {line : Int} {test consequence : Node}
    (h : SpellsBranch line test consequence xs) (other : Derivation .otherwise) :
    ∃ c : Derivation .choice, c.lexemes = xs ++ other.lexemes ∧
      c.lower = .branch test consequence (other.lower.getD (.block [] line)) line := by
  obtain ⟨ys, b, ⟨w, p, e, q, rfl, rfl, rfl⟩, rfl, rfl⟩ := h
  exact ⟨.choice w p e q b other, by simp [Derivation.lexemes], rfl⟩

/-- A complete choice is a statement, and so are all choices whose `else` it stands behind. -/
theorem Site.Spells.fill : {site : Site} → {xs : List Lexeme} → site.Spells xs →
    (c : Derivation .choice) → (site.fill c.lower).Spells (xs ++ c.lexemes)
  | .statement _, _, h, c => Body.Spells.push h (.chosen c) rfl
  | .alternative _ _ _ outer, _, h, c => by
      obtain ⟨ys, zs, w, ho, hb, rfl⟩ := h
      obtain ⟨d, hx, hl⟩ := hb.exists_choice (.elseChoice w c)
      have hd := Site.Spells.fill ho d
      rw [hx, hl] at hd
      rw [List.append_assoc, List.append_assoc]
      exact hd

/-- A choice without an `else` is complete. -/
theorem Site.Spells.fillWithoutElse {site : Site} (h : site.Spells xs) {line : Int}
    {test block : Node} {ys : List Lexeme} (hb : SpellsBranch line test block ys) :
    (site.fillWithoutElse line test block).Spells (xs ++ ys) := by
  obtain ⟨d, hx, hl⟩ := hb.exists_choice .noElse
  have hd := h.fill d
  rw [hx, hl, Derivation.lexemes, List.append_nil] at hd
  exact hd

/-- Where an expression begins, any operand makes one. -/
theorem Place.Spells.gap (place : Place) (h : place.Spells xs) (hl : ∀ e, place.Leads e) :
    place.gap.Spells xs :=
  ⟨xs, [], h, by simp, fun u => ⟨.plain (u.raise _), by simp [Derivation.lexemes],
    by simp [Derivation.phrase, Phrase.empty],
    by simp [Derivation.lastOperand], hl _⟩⟩

/-- A minus sign before an operand. -/
theorem Gap.Spells.negated {gap : Gap} (h : gap.Spells xs) (p : Position) :
    (gap.negated p.line).Spells (xs ++ [⟨.operator .minus, p⟩]) := by
  obtain ⟨place, phrase, minuses⟩ := gap
  obtain ⟨ys, zs, hp, rfl, hu⟩ := h
  refine ⟨ys, zs ++ [⟨.operator .minus, p⟩], hp, by simp, fun u => ?_⟩
  obtain ⟨e, hx, hph, ho, hl⟩ := hu (.minus p u)
  exact ⟨e, by simp [hx, Derivation.lexemes], hph,
    by simp [ho, Derivation.lastOperand, Operand.negated], hl⟩

/-- A head of an operand in its place. -/
theorem Gap.Spells.fill {gap : Gap} (h : gap.Spells xs) (k : Derivation .primary) {hd : Head}
    {line : Int} (hk : k.lastOperand = ⟨[], hd, line, []⟩) :
    (gap.fill hd line).Spells (xs ++ k.lexemes) := by
  obtain ⟨place, phrase, minuses⟩ := gap
  obtain ⟨ys, zs, hp, rfl, hu⟩ := h
  obtain ⟨e, hx, hph, ho, hl⟩ := hu (.bare (.uncut (.head k)))
  exact ⟨ys, e, hp, by simp [hx, Derivation.lexemes], hph,
    by simp [ho, Derivation.lastOperand, hk], hl⟩

/-- The beginning of a named function and a block are a function. -/
theorem SpellsHeader.exists_named {line : Int} {name : String} {read : List String}
    (h : SpellsHeader line (some name) read xs) (b : Derivation .block) :
    ∃ f : Derivation .named, f.lexemes = xs ++ b.lexemes ∧ f.line = line ∧
      f.lower = .function (some name) read b.lower line := by
  obtain ⟨ys, o, ps, q, ⟨w, rfl, p, rfl⟩, rfl, rfl⟩ := h
  exact ⟨.named w name p o ps q b, by simp [Derivation.lexemes], rfl, rfl⟩

/-- The beginning of a function without a name and a block are what an operand begins with. -/
theorem SpellsHeader.exists_lambda {line : Int} {read : List String}
    (h : SpellsHeader line none read xs) (b : Derivation .block) :
    ∃ k : Derivation .primary, k.lexemes = xs ++ b.lexemes ∧
      k.lastOperand = ⟨[], .node (.function none read b.lower line), line, []⟩ := by
  obtain ⟨ys, o, ps, q, ⟨w, rfl, rfl⟩, rfl, rfl⟩ := h
  exact ⟨.lambda w o ps q b, by simp [Derivation.lexemes], rfl⟩

/-- A function in its place. -/
theorem Host.Spells.fill {host : Host} (h : host.Spells xs) {line : Int} {name : Option String}
    {read : List String} {ys : List Lexeme} (ha : host.Admits name)
    (hh : SpellsHeader line name read ys) (b : Derivation .block) :
    (host.fill (.function name read b.lower line) line).Spells (xs ++ (ys ++ b.lexemes)) := by
  cases name with
  | none =>
      obtain ⟨k, hx, hk⟩ := hh.exists_lambda b
      cases host with
      | statement outer => exact absurd rfl ha
      | operand gap =>
          rw [← hx]
          exact Gap.Spells.fill h k hk
  | some name =>
      obtain ⟨f, hx, hline, hf⟩ := hh.exists_named b
      rw [← hx, ← hf, ← hline]
      cases host with
      | statement outer => exact ⟨xs, f, h, rfl, rfl, rfl⟩
      | operand gap => exact Gap.Spells.fill h (.function f) rfl

end Scriptlet.Source
