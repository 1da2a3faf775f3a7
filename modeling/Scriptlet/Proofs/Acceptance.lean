import Scriptlet.Proofs.Running

/-!
# Every Tree Is Read

The rest of the proof that the reader accepts every tree: lists, blocks, choices, functions and
statements, and the induction over all trees.

A statement is followed by another one without a mark between them in two places, behind a choice
and behind a named function. What the reader has there is not a place for a statement, but it
takes the next token as one would (`Reading.Settles`); behind a named function this holds only
for tokens that do not go on with an expression. Where the next statement begins with one that
does, the two statements are read as one expression. That is the tie, and what is read is what the
tree means if the tree has, in every such place, the reading that is read
(`Derivation.WellChosen`).

## Main definitions

* `Reading.Settles`: a reading that stands for a place between statements.
* `Derivation.ReadsStatement`, `ReadsStatements` and so on: how the other symbols are read.
* `Derivation.Reads`: how a tree of any symbol is read.

## Main results

* `Derivation.reads`: every tree is read.
* `Derivation.exists_readAll_of_settled`: the tokens of a list of statements are read from the
  start, the program may end there, and if every tie is settled it is what the tree means.
* `Derivation.exists_readAll`: so it is without a tie.
-/

namespace Scriptlet.Source

open Scriptlet.Text (Position)

/-! ### Between statements -/

/-- A list with more statements. -/
def Body.pushAll (body : Body) (ns : List Node) : Body := ns.foldl Body.push body

/-- Statements are added one row after another. -/
theorem Body.pushAll_append (body : Body) (ms ns : List Node) :
    body.pushAll (ms ++ ns) = (body.pushAll ms).pushAll ns :=
  List.foldl_append

/-- A list holds its statements in reverse order. -/
theorem Body.pushAll_mk (owner : Owner) (statements ns : List Node) :
    (Body.mk owner statements).pushAll ns = .mk owner (ns.reverse ++ statements) := by
  induction ns generalizing statements with
  | nil => rfl
  | cons n ns ih => simpa [pushAll, push] using ih (n :: statements)

/-- A reading that stands for the place behind the last statement of a list: the list may end
there, and the next token is taken as the first of a statement. -/
structure Reading.Settles (r : Reading) (body : Body) : Prop where
  finish : ∀ semicolon, r.finishStatement? semicolon = some body
  step : ∀ x, x.token ≠ .keyword .wordElse → r.step? x = (Reading.statement body).step? x

/-- The beginning of a statement is such a place itself. -/
theorem settles_statement (body : Body) : (Reading.statement body).Settles body :=
  ⟨fun _ => rfl, fun _ _ => rfl⟩

/-- Behind the first branch of a choice, anything but an `else` begins a statement. -/
theorem settles_consequence (line : Int) (test block : Node) (site : Site) :
    (Reading.consequence line test block site).Settles (site.fillWithoutElse line test block) := by
  refine ⟨fun _ => rfl, fun x hx => ?_⟩
  obtain ⟨t, p⟩ := x
  cases t with
  | punctuation mark => cases mark <;> rfl
  | keyword word => cases word <;> first | rfl | exact absurd rfl hx
  | _ => rfl

/-- The place behind a named function, where the function is an operand. -/
def Reading.behindNamed (made : Node) (line : Int) (body : Body) : Reading :=
  .suffix (.statement (some made) body) .empty ⟨[], .node made, line, []⟩

/-- A token that goes on with an expression takes a named function for an operand. -/
theorem step?_afterFunction_of_continues (made : Node) (line : Int) (body : Body) {x : Lexeme}
    (h : Reading.continuesExpression x.token = true) :
    (Reading.afterFunction made line body).step? x =
      (Reading.behindNamed made line body).step? x := by
  obtain ⟨t, p⟩ := x
  cases t with
  | punctuation mark => cases mark <;> first | rfl | cases h
  | operator op => rfl
  | _ => cases h

/-- Any other token takes it for a statement. -/
theorem step?_afterFunction_of_not_continues {made : Node} {line : Int} {body : Body} {x : Lexeme}
    (h : Reading.continuesExpression x.token = false) :
    (Reading.afterFunction made line body).step? x =
      (Reading.statement (body.push made)).step? x := by
  obtain ⟨t, p⟩ := x
  cases t with
  | punctuation mark => cases mark <;> first | rfl | cases h
  | operator op => cases h
  | _ => rfl

namespace Derivation

variable {c : Symbol}

/-! ### What reading a tree comes to -/

/-- Parameters between parentheses. -/
def ReadsParameters (d : Derivation .parameters) : Prop :=
  ∀ line name host q, (Reading.parameters line name host).Runs
    (d.lexemes ++ [⟨.punctuation .closeParen, q⟩]) (.header line name d.lower host)

/-- Names up to the parenthesis behind them, where one more parameter must follow. -/
def ReadsNames (d : Derivation .names) : Prop :=
  ∀ line name read host q (r : Reading),
    (∀ n p, r.step? ⟨.name n, p⟩ = some (.parameter line name (n :: read) host)) →
    r.Runs (d.lexemes ++ [⟨.punctuation .closeParen, q⟩])
      (.header line name (read.reverse ++ d.lower) host)

/-- An entry of an object literal, whose value may still go on. -/
def ReadsMember (d : Derivation .member) : Prop :=
  ∃ key phrase o, (d.Settled → (key, phrase.node o) = d.lower) ∧ ∀ line entries gap,
    (Reading.key line entries gap).Runs d.lexemes
      (.suffix (.member line entries key gap) phrase o)

/-- Entries up to the brace behind them. -/
def ReadsMembers (d : Derivation .members) : Prop :=
  ∃ ms : List (String × Node), (d.Settled → ms = d.lower) ∧ ∀ line entries gap q,
    (Reading.key line entries gap).Runs (d.lexemes ++ [⟨.punctuation .closeBrace, q⟩])
      (gap.fill (.node (.record (ms.foldl (fun es m => Entries.put es m.1 m.2) entries) line))
        line)

/-- A block leaves its node with what its brace closes. -/
def ReadsBlock (d : Derivation .block) : Prop :=
  ∃ n : Node, (d.Settled → n = d.lower) ∧
    ∀ (r : Reading) (owner : Int → Owner) (next : Node → Reading),
      (∀ p, r.step? ⟨.punctuation .openBrace, p⟩ =
        some (.statement (.mk (owner (p : Position).line) []))) →
      (∀ line ns, (Body.mk (owner line) ns).close? = some (next (.block ns.reverse line))) →
      r.Runs d.lexemes (next n)

/-- A choice is complete at its site, though an `else` might still follow. -/
def ReadsChoice (d : Derivation .choice) : Prop :=
  ∃ n : Node, (d.Settled → n = d.lower) ∧ ∀ (r : Reading) (site : Site),
    (∀ p, r.step? ⟨.keyword .wordIf, p⟩ = some (.choice (p : Position).line site)) →
    ∃ r', r.Runs d.lexemes r' ∧ r'.Settles (site.fill n)

/-- What follows the first branch of a choice completes it. -/
def ReadsOtherwise (d : Derivation .otherwise) : Prop :=
  ∃ n : Option Node, (d.Settled → n = d.lower) ∧ ∀ line test block site,
    ∃ r', (Reading.consequence line test block site).Runs d.lexemes r' ∧
      r'.Settles (site.fill (.branch test block (n.getD (.block [] line)) line))

/-- A statement is complete, or it is a named function with which an expression might go on. -/
structure ReadsStatement (d : Derivation .statement) : Prop where
  exists_nodes : ∃ ns : List Node, (d.Settled → ns = d.lower) ∧
    ((∀ body, ∃ r, (Reading.statement body).Runs d.lexemes r ∧
      r.Settles (body.pushAll ns)) ∨
    ∃ (f : Derivation .named) (made : Node) (line : Int), d = defined f ∧ ns = [made] ∧
      ∀ body, (Reading.statement body).Runs d.lexemes (.afterFunction made line body))
  behind : BeginsEither d.lexemes → ∀ made line, ∃ ns : List Node, ∀ body, ∃ r,
    (Reading.behindNamed made line body).Runs d.lexemes r ∧ r.Settles (body.pushAll ns)

/-- A statement that ends its list may end it, or a semicolon may follow. -/
structure ReadsEnding (d : Derivation .ending) : Prop where
  exists_nodes : ∃ (n : Node) (ns : List Node), (d.Settled → n = d.lower) ∧
    (d.Settled → ¬Splits d.lexemes → ns = [d.lower]) ∧
    ∀ body, ∃ r, (Reading.statement body).Runs d.lexemes r ∧
      r.finishStatement? true = some (body.push n) ∧
      r.finishStatement? false = some (body.pushAll ns)
  behind : BeginsEither d.lexemes → ∀ made line, ∃ (n : Node) (ns : List Node),
    (d.Settled → ns = [made, d.lower]) ∧ ∀ body, ∃ r,
    (Reading.behindNamed made line body).Runs d.lexemes r ∧
    r.finishStatement? true = some (body.push n) ∧
    r.finishStatement? false = some (body.pushAll ns)

/-- A list of statements may end where its tokens do. -/
structure ReadsStatements (d : Derivation .statements) : Prop where
  exists_nodes : ∃ ns : List Node, (d.WellChosen → d.Settled → ns = d.lower) ∧ ∀ body, ∃ r,
    (Reading.statement body).Runs d.lexemes r ∧
    r.finishStatement? false = some (body.pushAll ns)
  behind : BeginsEither d.lexemes → ∀ made line, ∃ ns : List Node,
    (∀ e, d = last e → d.Settled → ns = made :: d.lower) ∧ ∀ body, ∃ r,
    (Reading.behindNamed made line body).Runs d.lexemes r ∧
    r.finishStatement? false = some (body.pushAll ns)

/-! ### Functions and blocks -/

/-- Parentheses with nothing between them. -/
theorem readsParameters_noParameters : Derivation.noParameters.ReadsParameters :=
  fun _ _ _ _ => .single rfl

/-- Parameters are names, none of which has been read before them. -/
theorem ReadsNames.parameters {ns : Derivation .names} (h : ns.ReadsNames) :
    (Derivation.parameters ns).ReadsParameters := fun line name host q =>
  h line name [] host q _ fun _ _ => rfl

/-- The last parameter, with the parenthesis behind it. -/
theorem readsNames_oneName (n : String) (p : Position) : (Derivation.oneName n p).ReadsNames := by
  intro line name read host q r hr
  rw [lower, ← List.reverse_cons]
  exact .cons (hr n p) (.single rfl)

/-- A parameter and a comma, with more parameters behind them. -/
theorem ReadsNames.moreNames {rest : Derivation .names} (h : rest.ReadsNames) (n : String)
    (p q : Position) : (Derivation.moreNames n p q rest).ReadsNames := by
  intro line name read host q' r hr
  have hrest := h line name (n :: read) host q' (.nextParameter line name (n :: read) host)
    fun _ _ => rfl
  rw [List.reverse_cons, List.append_assoc] at hrest
  exact .cons (hr n p) (.cons rfl hrest)

/-- A brace that ends a list of statements. -/
theorem closeBrace?_of_finishStatement? {r : Reading} {body : Body}
    (h : r.finishStatement? false = some body) : r.closeBrace? = body.close? := by
  have hbind : (r.finishStatement? false).bind Body.close? = body.close? := by
    rw [h]
    rfl
  cases r with
  | key => cases h
  | suffix place phrase last =>
      cases place with
      | member => cases h
      | _ => exact hbind
  | _ => exact hbind

/-- A block, from its statements. -/
theorem ReadsStatements.block {body : Derivation .statements} (h : body.ReadsStatements)
    (p q : Position) : (Derivation.block p body q).ReadsBlock := by
  obtain ⟨ns, hexact, hr⟩ := h.exists_nodes
  refine ⟨.block ns p.line, fun ht => ?_, fun r owner next hopen hclose => ?_⟩
  · obtain ⟨hchosen, hbody⟩ := List.forall_mem_cons.mp ht
    rw [hexact hchosen hbody]
    rfl
  · obtain ⟨r', hrun, hf⟩ := hr (.mk (owner p.line) [])
    refine .cons (hopen p) (hrun.append (.single ?_))
    show r'.closeBrace? = _
    rw [closeBrace?_of_finishStatement? hf, Body.pushAll_mk, hclose, List.append_nil,
      List.reverse_reverse]

/-- A named function, from its body. It is read like a function without a name from the parameters
on. -/
theorem ReadsBlock.named {body : Derivation .block} (h : body.ReadsBlock) (w : Position)
    (n : String) (p o : Position) {ps : Derivation .parameters} (hp : ps.ReadsParameters)
    (q : Position) : (Derivation.named w n p o ps q body).ReadsNamed := by
  obtain ⟨b, hexact, hr⟩ := h
  refine ⟨.function (some n) ps.lower b w.line, fun ht => ?_, fun r host hw => ?_⟩
  · rw [hexact ht]
    rfl
  · have hbody := hr (.header w.line (some n) ps.lower host)
      (.function w.line (some n) ps.lower host)
      (fun b => host.fill (.function (some n) ps.lower b w.line) w.line)
      (fun _ => rfl) fun _ _ => rfl
    have hrun := (hp w.line (some n) host q).append hbody
    rw [List.append_assoc] at hrun
    exact .cons (hw w) (.cons rfl (.cons rfl hrun))

/-- A function without a name is an operand. -/
theorem ReadsBlock.lambda {body : Derivation .block} (h : body.ReadsBlock) (w p : Position)
    {ps : Derivation .parameters} (hp : ps.ReadsParameters) (q : Position) :
    (Derivation.lambda w p ps q body).ReadsOperand := by
  obtain ⟨b, hexact, hr⟩ := h
  refine readsOperand_of_fill (.node (.function none ps.lower b w.line)) w.line
    (fun ht => ?_) (fun gap => ?_) (by simp [lexemes, beginsEither_cons]) rfl
  · rw [hexact ht]
    rfl
  · have hbody := hr (.header w.line none ps.lower (.operand gap))
      (.function w.line none ps.lower (.operand gap))
      (fun b => gap.fill (.node (.function none ps.lower b w.line)) w.line)
      (fun _ => rfl) fun _ _ => rfl
    have hrun := (hp w.line none (.operand gap) q).append hbody
    rw [List.append_assoc] at hrun
    exact .cons rfl (.cons rfl hrun)

/-! ### Choices -/

/-- A choice may end without an `else`. -/
theorem readsOtherwise_noElse : Derivation.noElse.ReadsOtherwise :=
  ⟨none, fun _ => rfl, fun line test block site =>
    ⟨_, .nil _, settles_consequence line test block site⟩⟩

/-- An `else` with a block behind it. -/
theorem ReadsBlock.elseBlock {b : Derivation .block} (h : b.ReadsBlock) (w : Position) :
    (Derivation.elseBlock w b).ReadsOtherwise := by
  obtain ⟨n, hexact, hr⟩ := h
  refine ⟨some n, fun ht => ?_, fun line test block site => ?_⟩
  · rw [hexact ht]
    rfl
  · have hrun := hr (.alternative line test block site) (.alternative line test block site)
      (fun b => .statement (site.fill (.branch test block b line))) (fun _ => rfl) fun _ _ => rfl
    exact ⟨_, .cons rfl hrun, settles_statement _⟩

/-- An `else` with another choice behind it, which becomes a block of its own. -/
theorem ReadsChoice.elseChoice {k : Derivation .choice} (h : k.ReadsChoice) (w : Position) :
    (Derivation.elseChoice w k).ReadsOtherwise := by
  obtain ⟨n, hexact, hr⟩ := h
  refine ⟨some (.block [n] n.line), fun ht => ?_, fun line test block site => ?_⟩
  · rw [hexact ht]
    rfl
  · obtain ⟨r', hrun, hs⟩ := hr (.alternative line test block site)
      (.alternative line test block site) fun _ => rfl
    exact ⟨r', .cons rfl hrun, hs⟩

/-- A choice, from its condition and what follows on it. -/
theorem ReadsExpression.choice {test : Derivation .expression} (h : test.ReadsExpression)
    (w p q : Position) {body : Derivation .block} (hb : body.ReadsBlock)
    {other : Derivation .otherwise} (ho : other.ReadsOtherwise) :
    (Derivation.choice w p test q body other).ReadsChoice := by
  obtain ⟨phrase, o, hexact, hr⟩ := h.exists_node
  obtain ⟨b, hexact₁, hr₁⟩ := hb
  obtain ⟨n, hexact₂, hr₂⟩ := ho
  refine ⟨.branch (phrase.node o) b (n.getD (.block [] w.line)) w.line, fun ht => ?_,
    fun r site hw => ?_⟩
  · obtain ⟨ht, ht'⟩ := List.forall_mem_append.mp ht
    obtain ⟨ht₁, ht₂⟩ := List.forall_mem_append.mp ht'
    rw [hexact ht, hexact₁ ht₁, hexact₂ ht₂]
    rfl
  · obtain ⟨r', hrun, hs⟩ := hr₂ w.line (phrase.node o) b site
    have hbody := hr₁ (.condition w.line (phrase.node o) site)
      (.consequence w.line (phrase.node o) site)
      (fun b => .consequence w.line (phrase.node o) b site) (fun _ => rfl) fun _ _ => rfl
    exact ⟨r', .cons (hw w) (.cons rfl ((hr (.condition w.line site)).append
      (.cons rfl (hbody.append hrun)))), hs⟩

/-! ### Object literals -/

/-- An entry whose key is a name. -/
theorem ReadsExpression.underName {e : Derivation .expression} (h : e.ReadsExpression)
    (key : String) (p q : Position) : (Derivation.underName key p q e).ReadsMember := by
  obtain ⟨phrase, o, hexact, hr⟩ := h.exists_node
  refine ⟨key, phrase, o, fun ht => by rw [hexact ht]; rfl, fun line entries gap => ?_⟩
  exact .cons rfl (.cons rfl (hr (.member line entries key gap)))

/-- An entry whose key is a string. -/
theorem ReadsExpression.underString {e : Derivation .expression} (h : e.ReadsExpression)
    (mark : Quote) (body : String) (p q : Position) :
    (Derivation.underString mark body p q e).ReadsMember := by
  obtain ⟨phrase, o, hexact, hr⟩ := h.exists_node
  refine ⟨literalText body, phrase, o, fun ht => by rw [hexact ht]; rfl,
    fun line entries gap => ?_⟩
  exact .cons rfl (.cons rfl (hr (.member line entries (literalText body) gap)))

/-- The last entry, with the brace behind it. -/
theorem ReadsMember.oneMember {m : Derivation .member} (h : m.ReadsMember) :
    (Derivation.oneMember m).ReadsMembers := by
  obtain ⟨key, phrase, o, hexact, hr⟩ := h
  refine ⟨[(key, phrase.node o)], fun ht => by rw [hexact ht]; rfl, fun line entries gap q => ?_⟩
  exact (hr line entries gap).append (.single rfl)

/-- The last entry may have a comma behind it. -/
theorem ReadsMember.trailingComma {m : Derivation .member} (h : m.ReadsMember) (p : Position) :
    (Derivation.trailingComma m p).ReadsMembers := by
  obtain ⟨key, phrase, o, hexact, hr⟩ := h
  refine ⟨[(key, phrase.node o)], fun ht => by rw [hexact ht]; rfl, fun line entries gap q => ?_⟩
  rw [lexemes, List.append_assoc]
  exact (hr line entries gap).append (.cons rfl (.single rfl))

/-- An entry with more of them behind it. An entry with the same key takes its place. -/
theorem ReadsMember.moreMembers {m : Derivation .member} (h : m.ReadsMember) (p : Position)
    {rest : Derivation .members} (h' : rest.ReadsMembers) :
    (Derivation.moreMembers m p rest).ReadsMembers := by
  obtain ⟨key, phrase, o, hexact, hr⟩ := h
  obtain ⟨ms, hexact', hr'⟩ := h'
  refine ⟨(key, phrase.node o) :: ms, fun ht => ?_, fun line entries gap q => ?_⟩
  · obtain ⟨hm, hrest⟩ := List.forall_mem_append.mp ht
    rw [hexact hm, hexact' hrest]
    rfl
  · rw [lexemes, List.append_assoc]
    exact (hr line entries gap).append (.cons rfl (hr' line _ gap q))

/-- An object literal is an operand. -/
theorem ReadsMembers.record {ms : Derivation .members} (h : ms.ReadsMembers) (p q : Position) :
    (Derivation.record p ms q).ReadsOperand := by
  obtain ⟨es, hexact, hr⟩ := h
  refine readsOperand_of_fill (.node (.record (Entries.ofList es) p.line)) p.line
    (fun ht => ?_) (fun gap => .cons rfl (hr p.line [] gap q))
    (by simp [lexemes, beginsEither_cons]) rfl
  rw [hexact ht]
  rfl

/-! ### Statements that need no semicolon at the end -/

/-- Every statement that is no expression begins with a keyword or a semicolon. -/
theorem not_beginsEither_of_keyword {k : Keyword} {p : Position} {xs : List Lexeme} :
    ¬BeginsEither (⟨.keyword k, p⟩ :: xs) := by
  simp [beginsEither_cons]

/-- A `return` without a value. -/
theorem readsEnding_bareReturn (p : Position) : (Derivation.bareReturn p).ReadsEnding where
  exists_nodes := ⟨_, [_], fun _ => rfl, fun _ _ => rfl, fun _ => ⟨_, .single rfl, rfl, rfl⟩⟩
  behind := fun h => absurd h not_beginsEither_of_keyword

/-- A `return` with a value. -/
theorem ReadsExpression.giveBack {e : Derivation .expression} (h : e.ReadsExpression)
    (p : Position) : (Derivation.giveBack p e).ReadsEnding where
  exists_nodes := by
    obtain ⟨phrase, o, hexact, hr⟩ := h.exists_node
    refine ⟨.giveBack (phrase.node o) p.line, [.giveBack (phrase.node o) p.line],
      fun ht => by rw [hexact ht]; rfl, fun ht _ => by rw [hexact ht]; rfl, fun body => ?_⟩
    have hrun : (Reading.result p.line body).Runs e.lexemes
        (.suffix (.result p.line body) phrase o) :=
      runs_of_beginsOperand rfl (hr (.result p.line body)) fun _ _ => rfl
    exact ⟨_, .cons rfl hrun, rfl, rfl⟩
  behind := fun h => absurd h not_beginsEither_of_keyword

/-- The keyword of a declaration. -/
theorem step?_declares {k : Keyword} (hk : k.declares = true) (p : Position) (body : Body) :
    (Reading.statement body).step? ⟨.keyword k, p⟩ = some (.declaration p.line body) := by
  cases k <;> first | rfl | cases hk

/-- A declaration without a value. -/
theorem readsEnding_bareDeclaration (k : Keyword) (hk : k.declares = true) (w : Position)
    (n : String) (p : Position) : (Derivation.bareDeclaration k hk w n p).ReadsEnding where
  exists_nodes := ⟨_, [_], fun _ => rfl, fun _ _ => rfl,
    fun body => ⟨_, .cons (step?_declares hk w body) (.single rfl), rfl, rfl⟩⟩
  behind := fun h => absurd h not_beginsEither_of_keyword

/-- A declaration with a value. -/
theorem ReadsExpression.declaration {e : Derivation .expression} (h : e.ReadsExpression)
    (k : Keyword) (hk : k.declares = true) (w : Position) (n : String) (p a : Position) :
    (Derivation.declaration k hk w n p a e).ReadsEnding where
  exists_nodes := by
    obtain ⟨phrase, o, hexact, hr⟩ := h.exists_node
    refine ⟨.assign n (phrase.node o) true w.line, [.assign n (phrase.node o) true w.line],
      fun ht => by rw [hexact ht]; rfl, fun ht _ => by rw [hexact ht]; rfl, fun body => ?_⟩
    exact ⟨_, .cons (step?_declares hk w body)
      (.cons rfl (.cons rfl (hr (.declaration w.line n body)))), rfl, rfl⟩
  behind := fun h => absurd h not_beginsEither_of_keyword

/-! ### Expression statements -/

/-- An expression that begins with no named function is read as a statement as it is where an
operand must begin. -/
theorem runs_statement_of_leading_eq_none {e : Derivation .expression} (hl : e.leading = none)
    {body : Body} {r : Reading}
    (h : (Reading.operand (Place.statement none body).gap).Runs e.lexemes r) :
    (Reading.statement body).Runs e.lexemes r := by
  obtain ⟨x, rest, hx, hb, hf⟩ := e.not_named_of_leading_eq_none rfl hl
  rw [hx] at h ⊢
  obtain ⟨t, p⟩ := x
  cases t with
  | keyword k =>
      cases k with
      | wordFunction =>
          obtain ⟨q, rest', rfl⟩ := hf rfl
          obtain ⟨_, hs, h⟩ := h.exists_step
          obtain rfl := Option.some.inj hs
          exact .cons rfl (h.congr rfl)
      | _ => cases hb
  | punctuation mark => cases mark <;> first | exact h.congr rfl | cases hb
  | operator op => exact h.congr rfl
  | _ => exact h.congr rfl

/-- An expression that begins with a named function is read as a statement by taking the
function for one until more of the expression follows. -/
theorem ReadsExpression.exists_runs_of_leading {e : Derivation .expression}
    (h : e.ReadsExpression) {f : Derivation .named} (hl : e.leading = some f) :
    ∃ (made : Node) (phrase : Phrase) (o : Operand),
      (e.Settled → phrase = e.phrase ∧ o = e.lastOperand) ∧ ∀ body, ∃ r,
        (Reading.statement body).Runs e.lexemes r ∧ ∀ semicolon, r.finishStatement? semicolon =
          (Place.statement (some made) body).finish? semicolon phrase o := by
  obtain ⟨made, -, hf⟩ := h.leading f hl
  obtain ⟨⟨targets, terms⟩, o, hexact, hr⟩ := h.exists_phrase
  obtain ⟨rest, hx, hcontinues⟩ := Derivation.lexemes_of_leading e hl
  refine ⟨made, ⟨targets, terms⟩, o, hexact, fun body => ?_⟩
  have hfunction := hf (.statement body) (.statement body) fun _ => rfl
  have hoperand := hf (.operand (Place.statement (some made) body).gap)
    (.operand (Place.statement (some made) body).gap) fun _ => rfl
  have hbehind := hr (.statement (some made) body) []
  rw [List.append_nil, hx] at hbehind
  have hrest : (Reading.behindNamed made f.line body).Runs rest _ := hbehind.behind hoperand
  rw [hx]
  cases rest with
  | nil =>
      -- the function is the whole expression, and the reader takes it for a statement
      obtain ⟨-, hphrase, rfl⟩ := Reading.suffix.inj (hrest.unique (.nil _))
      obtain ⟨rfl, rfl⟩ := Phrase.mk.inj hphrase
      exact ⟨_, hfunction.append (.nil _), fun semicolon => by cases semicolon <;> rfl⟩
  | cons x rest =>
      have hstep := step?_afterFunction_of_continues made f.line body (hcontinues x rfl)
      exact ⟨_, hfunction.append (hrest.congr hstep.symm), fun _ => rfl⟩

/-- An expression as a statement. If it begins with a named function, there may be two ways to read
it. -/
theorem ReadsExpression.value {e : Derivation .expression} (h : e.ReadsExpression) :
    (Derivation.value e).ReadsEnding where
  exists_nodes := by
    cases hl : e.leading with
    | none =>
        obtain ⟨phrase, o, hexact, hr⟩ := h.exists_node
        exact ⟨phrase.node o, [phrase.node o], hexact, fun ht _ => by rw [hexact ht]; rfl,
          fun body => ⟨_, runs_statement_of_leading_eq_none hl (hr (.statement none body)), rfl,
            rfl⟩⟩
    | some f =>
        obtain ⟨made, phrase, o, hexact, hr⟩ := h.exists_runs_of_leading hl
        refine ⟨phrase.node o, expressionStatements false (some made) phrase o, fun ht => ?_,
          fun ht hsplits => ?_, fun body => ?_⟩
        · obtain ⟨rfl, rfl⟩ := hexact ht
          exact e.node_phrase
        · obtain ⟨rfl, rfl⟩ := hexact ht
          cases hb : e.phrase.behindFunction? e.lastOperand with
          | none => simp [expressionStatements, hb, e.node_phrase, lower]
          | some n =>
              obtain ⟨e', hx, -, hb⟩ := Derivation.exists_behind e hl hb
              exact absurd ⟨f, e', hx, hb⟩ hsplits
        · obtain ⟨r, hrun, hfinish⟩ := hr body
          exact ⟨r, hrun, hfinish true, hfinish false⟩
  behind := by
    intro hb made line
    obtain ⟨phrase, o, hexact, hr⟩ := h.behind hb ⟨[], .node made, line, []⟩ rfl
    refine ⟨phrase.node o, expressionStatements false (some made) phrase o, fun ht => ?_,
      fun body => ⟨_, hr (.statement (some made) body), rfl, rfl⟩⟩
    simp only [expressionStatements, hexact ht rfl]
    rfl

/-! ### What statements begin with -/

/-- A statement begins with a token that is no `else`, and that goes on with an expression only
if it can also begin one. -/
def BeginsStatement (x : Lexeme) : Prop :=
  x.token ≠ .keyword .wordElse ∧ (Reading.continuesExpression x.token = true →
    x.token = .punctuation .openParen ∨ x.token = .operator .minus)

/-- What begins an operand begins a statement. -/
theorem beginsStatement_of_beginsOperand {x : Lexeme} (h : x.token.beginsOperand = true) :
    BeginsStatement x := by
  obtain ⟨t, p⟩ := x
  cases t with
  | keyword k => cases k <;> simp_all [BeginsStatement, Reading.continuesExpression,
      Token.beginsOperand]
  | operator op => cases op <;> simp_all [BeginsStatement, Reading.continuesExpression,
      Token.beginsOperand]
  | punctuation mark => cases mark <;> simp_all [BeginsStatement,
      Reading.continuesExpression, Token.beginsOperand]
  | _ => simp [BeginsStatement, Reading.continuesExpression]

/-- Every word but `else` begins a statement. -/
theorem beginsStatement_of_keyword {k : Keyword} (h : k ≠ .wordElse) (p : Position) :
    BeginsStatement ⟨.keyword k, p⟩ := by
  simp [BeginsStatement, Reading.continuesExpression, h]

/-- A statement that takes a semicolon begins so. -/
theorem exists_lexemes_ending (e : Derivation .ending) :
    ∃ x rest, e.lexemes = x :: rest ∧ BeginsStatement x := by
  cases e with
  | value e =>
      obtain ⟨x, rest, hx, hb⟩ := e.exists_lexemes_eq_cons rfl
      exact ⟨x, rest, hx, beginsStatement_of_beginsOperand hb⟩
  | bareReturn p => exact ⟨_, _, rfl, beginsStatement_of_keyword (by decide) p⟩
  | giveBack p e => exact ⟨_, _, rfl, beginsStatement_of_keyword (by decide) p⟩
  | bareDeclaration k hk w n p =>
      exact ⟨_, _, rfl, beginsStatement_of_keyword (by rintro rfl; cases hk) w⟩
  | declaration k hk w n p a e =>
      exact ⟨_, _, rfl, beginsStatement_of_keyword (by rintro rfl; cases hk) w⟩

/-- Every statement begins so. -/
theorem exists_lexemes_statement (s : Derivation .statement) :
    ∃ x rest, s.lexemes = x :: rest ∧ BeginsStatement x := by
  cases s with
  | ended e q =>
      obtain ⟨x, rest, hx, hb⟩ := e.exists_lexemes_ending
      exact ⟨x, _, by rw [lexemes, hx]; rfl, hb⟩
  | chosen k =>
      cases k with
      | choice w => exact ⟨_, _, rfl, beginsStatement_of_keyword (by decide) w⟩
  | defined f =>
      cases f with
      | named w => exact ⟨_, _, rfl, beginsStatement_of_keyword (by decide) w⟩
  | skip q => exact ⟨_, _, rfl, by simp [BeginsStatement, Reading.continuesExpression]⟩

/-- A statement that takes a semicolon has a token. -/
theorem lexemes_ending_ne_nil (e : Derivation .ending) : e.lexemes ≠ [] := by
  obtain ⟨x, rest, hx, -⟩ := e.exists_lexemes_ending
  exact List.ne_nil_of_length_pos (hx ▸ Nat.succ_pos _)

/-- Every statement has a token. -/
theorem lexemes_statement_ne_nil (s : Derivation .statement) : s.lexemes ≠ [] := by
  obtain ⟨x, rest, hx, -⟩ := s.exists_lexemes_statement
  exact List.ne_nil_of_length_pos (hx ▸ Nat.succ_pos _)

/-- A list of statements that is not empty begins with such a token. -/
theorem beginsStatement_of_lexemes {d : Derivation .statements} {x : Lexeme}
    {rest : List Lexeme} (h : d.lexemes = x :: rest) : BeginsStatement x := by
  cases d with
  | done => cases h
  | last e =>
      obtain ⟨y, ys, hy, hb⟩ := e.exists_lexemes_ending
      obtain ⟨rfl, -⟩ := List.cons.inj (h.symm.trans hy)
      exact hb
  | cons first rest =>
      obtain ⟨y, ys, hy, hb⟩ := first.exists_lexemes_statement
      rw [lexemes, hy] at h
      obtain ⟨rfl, -⟩ := List.cons.inj h
      exact hb

/-! ### Lists of statements -/

/-- A semicolon behind a statement. -/
theorem runs_ended {r r' : Reading} {body : Body} {xs : List Lexeme} (h : r.Runs xs r')
    (hf : r'.finishStatement? true = some body) (q : Position) :
    r.Runs (xs ++ [⟨.punctuation .semicolon, q⟩]) (.statement body) := by
  refine h.append (.single ?_)
  show (r'.finishStatement? true).map Reading.statement = _
  rw [hf]
  rfl

/-- A statement that ends with a semicolon. -/
theorem ReadsEnding.ended {e : Derivation .ending} (h : e.ReadsEnding) (q : Position) :
    (Derivation.ended e q).ReadsStatement where
  exists_nodes := by
    obtain ⟨n, ns, hexact, -, hr⟩ := h.exists_nodes
    refine ⟨[n], fun ht => by rw [hexact ht]; rfl, .inl fun body => ?_⟩
    obtain ⟨r, hrun, hf, -⟩ := hr body
    exact ⟨_, runs_ended hrun hf q, settles_statement _⟩
  behind := by
    intro hb made line
    obtain ⟨n, ns, -, hr⟩ := h.behind (hb.of_append e.lexemes_ending_ne_nil) made line
    refine ⟨[n], fun body => ?_⟩
    obtain ⟨r, hrun, hf, -⟩ := hr body
    exact ⟨_, runs_ended hrun hf q, settles_statement _⟩

/-- A choice as a statement. -/
theorem ReadsChoice.chosen {k : Derivation .choice} (h : k.ReadsChoice) :
    (Derivation.chosen k).ReadsStatement where
  exists_nodes := by
    obtain ⟨n, hexact, hr⟩ := h
    refine ⟨[n], fun ht => by rw [hexact ht]; rfl, .inl fun body => ?_⟩
    exact hr (.statement body) (.statement body) fun _ => rfl
  behind := by
    intro hb
    cases k with
    | choice => exact absurd hb not_beginsEither_of_keyword

/-- A named function as a statement. -/
theorem ReadsNamed.defined {f : Derivation .named} (h : f.ReadsNamed) :
    (Derivation.defined f).ReadsStatement where
  exists_nodes := by
    obtain ⟨n, hexact, hr⟩ := h
    refine ⟨[n], fun ht => by rw [hexact ht]; rfl, .inr ⟨f, n, f.line, rfl, rfl, fun body => ?_⟩⟩
    exact hr (.statement body) (.statement body) fun _ => rfl
  behind := by
    intro hb
    cases f with
    | named => exact absurd hb not_beginsEither_of_keyword

/-- A semicolon alone is a statement that does nothing. -/
theorem readsStatement_skip (q : Position) : (Derivation.skip q).ReadsStatement where
  exists_nodes := ⟨[], fun _ => rfl, .inl fun body => ⟨_, .single rfl, settles_statement body⟩⟩
  behind := fun h => by simp [lexemes, beginsEither_cons] at h

/-- A list of no statements. -/
theorem readsStatements_done : Derivation.done.ReadsStatements where
  exists_nodes := ⟨[], fun _ _ => rfl, fun body => ⟨_, .nil _, rfl⟩⟩
  behind := fun h => by
    obtain ⟨x, rest, hx, -⟩ := h
    cases hx

/-- The last statement of a list may go without its semicolon. -/
theorem ReadsEnding.last {e : Derivation .ending} (h : e.ReadsEnding) :
    (Derivation.last e).ReadsStatements where
  exists_nodes := by
    obtain ⟨n, ns, -, hexact, hr⟩ := h.exists_nodes
    refine ⟨ns, fun hchosen ht => hexact ht hchosen, fun body => ?_⟩
    obtain ⟨r, hrun, -, hf⟩ := hr body
    exact ⟨r, hrun, hf⟩
  behind := by
    intro hb made line
    obtain ⟨n, ns, hexact, hr⟩ := h.behind hb made line
    refine ⟨ns, fun _ _ ht => hexact ht, fun body => ?_⟩
    obtain ⟨r, hrun, -, hf⟩ := hr body
    exact ⟨r, hrun, hf⟩

/-- From a place between statements, more statements are read. -/
theorem exists_runs_of_settles {r : Reading} {body body' : Body} (h : r.Settles body)
    (d : Derivation .statements)
    (hd : ∃ r', (Reading.statement body).Runs d.lexemes r' ∧
      r'.finishStatement? false = some body') :
    ∃ r', r.Runs d.lexemes r' ∧ r'.finishStatement? false = some body' := by
  obtain ⟨r', hrun, hf⟩ := hd
  rcases hx : d.lexemes with _ | ⟨x, rest⟩
  · rw [hx] at hrun
    obtain rfl := hrun.unique (.nil _)
    exact ⟨r, .nil r, (h.finish false).trans hf⟩
  · rw [hx] at hrun
    exact ⟨r', hrun.congr (h.step x (beginsStatement_of_lexemes hx).1).symm, hf⟩

/-- Behind a named function, tokens that do not go on with an expression are read as more
statements. -/
theorem exists_runs_of_not_beginsEither {made : Node} (line : Int) {body body' : Body}
    {d : Derivation .statements} (hb : ¬BeginsEither d.lexemes)
    (hd : ∃ r', (Reading.statement (body.push made)).Runs d.lexemes r' ∧
      r'.finishStatement? false = some body') :
    ∃ r', (Reading.afterFunction made line body).Runs d.lexemes r' ∧
      r'.finishStatement? false = some body' := by
  obtain ⟨r', hrun, hf⟩ := hd
  rcases hx : d.lexemes with _ | ⟨x, rest⟩
  · rw [hx] at hrun
    obtain rfl := hrun.unique (.nil _)
    exact ⟨_, .nil _, hf⟩
  · rw [hx] at hrun
    rw [hx, beginsEither_cons] at hb
    have hc : Reading.continuesExpression x.token = false := by
      cases hc : Reading.continuesExpression x.token with
      | false => rfl
      | true => exact absurd ((beginsStatement_of_lexemes hx).2 hc) hb
    exact ⟨r', hrun.congr (step?_afterFunction_of_not_continues hc).symm, hf⟩

/-- A statement in front of a list. If it is a named function and the list goes on with an operand,
the two may be read together, which is the tie. -/
theorem ReadsStatement.cons {first : Derivation .statement} (h : first.ReadsStatement)
    {rest : Derivation .statements} (h' : rest.ReadsStatements) :
    (Derivation.cons first rest).ReadsStatements where
  exists_nodes := by
    obtain ⟨ns, hexact, hfirst⟩ := h.exists_nodes
    obtain ⟨ns', hexact', hrest⟩ := h'.exists_nodes
    have exact' (hchosen : (Derivation.cons first rest).WellChosen)
        (ht : (Derivation.cons first rest).Settled) :
        ns ++ ns' = (Derivation.cons first rest).lower := by
      obtain ⟨hf, hr⟩ := List.forall_mem_append.mp ht
      rw [hexact hf, hexact' hchosen.2 hr]
      rfl
    rcases hfirst with hfirst | ⟨f, made, line, rfl, rfl, hfirst⟩
    · refine ⟨ns ++ ns', exact', fun body => ?_⟩
      obtain ⟨r, hrun, hs⟩ := hfirst body
      obtain ⟨r', hrun', hf⟩ := exists_runs_of_settles hs rest (hrest _)
      exact ⟨r', hrun.append hrun', by rw [hf, Body.pushAll_append]⟩
    · by_cases hb : BeginsEither rest.lexemes
      · -- the tie: function and statements are read as one expression, and taken apart again
        -- if the expression ends the list without a semicolon
        obtain ⟨ms, hsplit, hbehind⟩ := h'.behind hb made line
        refine ⟨ms, fun hchosen ht => ?_, fun body => ?_⟩
        · obtain ⟨hf, hr⟩ := List.forall_mem_append.mp ht
          obtain ⟨e, rfl⟩ := hchosen.1 f rfl hb
          rw [hsplit _ rfl hr]
          show _ = (Derivation.defined f).lower ++ _
          rw [← hexact hf]
          rfl
        obtain ⟨r, hrun, hf⟩ := hbehind body
        obtain ⟨x, xs, hxs, hx⟩ := hb
        have hc : Reading.continuesExpression x.token = true := by
          rcases hx with hx | hx <;> rw [hx] <;> rfl
        rw [hxs] at hrun
        have hrun' := hrun.congr (step?_afterFunction_of_continues _ _ _ hc).symm
        rw [← hxs] at hrun'
        exact ⟨r, (hfirst body).append hrun', hf⟩
      · refine ⟨[made] ++ ns', exact', fun body => ?_⟩
        obtain ⟨r, hrun, hf⟩ := exists_runs_of_not_beginsEither line hb
          (hrest (body.push made))
        exact ⟨r, (hfirst body).append hrun, hf⟩
  behind := by
    intro hb made line
    obtain ⟨ns, hfirst⟩ := h.behind (hb.of_append first.lexemes_statement_ne_nil) made line
    obtain ⟨ns', -, hrest⟩ := h'.exists_nodes
    refine ⟨ns ++ ns', nofun, fun body => ?_⟩
    obtain ⟨r, hrun, hs⟩ := hfirst body
    obtain ⟨r', hrun', hf⟩ := exists_runs_of_settles hs rest (hrest _)
    exact ⟨r', hrun.append hrun', by rw [hf, Body.pushAll_append]⟩

/-! ### All trees -/

/-- How a tree is read. -/
def Reads : {c : Symbol} → Derivation c → Prop
  | .program, program body => body.ReadsStatements
  | .statements, d => d.ReadsStatements
  | .statement, d => d.ReadsStatement
  | .ending, d => d.ReadsEnding
  | .block, d => d.ReadsBlock
  | .choice, d => d.ReadsChoice
  | .otherwise, d => d.ReadsOtherwise
  | .named, d => d.ReadsNamed
  | .parameters, d => d.ReadsParameters
  | .names, d => d.ReadsNames
  | .expression, d => d.ReadsExpression
  | .row _, d => d.ReadsRow
  | .operand, d | .callee, d | .primary, d => d.ReadsOperand
  | .arguments, d => d.ReadsArguments
  | .expressions, d => d.ReadsExpressions
  | .members, d => d.ReadsMembers
  | .member, d => d.ReadsMember

/-- Every tree is read. -/
theorem reads (d : Derivation c) : d.Reads := by
  induction d with
  | program body ih => exact ih
  | done => exact readsStatements_done
  | last e ih => exact ReadsEnding.last ih
  | cons first rest ih ih' => exact ReadsStatement.cons ih ih'
  | ended e q ih => exact ReadsEnding.ended ih q
  | chosen k ih => exact ReadsChoice.chosen ih
  | defined f ih => exact ReadsNamed.defined ih
  | skip q => exact readsStatement_skip q
  | value e ih => exact ReadsExpression.value ih
  | bareReturn p => exact readsEnding_bareReturn p
  | giveBack p e ih => exact ReadsExpression.giveBack ih p
  | bareDeclaration k hk w n p => exact readsEnding_bareDeclaration k hk w n p
  | declaration k hk w n p a e ih => exact ReadsExpression.declaration ih k hk w n p a
  | block p body q ih => exact ReadsStatements.block ih p q
  | choice w p test q body other ih ih₁ ih₂ => exact ReadsExpression.choice ih w p q ih₁ ih₂
  | noElse => exact readsOtherwise_noElse
  | elseBlock w b ih => exact ReadsBlock.elseBlock ih w
  | elseChoice w k ih => exact ReadsChoice.elseChoice ih w
  | named w n p o ps q body ih ih' => exact ReadsBlock.named ih' w n p o ih q
  | noParameters => exact readsParameters_noParameters
  | parameters ns ih => exact ReadsNames.parameters ih
  | oneName n p => exact readsNames_oneName n p
  | moreNames n p q rest ih => exact ReadsNames.moreNames ih n p q
  | plain r ih => exact ReadsRow.plain ih
  | assign n p a e ih => exact ReadsExpression.assign ih n p a
  | assignField o d n p a e ih ih' => exact ReadsExpression.assignField ih' ih d n p a
  | tighter r ih => exact ReadsRow.tighter ih
  | binary left op hop p right ih ih' => exact ReadsRow.binary ih op hop p ih'
  | bare o ih => exact ReadsOperand.bare ih
  | minus p r ih => exact ReadsRow.minus ih p
  | uncut k ih => exact ReadsOperand.uncut ih
  | field o d n p ih => exact ReadsOperand.field ih d n p
  | head k ih => exact ReadsOperand.head ih
  | call k p given q ih ih' => exact ReadsOperand.call ih p ih' q
  | method o d n p b given q ih ih' => exact ReadsOperand.method ih d n p b ih' q
  | integer digits p => exact readsOperand_integer digits p
  | string mark body p => exact readsOperand_string mark body p
  | name text p => exact readsOperand_name text p
  | parentheses p e q ih => exact ReadsExpression.parentheses ih p q
  | emptyRecord p q => exact readsOperand_emptyRecord p q
  | record p ms q ih => exact ReadsMembers.record ih p q
  | function f ih => exact ReadsNamed.function ih
  | lambda w p ps q body ih ih' => exact ReadsBlock.lambda ih' w p ih q
  | noArguments => exact readsArguments_noArguments
  | arguments es ih => exact ReadsExpressions.arguments ih
  | oneExpression e ih => exact ReadsExpression.oneExpression ih
  | moreExpressions e q rest ih ih' => exact ReadsExpression.moreExpressions ih q ih'
  | oneMember m ih => exact ReadsMember.oneMember ih
  | trailingComma m q ih => exact ReadsMember.trailingComma ih q
  | moreMembers m q rest ih ih' => exact ReadsMember.moreMembers ih q ih'
  | underName k p q e ih => exact ReadsExpression.underName ih k p q
  | underString mark body p q e ih => exact ReadsExpression.underString ih mark body p q

/-- The tokens of a list of statements are read from the start, the program may end there, and if
every tie is settled it is what the tree means. -/
theorem exists_readAll_of_settled (d : Derivation .statements) :
    ∃ r statements, Reading.start.readAll d.lexemes = .ok r ∧ r.finish? = some statements ∧
      (d.WellChosen → d.Settled → statements = d.lower) := by
  have hd : d.ReadsStatements := d.reads
  obtain ⟨ns, hexact, hr⟩ := hd.exists_nodes
  obtain ⟨r, hrun, hf⟩ := hr (.mk .program [])
  rw [Body.pushAll_mk, List.append_nil] at hf
  refine ⟨r, ns, hrun, ?_, hexact⟩
  rw [Reading.finish?, hf]
  simp

/-- Without a tie, it is what the tree means. -/
theorem exists_readAll (d : Derivation .statements) :
    ∃ r statements, Reading.start.readAll d.lexemes = .ok r ∧ r.finish? = some statements ∧
      (¬d.Tied → statements = d.lower) := by
  obtain ⟨r, statements, hr, hf, hexact⟩ := d.exists_readAll_of_settled
  exact ⟨r, statements, hr, hf,
    fun ht => hexact (d.wellChosen_of_not_tied ht) (settled_of_not_tied ht)⟩

end Derivation

end Scriptlet.Source
