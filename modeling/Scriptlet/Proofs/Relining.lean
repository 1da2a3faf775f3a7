import Scriptlet.Proofs.Language
import Scriptlet.Proofs.Lines

/-!
# Programs on Other Lines

The lines of a program are data that reading a text hands on and never looks at. So they can be
changed at any time: a text whose tokens are the same, but stand on other lines, is the same
program with the lines of its nodes changed alike.

As `Node.relined` changes the lines of a node, the functions of that name here change those of
whatever is known of a program that is partly read. That reading one more token respects them is
shown function by function, in the order in which reading is defined.

## Main definitions

* `Reading.relined`: what is known of a program, on other lines.
* `Lexeme.Moves`: a token on another line.

## Main results

* `Reading.step?_relined`: one more token.
* `Reading.readAll_relined`: a row of tokens.
* `relined_eq_of_tokens_eq`: texts with the same tokens are the same program, lines aside.
-/

namespace Scriptlet.Source

/-! ### Expressions -/

/-- The head of an operand, on other lines. -/
def Head.relined (f : Int → Int) : Head → Head
  | name text => name text
  | node n => node (n.relined f)

/-- A suffix of an operand: only a call has a line. -/
def Suffix.relined (f : Int → Int) : Suffix → Suffix
  | field name => field name
  | call arguments line => call (arguments.map (Node.relined f)) (f line)

/-- An operand with the lines of its minus signs, its head and its suffixes changed. -/
def Operand.relined (f : Int → Int) (o : Operand) : Operand :=
  ⟨o.minuses.map f, o.head.relined f, f o.line, o.suffixes.map (Suffix.relined f)⟩

/-- The target of an assignment, on other lines. -/
def Target.relined (f : Int → Int) : Target → Target
  | .name text line => .name text (f line)
  | .field receiver key => .field (receiver.relined f) key

/-- An operator with the operand behind it, on other lines. -/
def Step.relined (f : Int → Int) (s : Step) : Step :=
  ⟨s.operator, f s.line, s.operand.relined f⟩

/-- A row of operands, on other lines. -/
def Row.relined (f : Int → Int) (r : Row) : Row :=
  ⟨r.first.relined f, r.steps.map (Step.relined f)⟩

/-- A node and the line on which its text starts, both changed. -/
def Spot.relined (f : Int → Int) (s : Spot) : Spot := ⟨s.node.relined f, f s.start⟩

/-- An operand with the operator behind it, on other lines. -/
def Term.relined (f : Int → Int) (t : Term) : Term :=
  ⟨t.operand.relined f, t.operator, f t.line⟩

/-- What of an expression has been read, on other lines. -/
def Phrase.relined (f : Int → Int) (p : Phrase) : Phrase :=
  ⟨p.targets.map (Target.relined f), p.terms.map (Term.relined f)⟩

section

variable (f : Int → Int)

/-- The node of a head stands on the changed line. -/
theorem toNode_relined (line : Int) (h : Head) :
    (h.relined f).toNode (f line) = (h.toNode line).relined f := by
  cases h <;> rfl

/-- Suffixes extend a node on other lines alike. The cases are those of `extend`, in which a field
and a call behind it are one call of a method. -/
theorem extend_relined (line : Int) (n : Node) (suffixes : List Suffix) :
    extend (f line) (n.relined f) (suffixes.map (Suffix.relined f)) =
      (extend line n suffixes).relined f := by
  fun_induction extend line n suffixes with
  | case1 => rfl
  | case2 n name arguments _ rest ih =>
      rw [← ih]
      simp [Suffix.relined, extend, Node.relined]
  | case3 n name rest h ih =>
      rw [← ih]
      cases rest with
      | nil => rfl
      | cons s rest =>
          cases s with
          | field => rfl
          | call => exact (h _ _ _ rfl).elim
  | case4 n arguments _ rest ih =>
      rw [← ih]
      simp [Suffix.relined, extend, Node.relined]

/-- A minus sign, on the changed line. -/
theorem negation_relined (n : Node) (line : Int) :
    negation (n.relined f) (f line) = (negation n line).relined f := by
  simp [negation, Node.operation, Node.constant, Node.relined]

namespace Operand

variable (o : Operand)

/-- An operand starts on the changed line of its start. -/
theorem start_relined : (o.relined f).start = f o.start := by
  rw [start, relined, List.getLast?_map, start]
  cases o.minuses.getLast? <;> rfl

/-- An operand without its minus signs. -/
theorem bare_relined : (o.relined f).bare = o.bare.relined f := by
  rw [bare, relined, bare, toNode_relined, ← List.map_reverse, extend_relined]

/-- The node of an operand. The minus signs are taken from the inside out. -/
theorem node_relined : (o.relined f).node = o.node.relined f := by
  rw [node, bare_relined, node]
  show (o.minuses.map f).foldl negation _ = _
  generalize o.bare = n
  induction o.minuses generalizing n with
  | nil => rfl
  | cons line rest ih => rw [List.map_cons, List.foldl_cons, negation_relined, ih, List.foldl_cons]

/-- One more suffix. -/
theorem suffixed_relined (s : Suffix) :
    (o.relined f).suffixed (s.relined f) = (o.suffixed s).relined f := rfl

/-- One more minus sign. -/
theorem negated_relined (line : Int) :
    (o.relined f).negated (f line) = (o.negated line).relined f := by
  simp [negated, relined]

/-- What stands behind the function that an operand begins with does not depend on lines, apart from
its own. -/
theorem behindFunction?_relined :
    (o.relined f).behindFunction? = o.behindFunction?.map (relined f) := by
  rw [behindFunction?, relined, ← List.map_reverse, behindFunction?]
  rcases o.suffixes.reverse with _ | ⟨_ | ⟨_ | ⟨a, _ | ⟨b, rest⟩⟩, line⟩, others⟩
  · rfl
  · rfl
  · rfl
  · simp [Suffix.relined, relined, Head.relined]
  · rfl

/-- Whether an operand is a target does not depend on lines. -/
theorem target?_relined : (o.relined f).target? = o.target?.map (Target.relined f) := by
  obtain ⟨_ | _, head, line, _ | ⟨_ | _, _⟩⟩ := o
  · cases head <;> rfl
  · rfl
  · rfl
  · rfl
  · rfl
  · rfl

/-- The node of an operand and the line of its start. -/
theorem spot_relined : (o.relined f).spot = o.spot.relined f := by
  rw [spot, node_relined, start_relined, spot, Spot.relined]

end Operand

/-- The assignment of a value to a target. -/
theorem assign_relined (t : Target) (value : Node) :
    (t.relined f).assign (value.relined f) = (t.assign value).relined f := by
  cases t with
  | name => rfl
  | field receiver key =>
      simp only [Target.relined, Target.assign, Operand.bare_relined, Node.relined]
      rfl

/-- Two operands with an operator between them. The operation starts where the left one does. -/
theorem combine_relined (left : Spot) (op : Operator) (right : Spot) :
    (left.relined f).combine op (right.relined f) = (left.combine op right).relined f := by
  simp [Spot.combine, Spot.relined, Node.operation, Node.relined]

/-- The operators of a row, each with the place of the operand behind it. -/
theorem group_relined (tightness : Tightness) (first : Spot) (rest : List (Operator × Spot)) :
    group tightness (first.relined f) (rest.map (Prod.map id (Spot.relined f))) =
      Prod.map (Spot.relined f) (List.map (Prod.map id (Spot.relined f)))
        (group tightness first rest) := by
  fun_induction group tightness first rest with
  | case1 => rfl
  | case2 first op next rest h ih =>
      simp only [List.map_cons, Prod.map_apply, id, group, if_pos h, combine_relined, ih]
  | case3 first op next rest h second others hgroup ih =>
      rw [hgroup] at ih
      simp [group, if_neg h, ih]

/-- The node of a row, grouped by the tightness of its operators, of which lines are no part. -/
theorem groupAll_relined (first : Spot) (rest : List (Operator × Spot)) :
    groupAll (first.relined f) (rest.map (Prod.map id (Spot.relined f))) =
      (groupAll first rest).relined f := by
  simp only [groupAll, group_relined, Prod.map]

namespace Row

variable (r : Row)

/-- The node of a row. -/
theorem node_relined : (r.relined f).node = r.node.relined f := by
  have hsteps : (r.steps.map (Step.relined f)).map (fun s => (s.operator, s.operand.spot)) =
      (r.steps.map fun s => (s.operator, s.operand.spot)).map (Prod.map id (Spot.relined f)) := by
    rw [List.map_map, List.map_map]
    refine List.map_congr_left fun s _ => ?_
    simp [Step.relined, Operand.spot_relined]
  rw [node, relined, hsteps, Operand.spot_relined, groupAll_relined, node]
  rfl

/-- What stands behind the function that a row begins with. -/
theorem behindFunction?_relined :
    (r.relined f).behindFunction? = r.behindFunction?.map (relined f) := by
  obtain ⟨first, steps⟩ := r
  rw [behindFunction?, relined, Operand.behindFunction?_relined, behindFunction?]
  cases first.behindFunction? with
  | some o => rfl
  | none =>
      rcases steps with _ | ⟨⟨op, line, o⟩, steps⟩
      · rfl
      · cases op with
        | minus =>
            simp only [Option.map_none, List.map_cons, Step.relined, Operand.negated_relined]
            rcases hs : first.suffixes with _ | ⟨s, rest⟩
            · simp [Operand.relined, hs, relined]
            · simp [Operand.relined, hs]
        | _ => rfl

end Row

namespace Phrase

variable (p : Phrase) (last : Operand)

/-- A phrase that goes on behind the sign of an assignment. -/
theorem assign?_relined :
    (p.relined f).assign? (last.relined f) = (p.assign? last).map (relined f) := by
  obtain ⟨targets, _ | ⟨t, terms⟩⟩ := p
  · simp only [assign?, relined, Operand.target?_relined]
    cases last.target? <;> rfl
  · rfl

/-- The row of operands behind the targets of a phrase. -/
theorem row_relined : (p.relined f).row (last.relined f) = (p.row last).relined f := by
  suffices hfold : ∀ (terms : List Term) (r : Row),
      (terms.map (Term.relined f)).foldl
          (fun r t => ⟨t.operand, ⟨t.operator, t.line, r.first⟩ :: r.steps⟩) (r.relined f) =
        (terms.foldl (fun r t => ⟨t.operand, ⟨t.operator, t.line, r.first⟩ :: r.steps⟩ :
          Row → Term → Row) r).relined f from hfold p.terms ⟨last, []⟩
  intro terms
  induction terms with
  | nil => exact fun _ => rfl
  | cons t rest ih => exact fun r => ih ⟨t.operand, ⟨t.operator, t.line, r.first⟩ :: r.steps⟩

/-- The assignment of a value to targets, the last one first. -/
theorem assignAll_relined (targets : List Target) (value : Node) :
    assignAll (targets.map (Target.relined f)) (value.relined f) =
      (assignAll targets value).relined f := by
  induction targets generalizing value with
  | nil => rfl
  | cons t rest ih =>
      show assignAll _ ((t.relined f).assign (value.relined f)) = _
      rw [assign_relined, ih]
      rfl

/-- The node of a phrase. -/
theorem node_relined : (p.relined f).node (last.relined f) = (p.node last).relined f := by
  rw [node, row_relined, Row.node_relined]
  exact assignAll_relined f p.targets _

/-- What stands behind the function that a phrase begins with. -/
theorem behindFunction?_relined : (p.relined f).behindFunction? (last.relined f) =
    (p.behindFunction? last).map (Node.relined f) := by
  rw [behindFunction?, row_relined, behindFunction?]
  have htargets : (p.relined f).targets.reverse = p.targets.reverse.map (Target.relined f) :=
    List.map_reverse.symm
  rw [htargets]
  rcases p.targets.reverse with _ | ⟨_ | ⟨receiver, name⟩, others⟩
  · simp only [List.map_nil, Row.behindFunction?_relined, Option.map_map]
    exact congrArg (Option.map · _) (funext fun r => Row.node_relined f r)
  · rfl
  · simp only [List.map_cons, Target.relined, Operand.behindFunction?_relined, Option.map_map,
      Row.node_relined]
    refine congrArg (Option.map · _) (funext fun o => ?_)
    rw [Function.comp_apply, Function.comp_apply, ← assignAll_relined, List.map_reverse]
    rfl

end Phrase

end

/-! ### What is known of a program -/

mutual

/-- A list of statements, on other lines. -/
def Body.relined (f : Int → Int) : Body → Body
  | .mk owner statements => .mk (owner.relined f) (statements.map (Node.relined f))

/-- What a list of statements belongs to, on other lines. -/
def Owner.relined (f : Int → Int) : Owner → Owner
  | .program => .program
  | .consequence line condition site brace =>
    .consequence (f line) (condition.relined f) (site.relined f) (f brace)
  | .alternative line condition consequence site brace =>
    .alternative (f line) (condition.relined f) (consequence.relined f) (site.relined f) (f brace)
  | .function line name parameters host brace =>
    .function (f line) name parameters (host.relined f) (f brace)

/-- Where a choice stands, on other lines. -/
def Site.relined (f : Int → Int) : Site → Site
  | .statement outer => .statement (outer.relined f)
  | .alternative line condition consequence outer =>
    .alternative (f line) (condition.relined f) (consequence.relined f) (outer.relined f)

/-- Where a function stands, on other lines. -/
def Host.relined (f : Int → Int) : Host → Host
  | .statement outer => .statement (outer.relined f)
  | .operand gap => .operand (gap.relined f)

/-- A place for an operand, on other lines. -/
def Gap.relined (f : Int → Int) : Gap → Gap
  | .mk place phrase minuses => .mk (place.relined f) (phrase.relined f) (minuses.map f)

/-- Where an expression stands, on other lines. -/
def Place.relined (f : Int → Int) : Place → Place
  | .statement leading outer => .statement (leading.map (Node.relined f)) (outer.relined f)
  | .declaration line name outer => .declaration (f line) name (outer.relined f)
  | .result line outer => .result (f line) (outer.relined f)
  | .condition line site => .condition (f line) (site.relined f)
  | .parentheses line gap => .parentheses (f line) (gap.relined f)
  | .argument place phrase callee line given =>
    .argument (place.relined f) (phrase.relined f) (callee.relined f) (f line)
      (given.map (Node.relined f))
  | .member line entries key gap =>
    .member (f line) (entries.map (Prod.map id (Node.relined f))) key (gap.relined f)

end

/-- What is known of a program, on other lines. -/
def Reading.relined (f : Int → Int) : Reading → Reading
  | .statement body => .statement (body.relined f)
  | .operand gap => .operand (gap.relined f)
  | .suffix place phrase last => .suffix (place.relined f) (phrase.relined f) (last.relined f)
  | .field place phrase last => .field (place.relined f) (phrase.relined f) (last.relined f)
  | .arguments place phrase callee line =>
    .arguments (place.relined f) (phrase.relined f) (callee.relined f) (f line)
  | .key line entries gap =>
    .key (f line) (entries.map (Prod.map id (Node.relined f))) (gap.relined f)
  | .colon line entries name gap =>
    .colon (f line) (entries.map (Prod.map id (Node.relined f))) name (gap.relined f)
  | .declaration line body => .declaration (f line) (body.relined f)
  | .declared line name body => .declared (f line) name (body.relined f)
  | .result line body => .result (f line) (body.relined f)
  | .choice line site => .choice (f line) (site.relined f)
  | .condition line test site => .condition (f line) (test.relined f) (site.relined f)
  | .consequence line test block site =>
    .consequence (f line) (test.relined f) (block.relined f) (site.relined f)
  | .alternative line test block site =>
    .alternative (f line) (test.relined f) (block.relined f) (site.relined f)
  | .function line host => .function (f line) (host.relined f)
  | .named line name host => .named (f line) name (host.relined f)
  | .parameters line name host => .parameters (f line) name (host.relined f)
  | .parameter line name read host => .parameter (f line) name read (host.relined f)
  | .nextParameter line name read host => .nextParameter (f line) name read (host.relined f)
  | .header line name read host => .header (f line) name read (host.relined f)
  | .afterFunction made line body => .afterFunction (made.relined f) (f line) (body.relined f)

section

variable (f : Int → Int)

/-- A list with one more statement. -/
theorem Body.push_relined (body : Body) (n : Node) :
    (body.relined f).push (n.relined f) = (body.push n).relined f := by
  cases body
  simp [push, relined]

/-- A complete choice in its place. The induction is on the choices around it. -/
theorem Site.fill_relined (n : Node) : (site : Site) →
    (site.relined f).fill (n.relined f) = (site.fill n).relined f
  | statement outer => Body.push_relined f outer n
  | alternative line condition consequence outer => by
    rw [fill, ← fill_relined _ outer]
    simp [relined, fill, Node.relined]

/-- A choice without an `else`, whose empty block stands on the line of the choice. -/
theorem Site.fillWithoutElse_relined (site : Site) (line : Int) (condition consequence : Node) :
    (site.relined f).fillWithoutElse (f line) (condition.relined f) (consequence.relined f) =
      (site.fillWithoutElse line condition consequence).relined f := by
  rw [fillWithoutElse, fillWithoutElse, ← fill_relined]
  rfl

/-- The beginning of an expression. -/
theorem Place.gap_relined (place : Place) : (place.relined f).gap = place.gap.relined f := by
  rw [gap, gap, Gap.relined]
  rfl

/-- An operand whose head is read. -/
theorem Gap.fill_relined (gap : Gap) (head : Head) (line : Int) :
    (gap.relined f).fill (head.relined f) (f line) = (gap.fill head line).relined f := by
  cases gap
  rfl

/-- An operand whose head is a node, which it is but for literals and names. -/
theorem Gap.fill_node_relined (gap : Gap) (n : Node) (line : Int) :
    (gap.relined f).fill (.node (n.relined f)) (f line) =
      (gap.fill (.node n) line).relined f :=
  gap.fill_relined f (.node n) line

/-- One more minus sign in front of an operand. -/
theorem Gap.negated_relined (gap : Gap) (line : Int) :
    (gap.relined f).negated (f line) = (gap.negated line).relined f := by
  cases gap
  rfl

/-- A complete function in its place. -/
theorem Host.fill_relined (host : Host) (function : Node) (line : Int) :
    (host.relined f).fill (function.relined f) (f line) = (host.fill function line).relined f := by
  cases host with
  | statement => rfl
  | operand gap => exact gap.fill_node_relined f function line

/-- The place of a function without a name. -/
theorem Host.anonymous_relined (host : Host) :
    (host.relined f).anonymous = host.anonymous.relined f := by
  cases host <;> rfl

/-- What is known behind the brace that ends a list of statements. -/
theorem Body.close?_relined (body : Body) :
    (body.relined f).close? = body.close?.map (Reading.relined f) := by
  obtain ⟨owner, statements⟩ := body
  cases owner with
  | program => rfl
  | consequence => simp [relined, Owner.relined, close?, Reading.relined, Node.relined]
  | alternative =>
      simp [relined, Owner.relined, close?, Reading.relined, ← Site.fill_relined, Node.relined]
  | function =>
      simp [relined, Owner.relined, close?, ← Host.fill_relined, Node.relined]

/-- Whether an expression is one statement or two does not depend on lines. -/
theorem expressionStatements_relined (semicolon : Bool) (leading : Option Node) (phrase : Phrase)
    (last : Operand) :
    expressionStatements semicolon (leading.map (Node.relined f)) (phrase.relined f)
        (last.relined f) =
      (expressionStatements semicolon leading phrase last).map (Node.relined f) := by
  have hwhole : [(phrase.relined f).node (last.relined f)] =
      [phrase.node last].map (Node.relined f) := by
    rw [Phrase.node_relined, List.map_singleton]
  unfold expressionStatements
  rw [Phrase.behindFunction?_relined]
  cases semicolon with
  | true => exact hwhole
  | false =>
      cases leading with
      | none => exact hwhole
      | some function =>
          cases phrase.behindFunction? last with
          | none => exact hwhole
          | some rest => rfl

/-- A list with some more statements. -/
theorem pushAll_relined (outer : Body) (ns : List Node) :
    (ns.map (Node.relined f)).foldl Body.push (outer.relined f) =
      (ns.foldl Body.push outer).relined f := by
  induction ns generalizing outer with
  | nil => rfl
  | cons n rest ih => rw [List.map_cons, List.foldl_cons, Body.push_relined, ih, List.foldl_cons]

/-- The list of statements that is left by an expression. -/
theorem Place.finish?_relined (semicolon : Bool) (phrase : Phrase) (last : Operand)
    (place : Place) :
    (place.relined f).finish? semicolon (phrase.relined f) (last.relined f) =
      (place.finish? semicolon phrase last).map (Body.relined f) := by
  cases place with
  | statement leading outer =>
      simp [relined, finish?, expressionStatements_relined, pushAll_relined]
  | declaration | result =>
      simp [relined, finish?, ← Body.push_relined, Node.relined, Phrase.node_relined]
  | condition | parentheses | argument | member => rfl

namespace Reading

/-- The list of statements that is left where a statement ends. -/
theorem finishStatement?_relined (semicolon : Bool) (r : Reading) :
    (r.relined f).finishStatement? semicolon =
      (r.finishStatement? semicolon).map (Body.relined f) := by
  cases r with
  | suffix => exact Place.finish?_relined ..
  | declared | result =>
      simp [relined, finishStatement?, ← Body.push_relined, Node.relined, Node.constant]
  | consequence => simp [relined, finishStatement?, Site.fillWithoutElse_relined]
  | afterFunction => simp [relined, finishStatement?, Body.push_relined]
  | _ => rfl

/-- The statements of a program that ends here. -/
theorem finish?_relined (r : Reading) :
    (r.relined f).finish? = r.finish?.map (List.map (Node.relined f)) := by
  rw [finish?, finishStatement?_relined, finish?]
  rcases r.finishStatement? false with _ | ⟨owner, statements⟩
  · rfl
  · cases owner with
    | program => simp [Body.relined, Owner.relined]
    | consequence | alternative | function => rfl

end Reading

end

/-! ### One more token -/

/-- Whether a lexeme is the same token as another one, on the line that `f` makes of its line. -/
structure Lexeme.Moves (f : Int → Int) (x x' : Lexeme) : Prop where
  token : x'.token = x.token
  line : x'.line = f x.line

namespace Reading

section

variable {f : Int → Int} {x x' : Lexeme}

/-- The first token of an operand. Its line is that of the operand. -/
theorem beginOperand?_relined (h : x.Moves f x') (gap : Gap) :
    beginOperand? (gap.relined f) x' = (beginOperand? gap x).map (relined f) := by
  rw [beginOperand?, h.token, h.line, beginOperand?]
  cases x.token with
  | name | integer | string => simp [← Gap.fill_relined, Head.relined, Node.constant, Node.relined]
  | keyword k => cases k <;> rfl
  | operator op =>
      cases op with
      | minus => simp [relined, Gap.negated_relined]
      | _ => rfl
  | punctuation p => cases p <;> rfl

/-- The first token of a statement: a word, or else that of an operand. -/
theorem beginStatement?_relined (h : x.Moves f x') (body : Body) :
    beginStatement? (body.relined f) x' = (beginStatement? body x).map (relined f) := by
  have hoperand := beginOperand?_relined h (Place.statement none body).gap
  rw [beginStatement?, h.token, h.line, beginStatement?]
  cases x.token with
  | keyword k => cases k <;> first | rfl | exact hoperand
  | _ => exact hoperand

/-- A closing parenthesis behind an expression. -/
theorem closeParen?_relined (place : Place) (phrase : Phrase) (last : Operand) :
    closeParen? (place.relined f) (phrase.relined f) (last.relined f) =
      (closeParen? place phrase last).map (relined f) := by
  cases place with
  | condition => simp [Place.relined, closeParen?, relined, Phrase.node_relined]
  | parentheses =>
      simp only [Place.relined, closeParen?, Phrase.node_relined, Gap.fill_node_relined,
        Option.map_some]
  | argument =>
      simp [Place.relined, closeParen?, relined, ← Operand.suffixed_relined, Suffix.relined,
        Phrase.node_relined]
  | _ => rfl

/-- A comma behind an expression. -/
theorem comma?_relined (place : Place) (phrase : Phrase) (last : Operand) :
    comma? (place.relined f) (phrase.relined f) (last.relined f) =
      (comma? place phrase last).map (relined f) := by
  cases place with
  | argument =>
      simp [Place.relined, comma?, relined, ← Place.gap_relined, Phrase.node_relined]
  | member => simp [Place.relined, comma?, relined, Entries.map_put, Phrase.node_relined]
  | _ => rfl

/-- A token behind an operand. -/
theorem continueOperand?_relined (h : x.Moves f x') (place : Place) (phrase : Phrase)
    (last : Operand) :
    continueOperand? (place.relined f) (phrase.relined f) (last.relined f) x' =
      (continueOperand? place phrase last x).map (relined f) := by
  rw [continueOperand?, h.token, h.line, continueOperand?]
  cases x.token with
  | punctuation p =>
      cases p with
      | closeParen => exact closeParen?_relined place phrase last
      | comma => exact comma?_relined place phrase last
      | assign =>
          rw [Phrase.assign?_relined]
          cases phrase.assign? last <;> rfl
      | _ => rfl
  | _ => rfl

/-- A closing brace: it ends an object literal or a list of statements. -/
theorem closeBrace?_relined (r : Reading) :
    (r.relined f).closeBrace? = r.closeBrace?.map (relined f) := by
  have hclose : ((r.relined f).finishStatement? false).bind Body.close? =
      ((r.finishStatement? false).bind Body.close?).map (relined f) := by
    rw [finishStatement?_relined]
    cases r.finishStatement? false with
    | none => rfl
    | some body => exact Body.close?_relined f body
  have hrecord (gap : Gap) (entries : List (String × Node)) (line : Int) :
      (gap.relined f).fill (.node (.record (entries.map (Prod.map id (Node.relined f))) (f line)))
        (f line) = (gap.fill (.node (.record entries line)) line).relined f := by
    rw [← Gap.fill_node_relined, Node.relined, Node.relinedEntries_eq_map]
  cases r with
  | key line entries gap => exact congrArg some (hrecord gap entries line)
  | suffix place phrase last =>
      cases place with
      | member line entries name gap =>
          refine congrArg some (Eq.trans ?_ (hrecord gap _ line))
          rw [Entries.map_put, ← Phrase.node_relined]
      | _ => exact hclose
  | _ => exact hclose

/-- A mark that there is no choice about. -/
theorem onMark?_relined (h : x.Moves f x') (mark : Punctuation) {next next' : Reading}
    (hn : next' = next.relined f) :
    onMark? mark x' next' = (onMark? mark x next).map (relined f) := by
  rw [onMark?, h.token, hn, onMark?]
  split <;> rfl

/-- A name that there is no choice about. -/
theorem onName?_relined (h : x.Moves f x') {next next' : String → Reading}
    (hn : ∀ name, next' name = (next name).relined f) :
    onName? x' next' = (onName? x next).map (relined f) := by
  rw [onName?, h.token, funext hn, onName?]
  cases x.token <;> rfl

/-- A key of an object literal. -/
theorem onKey?_relined (h : x.Moves f x') {next next' : String → Reading}
    (hn : ∀ name, next' name = (next name).relined f) :
    onKey? x' next' = (onKey? x next).map (relined f) := by
  rw [onKey?, h.token, funext hn, onKey?]
  cases x.token <;> rfl

/-- A token that is neither a semicolon nor a closing brace, one case for each reading. -/
theorem advance?_relined (h : x.Moves f x') (r : Reading) :
    (r.relined f).advance? x' = (r.advance? x).map (relined f) := by
  cases r with
  | statement body => exact beginStatement?_relined h body
  | operand gap => exact beginOperand?_relined h gap
  | suffix place phrase last => exact continueOperand?_relined h place phrase last
  | field | declaration | nextParameter => exact onName?_relined h fun _ => rfl
  | key => exact onKey?_relined h fun _ => rfl
  | colon | declared | choice | named => exact onMark?_relined h _ rfl
  | result line body => exact beginOperand?_relined h (Place.result line body).gap
  | arguments place phrase callee line =>
      have hargument := beginOperand?_relined h (Place.argument place phrase callee line []).gap
      rw [relined, advance?, h.token, advance?]
      split
      · rfl
      · exact hargument
  | condition line test site =>
      refine onMark?_relined h .openBrace ?_
      rw [h.line]
      rfl
  | consequence line test block site =>
      rw [relined, advance?, h.token, advance?]
      split
      · rfl
      · rw [Site.fillWithoutElse_relined]
        exact beginStatement?_relined h _
  | alternative line test block site =>
      rw [relined, advance?, h.token, h.line, advance?]
      split
      · rfl
      · exact onMark?_relined h .openBrace rfl
  | function line host =>
      rw [relined, advance?, h.token, advance?]
      cases x.token with
      | name => rfl
      | punctuation p =>
          cases p with
          | openParen => simp [relined, Host.anonymous_relined]
          | _ => rfl
      | _ => rfl
  | parameters | parameter =>
      rw [relined, advance?, h.token, advance?]
      cases x.token with
      | punctuation p => cases p <;> rfl
      | _ => rfl
  | header line name read host =>
      refine onMark?_relined h .openBrace ?_
      rw [h.line]
      rfl
  | afterFunction made line body =>
      have hcontinue := continueOperand?_relined h (.statement (some made) body) .empty
        ⟨[], .node made, line, []⟩
      have hbegin := beginStatement?_relined h (body.push made)
      rw [← Body.push_relined] at hbegin
      rw [relined, advance?, h.token, advance?]
      split
      · exact hcontinue
      · exact hbegin

/-- Reading one more token respects lines. -/
theorem step?_relined (h : x.Moves f x') (r : Reading) :
    (r.relined f).step? x' = (r.step? x).map (relined f) := by
  have hadvance := advance?_relined h r
  rw [step?, h.token, step?]
  cases x.token with
  | punctuation p =>
      cases p with
      | semicolon =>
          rw [finishStatement?_relined, Option.map_map, Option.map_map]
          rfl
      | closeBrace => exact closeBrace?_relined r
      | _ => exact hadvance
  | _ => exact hadvance

/-- Reading a row of tokens respects lines. -/
theorem readAll_relined {move : Lexeme → Lexeme} (h : ∀ x : Lexeme, x.Moves f (move x))
    {xs : List Lexeme} {r r' : Reading} (hr : r.readAll xs = .ok r') :
    (r.relined f).readAll (xs.map move) = .ok (r'.relined f) := by
  induction xs generalizing r with
  | nil =>
      obtain rfl := Except.ok.inj hr
      rfl
  | cons x rest ih =>
      rw [readAll] at hr
      rw [List.map_cons, readAll, step?_relined (h x)]
      cases hs : r.step? x with
      | none =>
          rw [hs] at hr
          cases hr
      | some next =>
          rw [hs] at hr
          exact ih hr

end

end Reading

/-! ### Programs -/

/-- What is read of a program, and what it is. -/
theorem exists_reading {source : String} {n : Node} (h : program source = .ok n) :
    ∃ r statements, Reading.start.readAll (scan source.toList).lexemes = .ok r ∧
      r.finish? = some statements ∧ n = .block statements (scan source.toList).line := by
  rcases hr : Reading.start.readAll (scan source.toList).lexemes with x | r
  · cases h.symm.trans (program_of_readAll_error source hr)
  cases hb : (scan source.toList).bad with
  | some bad => cases h.symm.trans (program_of_bad source hr hb)
  | none =>
      cases hf : r.finish? with
      | none => cases h.symm.trans (program_of_finish?_eq_none source hr hb hf)
      | some statements =>
          cases hd : (scan source.toList).lexemes.findSome? fun x => x.token.oversize? with
          | some digits => cases h.symm.trans (program_of_oversize? source hr hb hf hd)
          | none =>
              exact ⟨r, statements, rfl, hf,
                Except.ok.inj (h.symm.trans (program_of_finish? source hr hb hf hd))⟩

/-- Two readings of the same tokens end alike, lines aside. -/
theorem finish?_relined_eq {xs ys : List Lexeme} {r r' : Reading} {ns ns' : List Node}
    (ht : xs.map Lexeme.token = ys.map Lexeme.token) (hr : Reading.start.readAll xs = .ok r)
    (hr' : Reading.start.readAll ys = .ok r') (hf : r.finish? = some ns)
    (hf' : r'.finish? = some ns') :
    ns.map (Node.relined fun _ => 0) = ns'.map (Node.relined fun _ => 0) := by
  let still (x : Lexeme) : Lexeme := ⟨x.token, ⟨0, 0⟩⟩
  have hstill (x : Lexeme) : x.Moves (fun _ => 0) (still x) := ⟨rfl, rfl⟩
  have hlexemes : xs.map still = ys.map still := by
    have hmap := congrArg (List.map fun t : Token => (⟨t, ⟨0, 0⟩⟩ : Lexeme)) ht
    rwa [List.map_map, List.map_map] at hmap
  have hreading := Reading.readAll_relined hstill hr
  rw [hlexemes, Reading.readAll_relined hstill hr'] at hreading
  have hfinish := congrArg Reading.finish? (Except.ok.inj hreading)
  rw [Reading.finish?_relined, Reading.finish?_relined, hf, hf'] at hfinish
  exact (Option.some.inj hfinish).symm

/-- Texts with the same tokens are the same program, lines aside. -/
theorem relined_eq_of_tokens_eq {source source' : String} {n n' : Node}
    (h : program source = .ok n) (h' : program source' = .ok n')
    (ht : (scan source.toList).lexemes.map Lexeme.token =
      (scan source'.toList).lexemes.map Lexeme.token) :
    n.relined (fun _ => 0) = n'.relined fun _ => 0 := by
  obtain ⟨r, statements, hr, hs, rfl⟩ := exists_reading h
  obtain ⟨r', statements', hr', hs', rfl⟩ := exists_reading h'
  rw [Node.relined, Node.relined, Node.relinedAll_eq_map, Node.relinedAll_eq_map,
    finish?_relined_eq ht hr hr' hs hs']

end Scriptlet.Source
