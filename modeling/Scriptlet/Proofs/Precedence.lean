import Scriptlet.Proofs.Grammar

/-!
# Expressions as They Are Written, and Precedence

An expression is read as a row: what is to be assigned, the operands with their operators, and
the last operand (`Scriptlet.Source.Phrase`). Here every derivation tree of an expression is
turned into the row that it spells (`Derivation.phrase`, `Derivation.lastOperand`), and grouping the
row is shown to give back what the tree means. So precedence and associativity, which the
grammar builds into its symbols and the reader leaves to `groupAll`, are the same thing.

The key step is that grouping the operators of one tightness never reaches across an operator
of another (`group_append`): grouping a row up to some tightness goes piece by piece between
the looser operators.

## Main results

* `Derivation.isOperand_lastOperand`: the node of an operand is what its tree means.
* `Derivation.groupUpTo_row`: a row of operators groups to what its tree means.
* `Derivation.node_phrase`: so does an expression with its assignments.
-/

namespace Scriptlet.Source

open Scriptlet.Text (Position)

/-! ### The first token of an expression -/

/-- Whether an operand can begin with a token. -/
def Token.beginsOperand : Token → Bool
  | name _ | integer _ | string _ _ | operator .minus | punctuation .openParen
  | punctuation .openBrace | keyword .wordFunction => true
  | _ => false

/-- The symbols for expressions and their parts. -/
def Symbol.isExpression : Symbol → Bool
  | expression | row _ | operand | callee | primary => true
  | _ => false

namespace Derivation

variable {c : Symbol}

/-- The line of a tree is that of its first token. -/
theorem line_eq {d : Derivation c} {x : Lexeme} {rest : List Lexeme}
    (h : d.lexemes = x :: rest) : d.line = x.line := by
  simp [line, h]

/-- A named function begins with the keyword, its name and a parenthesis. -/
theorem lexemes_named (f : Derivation .named) :
    ∃ w n p o rest, f.lexemes = ⟨.keyword .wordFunction, w⟩ :: ⟨.name n, p⟩ ::
      ⟨.punctuation .openParen, o⟩ :: rest := by
  cases f with
  | named w n p o ps q body => exact ⟨w, n, p, o, _, rfl⟩

/-- An expression begins with a token that can begin an operand. -/
theorem exists_lexemes_eq_cons (d : Derivation c) (hc : c.isExpression = true) :
    ∃ x rest, d.lexemes = x :: rest ∧ x.token.beginsOperand = true := by
  induction d with
  | plain _ ih | tighter _ ih | bare _ ih | uncut _ ih | head _ ih => exact ih rfl
  | assignField _ _ _ _ _ _ ih _ | binary _ _ _ _ _ ih _ | field _ _ _ _ ih
  | call _ _ _ _ ih _ | method _ _ _ _ _ _ _ ih _ =>
      obtain ⟨x, rest, h, hx⟩ := ih rfl
      exact ⟨x, _, by rw [lexemes, h]; rfl, hx⟩
  | function f =>
      obtain ⟨w, n, p, o, rest, h⟩ := f.lexemes_named
      exact ⟨_, _, h, rfl⟩
  | assign | minus | integer | string | name | parentheses | emptyRecord | record | lambda =>
      exact ⟨_, _, rfl, rfl⟩
  | _ => cases hc

/-! ### The row that a tree spells -/

/-- The last operand of an expression. -/
def lastOperand {c : Symbol} : Derivation c → Operand
  | plain r => r.lastOperand
  | assign _ _ _ e => e.lastOperand
  | assignField _ _ _ _ _ e => e.lastOperand
  | tighter r => r.lastOperand
  | binary _ _ _ _ right => right.lastOperand
  | bare o => o.lastOperand
  | minus p r => r.lastOperand.negated p.line
  | uncut c => c.lastOperand
  | field o _ n _ => o.lastOperand.suffixed (.field n)
  | head h => h.lastOperand
  | call c p given _ => c.lastOperand.suffixed (.call given.lower p.line)
  | method o _ n _ b given _ =>
    (o.lastOperand.suffixed (.field n)).suffixed (.call given.lower b.line)
  | integer digits p => ⟨[], .node (integer digits p).lower, p.line, []⟩
  | string mark body p => ⟨[], .node (string mark body p).lower, p.line, []⟩
  | name text p => ⟨[], .name text, p.line, []⟩
  | parentheses p e _ => ⟨[], .node e.lower, p.line, []⟩
  | emptyRecord p q => ⟨[], .node (emptyRecord p q).lower, p.line, []⟩
  | record p ms q => ⟨[], .node (record p ms q).lower, p.line, []⟩
  | function f => ⟨[], .node f.lower, f.line, []⟩
  | lambda w p ps q body => ⟨[], .node (lambda w p ps q body).lower, w.line, []⟩
  | _ => ⟨[], .node default, 0, []⟩

/-- The operands of an expression that have an operator behind them, the last first. -/
def terms {c : Symbol} : Derivation c → List Term
  | plain r => r.terms
  | assign _ _ _ e => e.terms
  | assignField _ _ _ _ _ e => e.terms
  | tighter r => r.terms
  | binary left op _ p right => right.terms ++ ⟨left.lastOperand, op, p.line⟩ :: left.terms
  | _ => []

@[simp] theorem terms_plain (r : Derivation (.row (some .equality))) :
    (plain r).terms = r.terms := rfl

@[simp] theorem terms_assign (n : String) (p a : Position) (e : Derivation .expression) :
    (assign n p a e).terms = e.terms := rfl

@[simp] theorem terms_assignField (o : Derivation .operand) (d : Position) (n : String)
    (p a : Position) (e : Derivation .expression) :
    (assignField o d n p a e).terms = e.terms := rfl

@[simp] theorem terms_binary {l : Tightness} (left : Derivation (.row (some l))) (op : Operator)
    (hop : op.tightness = l) (p : Position) (right : Derivation (.row l.tighter)) :
    (binary left op hop p right).terms =
      right.terms ++ ⟨left.lastOperand, op, p.line⟩ :: left.terms := rfl

/-- What an expression assigns, the last first. -/
def targets {c : Symbol} : Derivation c → List Target
  | assign n p _ e => e.targets ++ [.name n p.line]
  | assignField o _ n _ _ e => e.targets ++ [.field o.lastOperand n]
  | _ => []

@[simp] theorem targets_plain (r : Derivation (.row (some .equality))) :
    (plain r).targets = [] := rfl

@[simp] theorem targets_assign (n : String) (p a : Position) (e : Derivation .expression) :
    (assign n p a e).targets = e.targets ++ [.name n p.line] := rfl

@[simp] theorem targets_assignField (o : Derivation .operand) (d : Position) (n : String)
    (p a : Position) (e : Derivation .expression) :
    (assignField o d n p a e).targets = e.targets ++ [.field o.lastOperand n] := rfl

/-- An expression without its last operand. -/
def phrase (d : Derivation c) : Phrase := ⟨d.targets, d.terms⟩

/-- The operands of an expression with the operators between them. -/
def row (d : Derivation c) : Row := d.phrase.row d.lastOperand

end Derivation

/-! ### Fields and calls -/

/-- Whether suffixes can be told from those behind them: a call behind a field belongs to it. -/
def Apart (ss ts : List Suffix) : Prop :=
  (∀ name, ss.getLast? ≠ some (.field name)) ∨ ∀ arguments l rest, ts ≠ .call arguments l :: rest

/-- Rows of suffixes that are apart stay so without a first suffix. -/
theorem Apart.tail {s : Suffix} {ss ts : List Suffix} (h : Apart (s :: ss) ts) : Apart ss ts := by
  rcases h with h | h
  · left
    intro name hname
    refine h name ?_
    rw [List.getLast?_cons, hname]
    rfl
  · exact .inr h

/-- A node is extended by suffixes in one go or in two. -/
theorem extend_append (line : Int) (n : Node) {ss ts : List Suffix} (h : Apart ss ts) :
    extend line n (ss ++ ts) = extend line (extend line n ss) ts := by
  fun_induction extend line n ss with
  | case1 => rfl
  | case2 n name arguments l rest ih =>
      have hrest := ih h.tail.tail
      simpa [extend] using hrest
  | case3 n name rest hrest ih =>
      have ih := ih h.tail
      cases rest with
      | cons s rest =>
          cases s with
          | field => simpa [extend] using ih
          | call arguments l => exact absurd rfl (hrest arguments l rest)
      | nil =>
          have hts := h.resolve_left fun hlast => hlast name rfl
          cases ts with
          | nil => rfl
          | cons t ts =>
              cases t with
              | field => rfl
              | call arguments l => exact absurd rfl (hts arguments l ts)
  | case4 n arguments l rest ih =>
      have hrest := ih h.tail
      simpa [extend] using hrest

namespace Derivation

/-- What an operand begins with is its head, without minus signs or anything behind it. -/
theorem lastOperand_primary (h : Derivation .primary) :
    ∃ hd, h.lastOperand = ⟨[], hd, h.line, []⟩ ∧ hd.toNode h.line = h.lower := by
  cases h with
  | function f => exact ⟨_, rfl, rfl⟩
  | _ => exact ⟨_, rfl, rfl⟩

/-- The line of a tree is that of what it begins with. -/
theorem line_eq_of_append {c' : Symbol} {d : Derivation c} {e : Derivation c'}
    (hc : c.isExpression = true) {rest : List Lexeme} (h : e.lexemes = d.lexemes ++ rest) :
    e.line = d.line := by
  obtain ⟨x, xs, hx, -⟩ := d.exists_lexemes_eq_cons hc
  rw [line_eq hx, line_eq (h.trans (by rw [hx]; rfl))]

/-- A callee has no minus sign before it and no field at its end, and its node is what it
means. -/
structure IsCallee (o : Operand) (d : Derivation .callee) : Prop where
  minuses : o.minuses = []
  line : o.line = d.line
  bare : o.bare = d.lower
  noField : ∀ name, o.suffixes.head? ≠ some (.field name)

/-- An operand has no minus sign before it, and its node is what it means. -/
structure IsOperand (o : Operand) (d : Derivation .operand) : Prop where
  minuses : o.minuses = []
  line : o.line = d.line
  bare : o.bare = d.lower

mutual

/-- A callee is what comes at its own end. -/
theorem isCallee_lastOperand : (d : Derivation .callee) → IsCallee d.lastOperand d
  | head h => by
      obtain ⟨hd, hl, hn⟩ := h.lastOperand_primary
      have hline : (head h).line = h.line := rfl
      constructor <;> simp only [lastOperand, hl, hline]
      · exact hn
      · simp
  | call c p given q => by
      have ih := c.isCallee_lastOperand
      have hline : (call c p given q).line = c.line := line_eq_of_append rfl rfl
      refine ⟨ih.minuses, hline ▸ ih.line, ?_, by simp [lastOperand, Operand.suffixed]⟩
      have hb := ih.bare
      rw [Operand.bare] at hb
      have hapart : Apart c.lastOperand.suffixes.reverse [.call given.lower p.line] :=
        .inl (by simpa using ih.noField)
      rw [lastOperand, Operand.bare, Operand.suffixed, List.reverse_cons, extend_append _ _ hapart,
        hb, ih.line]
      rfl
  | method o d n p b given q => by
      have ih := o.isOperand_lastOperand
      have hline : (method o d n p b given q).line = o.line := line_eq_of_append rfl rfl
      refine ⟨ih.minuses, hline ▸ ih.line, ?_, by simp [lastOperand, Operand.suffixed]⟩
      have hb := ih.bare
      rw [Operand.bare] at hb
      have hapart : Apart o.lastOperand.suffixes.reverse [.field n, .call given.lower b.line] :=
        .inr nofun
      rw [lastOperand, Operand.bare, Operand.suffixed, Operand.suffixed, List.reverse_cons,
        List.reverse_cons, List.append_assoc, List.singleton_append, extend_append _ _ hapart, hb,
        ih.line]
      rfl

/-- The node of an operand is what its tree means. -/
theorem isOperand_lastOperand : (d : Derivation .operand) → IsOperand d.lastOperand d
  | uncut c => by
      have ih := c.isCallee_lastOperand
      exact ⟨ih.minuses, ih.line, ih.bare⟩
  | field o d n p => by
      have ih := o.isOperand_lastOperand
      have hline : (field o d n p).line = o.line := line_eq_of_append rfl rfl
      refine ⟨ih.minuses, hline ▸ ih.line, ?_⟩
      have hb := ih.bare
      rw [Operand.bare] at hb
      have hapart : Apart o.lastOperand.suffixes.reverse [.field n] := .inr nofun
      rw [lastOperand, Operand.bare, Operand.suffixed, List.reverse_cons, extend_append _ _ hapart,
        hb, ih.line]
      rfl

end

end Derivation

/-! ### Operators -/

/-- Grouping never reaches across an operator of another tightness: what stands before it and
what stands behind it are grouped apart. -/
theorem group_append {l : Tightness} {op : Operator} (hop : op.tightness ≠ l) (a b : Spot)
    (xs ys : List (Operator × Spot)) :
    group l a (xs ++ (op, b) :: ys) =
      ((group l a xs).1, (group l a xs).2 ++ (op, (group l b ys).1) :: (group l b ys).2) := by
  induction xs generalizing a with
  | nil => simp [group, hop]
  | cons x xs ih =>
      by_cases hx : x.1.tightness = l
      · simp [group, hx, ih]
      · simp [group, hx, ih]

/-- An operator behind a row that groups to one spot takes that spot for its left operand. -/
theorem group_concat {l : Tightness} {op : Operator} (hop : op.tightness = l) {a b : Spot}
    {xs : List (Operator × Spot)} (h : group l a xs = (b, [])) (s : Spot) :
    group l a (xs ++ [(op, s)]) = (b.combine op s, []) := by
  induction xs generalizing a with
  | nil =>
      obtain rfl : a = b := by simpa [group] using h
      simp [group, hop]
  | cons x xs ih =>
      by_cases hx : x.1.tightness = l
      · simp only [group, hx, if_true] at h
        simp only [List.cons_append, group, hx, if_true]
        exact ih h
      · simp [group, hx] at h

/-- Groups the operators of one tightness. -/
def groupAt (l : Tightness) (r : Spot × List (Operator × Spot)) : Spot × List (Operator × Spot) :=
  group l r.1 r.2

/-- Groups the operators of a tightness and of all that are tighter, the tightest first. -/
def groupUpTo : Option Tightness → Spot × List (Operator × Spot) → Spot × List (Operator × Spot)
  | none, r => r
  | some .product, r => groupAt .product r
  | some .sum, r => groupAt .sum (groupAt .product r)
  | some .comparison, r => groupAt .comparison (groupAt .sum (groupAt .product r))
  | some .equality, r =>
    groupAt .equality (groupAt .comparison (groupAt .sum (groupAt .product r)))

/-- Grouping up to a level is grouping at this level what was grouped below. -/
theorem groupUpTo_some (l : Tightness) (r : Spot × List (Operator × Spot)) :
    groupUpTo (some l) r = groupAt l (groupUpTo l.tighter r) := by
  cases l <;> rfl

/-- Grouping everything is grouping up to the loosest level. -/
theorem groupAll_eq (a : Spot) (xs : List (Operator × Spot)) :
    groupAll a xs = (groupUpTo (some .equality) (a, xs)).1 := rfl

/-- Grouping up to some tightness never reaches across a looser operator. -/
theorem groupUpTo_append {l : Tightness} {op : Operator} (hop : op.tightness = l) (a b : Spot)
    (xs ys : List (Operator × Spot)) :
    groupUpTo l.tighter (a, xs ++ (op, b) :: ys) =
      ((groupUpTo l.tighter (a, xs)).1, (groupUpTo l.tighter (a, xs)).2 ++
        (op, (groupUpTo l.tighter (b, ys)).1) :: (groupUpTo l.tighter (b, ys)).2) := by
  cases l <;> simp [Tightness.tighter, groupUpTo, groupAt, group_append, hop]

/-! ### Rows -/

/-- The operators of a row, each with the place of the operand behind it. -/
def Row.spots (r : Row) : List (Operator × Spot) :=
  r.steps.map fun s => (s.operator, s.operand.spot)

/-- A row with more operands before it. -/
theorem foldl_terms (ts : List Term) (o : Operand) (steps : List Step) (targets : List Target) :
    ts.foldl (fun r t => (⟨t.operand, ⟨t.operator, t.line, r.first⟩ :: r.steps⟩ : Row))
        ⟨o, steps⟩ =
      ⟨(Phrase.row ⟨targets, ts⟩ o).first, (Phrase.row ⟨targets, ts⟩ o).steps ++ steps⟩ := by
  have h (rs : List Term) (r : Row) :
      rs.foldl (fun r t => (⟨t.operand, ⟨t.operator, t.line, r.first⟩ :: r.steps⟩ : Row))
          ⟨r.first, r.steps ++ steps⟩ =
        let r' := rs.foldl
          (fun r t => (⟨t.operand, ⟨t.operator, t.line, r.first⟩ :: r.steps⟩ : Row)) r
        ⟨r'.first, r'.steps ++ steps⟩ := by
    induction rs generalizing r with
    | nil => rfl
    | cons t rs ih => exact ih ⟨t.operand, ⟨t.operator, t.line, r.first⟩ :: r.steps⟩
  exact h ts ⟨o, []⟩

/-- The row of a phrase that goes on behind an operator. -/
theorem row_append (targets : List Target) (ts us : List Term) (t : Term) (o : Operand) :
    Phrase.row ⟨targets, us ++ t :: ts⟩ o =
      ⟨(Phrase.row ⟨targets, ts⟩ t.operand).first, (Phrase.row ⟨targets, ts⟩ t.operand).steps ++
        ⟨t.operator, t.line, (Phrase.row ⟨targets, us⟩ o).first⟩ ::
          (Phrase.row ⟨targets, us⟩ o).steps⟩ := by
  show List.foldl _ _ (us ++ t :: ts) = _
  rw [List.foldl_append, List.foldl_cons]
  exact foldl_terms ts t.operand _ targets

namespace Derivation

variable {c : Symbol}

/-- The row of a binary operation is that of its left side, the operator, and the row of its
right side. -/
theorem row_binary {l : Tightness} (left : Derivation (.row (some l))) (op : Operator)
    (hop : op.tightness = l) (p : Position) (right : Derivation (.row l.tighter)) :
    (binary left op hop p right).row =
      ⟨left.row.first, left.row.steps ++ ⟨op, p.line, right.row.first⟩ :: right.row.steps⟩ :=
  row_append [] left.terms right.terms ⟨left.lastOperand, op, p.line⟩ right.lastOperand

/-- An operand with a minus sign before it is subtracted from zero. -/
theorem spot_negated (o : Operand) (line : Int) :
    (o.negated line).spot = ⟨negation o.node line, line⟩ := by
  simp [Operand.spot, Operand.node, Operand.start, Operand.negated, Operand.bare]

/-- A tree that binds tightest has one operand. -/
theorem terms_of_none (d : Derivation (.row none)) : d.terms = [] := by
  cases d <;> rfl

/-- An operand with its minus signs means its node. -/
theorem spot_lastOperand : (d : Derivation (.row none)) → d.lastOperand.spot = ⟨d.lower, d.line⟩
  | bare o => by
      have ho := o.isOperand_lastOperand
      show Operand.spot o.lastOperand = _
      simp only [Operand.spot, Operand.node, Operand.start, ho.minuses, ho.line, ho.bare]
      rfl
  | minus p r => by
      have ih : r.lastOperand.node = r.lower := congrArg Spot.node r.spot_lastOperand
      show (r.lastOperand.negated p.line).spot = _
      rw [spot_negated, ih]
      rfl

/-- A row of operators groups to what its tree means. -/
theorem groupUpTo_row : {l : Option Tightness} → (d : Derivation (.row l)) →
    groupUpTo l (d.row.first.spot, d.row.spots) = (⟨d.lower, d.line⟩, [])
  | none, d => by
      have hrow : d.row = ⟨d.lastOperand, []⟩ := by simp [row, phrase, Phrase.row, terms_of_none]
      rw [hrow, ← spot_lastOperand]
      rfl
  | some _, tighter r => by
      rw [groupUpTo_some]
      show groupAt _ (groupUpTo _ (r.row.first.spot, r.row.spots)) = _
      rw [r.groupUpTo_row]
      rfl
  | some l, binary left op hop p right => by
      have ihl := left.groupUpTo_row
      have ihr := right.groupUpTo_row
      have hline : (binary left op hop p right).line = left.line := line_eq_of_append rfl rfl
      rw [groupUpTo_some] at ihl ⊢
      rw [row_binary]
      simp only [Row.spots, List.map_append, List.map_cons] at ihl ihr ⊢
      rw [groupUpTo_append hop, ihr, groupAt, group_concat hop ihl, hline]
      rfl

/-- The node of a row of operators is what its tree means. -/
theorem node_row (d : Derivation (.row (some .equality))) : d.row.node = d.lower := by
  show (groupAll d.row.first.spot d.row.spots).node = _
  rw [groupAll_eq, groupUpTo_row]

/-- Targets are assigned to in one go or in two. -/
theorem assignAll_append (ts us : List Target) (n : Node) :
    Phrase.assignAll (ts ++ us) n = Phrase.assignAll us (Phrase.assignAll ts n) := by
  simp [Phrase.assignAll]

/-- The node of an expression is what its tree means. -/
theorem node_phrase : (d : Derivation .expression) → d.phrase.node d.lastOperand = d.lower
  | plain r => r.node_row
  | assign n p a e => by
      have ih := e.node_phrase
      show Phrase.assignAll (e.targets ++ [.name n p.line]) (e.phrase.row e.lastOperand).node = _
      rw [assignAll_append]
      show Phrase.assignAll _ (e.phrase.node e.lastOperand) = _
      rw [ih]
      rfl
  | assignField o d n p a e => by
      have ih := e.node_phrase
      have ho := o.isOperand_lastOperand
      show Phrase.assignAll (e.targets ++ [.field o.lastOperand n])
        (e.phrase.row e.lastOperand).node = _
      rw [assignAll_append]
      show Phrase.assignAll _ (e.phrase.node e.lastOperand) = _
      rw [ih]
      show Node.assignField o.lastOperand.bare n e.lower o.lastOperand.line = _
      rw [ho.bare, ho.line]
      rfl

end Derivation

end Scriptlet.Source
