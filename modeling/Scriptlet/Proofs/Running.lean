import Scriptlet.Proofs.Blocks

/-!
# How Expressions Are Read

The reader accepts every tree. What that says of a tree depends on its symbol: an expression is
read wherever an operand may begin, and leaves its row there; a named function leaves its node
with whatever hosts it. For each symbol the statement is one structure, with what the reader
makes of the tree, the same for every context; and the reader makes of it what the tree means
if the ties in it are settled (`Derivation.Settled`).

Every structure has one more field, `behind`, for the tie: an expression that begins with a
parenthesis or a minus sign is read as well behind an operand, as more of that operand's
expression. When the operand is taken away again, what remains is what the tree means.

## Main definitions

* `Reading.Runs`: reading tokens one by one.
* `Derivation.ReadsNamed`, `ReadsOperand`, `ReadsRow`, `ReadsExpression`: how a named function,
  an operand, a row of operators and an expression are read.

## Main results

* `ReadsOperand.suffixed`: fields and calls.
* `ReadsRow.binary`, `ReadsExpression.assign`, `ReadsExpression.assignField`: operators and
  assignments.
-/

namespace Scriptlet.Source

open Scriptlet.Text (Position)

/-! ### Runs -/

namespace Reading

variable {r r₁ r₂ next : Reading} {x : Lexeme} {xs ys : List Lexeme}

/-- Reading the tokens one by one takes the first reading to the second. -/
def Runs (r : Reading) (xs : List Lexeme) (r' : Reading) : Prop := r.readAll xs = .ok r'

/-- No tokens leave a reading as it is. -/
theorem Runs.nil (r : Reading) : r.Runs [] r := rfl

/-- One token, and then the others. -/
theorem Runs.cons (hs : r.step? x = some next) (h : next.Runs xs r₁) : r.Runs (x :: xs) r₁ := by
  rw [Runs, readAll, hs]
  exact h

/-- One token is a row. -/
theorem Runs.single (hs : r.step? x = some next) : r.Runs [x] next := .cons hs (.nil next)

/-- The run over a token and those behind it begins with a step. -/
theorem Runs.exists_step (h : r.Runs (x :: xs) r₁) :
    ∃ next, r.step? x = some next ∧ next.Runs xs r₁ := by
  rw [Runs, readAll] at h
  cases hs : r.step? x with
  | none => simp [hs] at h
  | some next =>
      rw [hs] at h
      exact ⟨next, rfl, h⟩

/-- Rows are read one after another. -/
theorem Runs.append (h : r.Runs xs r₁) (h' : r₁.Runs ys r₂) : r.Runs (xs ++ ys) r₂ := by
  induction xs generalizing r with
  | nil =>
      obtain rfl := Except.ok.inj h
      exact h'
  | cons x xs ih =>
      obtain ⟨next, hs, hn⟩ := h.exists_step
      exact .cons hs (ih hn)

/-- A row of tokens leads to one reading. -/
theorem Runs.unique (h₁ : r.Runs xs r₁) (h₂ : r.Runs xs r₂) : r₁ = r₂ :=
  Except.ok.inj (h₁.symm.trans h₂)

/-- A run over tokens and more behind them passes through what the first tokens lead to. -/
theorem Runs.behind (h : r.Runs (xs ++ ys) r₂) (h₁ : r.Runs xs r₁) : r₁.Runs ys r₂ := by
  induction xs generalizing r with
  | nil =>
      obtain rfl := Except.ok.inj h₁
      exact h
  | cons x xs ih =>
      obtain ⟨next, hs, hn⟩ := h.exists_step
      obtain ⟨next', hs', hn'⟩ := h₁.exists_step
      obtain rfl : next = next' := Option.some.inj (hs.symm.trans hs')
      exact ih hn hn'

/-- Readings that a first token takes to the same reading run alike. -/
theorem Runs.congr (hs : r₁.step? x = r₂.step? x) (h : r₁.Runs (x :: xs) next) :
    r₂.Runs (x :: xs) next := by
  obtain ⟨r', h₁, hr⟩ := h.exists_step
  exact .cons (hs ▸ h₁) hr

end Reading

/-- Only the first token counts. -/
theorem beginsEither_cons {x : Lexeme} {xs : List Lexeme} : BeginsEither (x :: xs) ↔
    x.token = .punctuation .openParen ∨ x.token = .operator .minus := by
  constructor
  · rintro ⟨y, rest, h, hy⟩
    obtain ⟨rfl, rfl⟩ := List.cons.inj h
    exact hy
  · exact fun h => ⟨x, xs, rfl, h⟩

namespace Derivation

variable {c c' : Symbol}

/-- What an expression begins with is what its first part begins with. -/
theorem beginsEither_of_append (d : Derivation c) (hc : c.isExpression = true)
    {ys : List Lexeme} (h : BeginsEither (d.lexemes ++ ys)) : BeginsEither d.lexemes := by
  obtain ⟨x, rest, hx, -⟩ := d.exists_lexemes_eq_cons hc
  exact h.of_append (List.ne_nil_of_length_pos (hx ▸ Nat.succ_pos _))

/-! ### What reading a tree comes to -/

/-- A named function leaves its node with its host. -/
def ReadsNamed (f : Derivation .named) : Prop :=
  ∃ n, (f.Settled → n = f.lower) ∧ ∀ (r : Reading) (host : Host),
    (∀ p, r.step? ⟨.keyword .wordFunction, p⟩ = some (.function (p : Position).line host)) →
    r.Runs f.lexemes (host.fill n f.line)

/-- An operand without minus signs takes the place of one. -/
structure ReadsOperand (d : Derivation c) : Prop where
  exists_operand : ∃ o : Operand, o.minuses = [] ∧ (d.Settled → o = d.lastOperand) ∧
    ∀ place phrase minuses, (Reading.operand (.mk place phrase minuses)).Runs d.lexemes
      (.suffix place phrase { o with minuses := minuses })
  behind : BeginsEither d.lexemes → ∀ o₀ : Operand, ∃ o : Operand, o.minuses = o₀.minuses ∧
    (d.Settled → o₀.suffixes = [] → o.behindFunction? = some d.lastOperand) ∧
    ∀ place phrase, (Reading.suffix place phrase o₀).Runs d.lexemes (.suffix place phrase o)
  leading : ∀ f, d.leading = some f → ReadsNamed f

/-- A row of operators adds its operands to those before it. Minus signs may stand before it
only if it is a single operand. -/
structure ReadsRow {l : Option Tightness} (d : Derivation (.row l)) : Prop where
  exists_row : ∃ (ts : List Term) (o : Operand), (d.Settled → ts = d.terms ∧ o = d.lastOperand) ∧
    ∀ place phrase minuses, l = none ∨ minuses = [] →
      (Reading.operand (.mk place phrase minuses)).Runs d.lexemes
        (.suffix place ⟨phrase.targets, ts ++ phrase.terms⟩
          { o with minuses := o.minuses ++ minuses })
  behind : BeginsEither d.lexemes → ∀ o₀ : Operand, ∃ (ts : List Term) (o : Operand),
    (d.Settled → o₀.suffixes = [] → (Phrase.row ⟨[], ts⟩ o).behindFunction? = some d.row) ∧
    ∀ place phrase, (Reading.suffix place phrase o₀).Runs d.lexemes
      (.suffix place ⟨phrase.targets, ts ++ phrase.terms⟩ o)
  leading : ∀ f, d.leading = some f → ReadsNamed f

/-- An expression leaves its row at its place, behind what is to be assigned there. -/
structure ReadsExpression (d : Derivation .expression) : Prop where
  exists_phrase : ∃ (phrase : Phrase) (o : Operand),
    (d.Settled → phrase = d.phrase ∧ o = d.lastOperand) ∧
    ∀ place targets, (Reading.operand (.mk place ⟨targets, []⟩ [])).Runs d.lexemes
      (.suffix place ⟨phrase.targets ++ targets, phrase.terms⟩ o)
  behind : BeginsEither d.lexemes → ∀ o₀ : Operand, o₀.minuses = [] →
    ∃ (phrase : Phrase) (o : Operand),
      (d.Settled → o₀.suffixes = [] → phrase.behindFunction? o = some d.lower) ∧ ∀ place,
      (Reading.suffix place .empty o₀).Runs d.lexemes (.suffix place phrase o)
  leading : ∀ f, d.leading = some f → ReadsNamed f

/-- Arguments between parentheses are a suffix of their callee. -/
def ReadsArguments (d : Derivation .arguments) : Prop :=
  ∃ ns, (d.Settled → ns = d.lower) ∧ ∀ place phrase callee line q,
    (Reading.arguments place phrase callee line).Runs
      (d.lexemes ++ [⟨.punctuation .closeParen, q⟩])
      (.suffix place phrase (callee.suffixed (.call ns line)))

/-- Expressions up to the parenthesis behind them, as arguments. -/
def ReadsExpressions (d : Derivation .expressions) : Prop :=
  ∃ ns : List Node, (d.Settled → ns = d.lower) ∧ ∀ place phrase callee line given q,
    (Reading.operand (Place.argument place phrase callee line given).gap).Runs
      (d.lexemes ++ [⟨.punctuation .closeParen, q⟩])
      (.suffix place phrase (callee.suffixed (.call (given.reverse ++ ns) line)))

/-- Where an expression may begin, it leaves a node. -/
theorem ReadsExpression.exists_node {d : Derivation .expression} (h : d.ReadsExpression) :
    ∃ (phrase : Phrase) (o : Operand), (d.Settled → phrase.node o = d.lower) ∧
      ∀ place : Place, (Reading.operand place.gap).Runs d.lexemes (.suffix place phrase o) := by
  obtain ⟨phrase, o, hexact, hr⟩ := h.exists_phrase
  refine ⟨phrase, o, fun ht => ?_, fun place => ?_⟩
  · obtain ⟨rfl, rfl⟩ := hexact ht
    exact d.node_phrase
  · have hrun := hr place []
    rw [List.append_nil] at hrun
    exact hrun

/-! ### Fields and calls -/

/-- Only an operand with suffixes can be taken apart. -/
theorem suffixes_ne_nil {o p : Operand} (h : o.behindFunction? = some p) : o.suffixes ≠ [] := by
  intro hs
  rw [Operand.behindFunction?, hs] at h
  cases h

/-- A suffix behind an operand. -/
theorem ReadsOperand.suffixed {d : Derivation c} {d' : Derivation c'} (h : d.ReadsOperand)
    (hc : c.isExpression = true) (s : Suffix) {xs : List Lexeme}
    (hx : d'.lexemes = d.lexemes ++ xs)
    (hs : ∀ place phrase o,
      (Reading.suffix place phrase o).Runs xs (.suffix place phrase (o.suffixed s)))
    (ht : d'.Settled → d.Settled ∧ d'.lastOperand = d.lastOperand.suffixed s)
    (hl : d'.leading = d.leading) : d'.ReadsOperand where
  exists_operand := by
    obtain ⟨o, hm, hexact, hr⟩ := h.exists_operand
    refine ⟨o.suffixed s, hm, fun h' => ?_, fun place phrase minuses => ?_⟩
    · obtain ⟨hd, ho⟩ := ht h'
      rw [ho, hexact hd]
    · rw [hx]
      exact (hr place phrase minuses).append (hs place phrase _)
  behind := by
    intro hb o₀
    rw [hx] at hb
    obtain ⟨o, hm, hexact, hr⟩ := h.behind (d.beginsEither_of_append hc hb) o₀
    refine ⟨o.suffixed s, hm, fun h' hs₀ => ?_, fun place phrase => ?_⟩
    · obtain ⟨hd, ho⟩ := ht h'
      have hbehind := hexact hd hs₀
      rw [behindFunction?_suffixed _ _ (suffixes_ne_nil hbehind), hbehind, ho]
      rfl
    · rw [hx]
      exact (hr place phrase).append (hs place phrase o)
  leading := fun f hf => h.leading f (hl ▸ hf)

/-- A dot and a name are a suffix. -/
theorem runs_field (d : Position) (n : String) (p : Position) (place : Place) (phrase : Phrase)
    (o : Operand) : (Reading.suffix place phrase o).Runs
      [⟨.punctuation .dot, d⟩, ⟨.name n, p⟩] (.suffix place phrase (o.suffixed (.field n))) :=
  .cons rfl (.single rfl)

/-- The head of an operand is one without a suffix. -/
theorem ReadsOperand.head {k : Derivation .primary} (h : k.ReadsOperand) :
    (Derivation.head k).ReadsOperand :=
  ⟨h.exists_operand, h.behind, h.leading⟩

/-- What is called is an operand. -/
theorem ReadsOperand.uncut {k : Derivation .callee} (h : k.ReadsOperand) :
    (Derivation.uncut k).ReadsOperand :=
  ⟨h.exists_operand, h.behind, h.leading⟩

/-- An operand with a field behind it. -/
theorem ReadsOperand.field {o : Derivation .operand} (h : o.ReadsOperand) (d : Position)
    (n : String) (p : Position) : (Derivation.field o d n p).ReadsOperand :=
  h.suffixed rfl _ rfl (runs_field d n p) (fun ht => ⟨ht, rfl⟩) rfl

/-- An operand with a call behind it. -/
theorem ReadsOperand.call {k : Derivation .callee} (h : k.ReadsOperand) (p : Position)
    {given : Derivation .arguments} (hg : given.ReadsArguments) (q : Position) :
    (Derivation.call k p given q).ReadsOperand := by
  obtain ⟨ns, hexact, hr⟩ := hg
  refine h.suffixed rfl (.call ns p.line) rfl (fun place phrase o => ?_) (fun ht => ?_) rfl
  · exact .cons rfl (hr place phrase o p.line q)
  · obtain ⟨hk, hgiven⟩ := List.forall_mem_append.mp ht
    exact ⟨hk, by rw [hexact hgiven]; rfl⟩

/-- An operand with a call of a method behind it. -/
theorem ReadsOperand.method {o : Derivation .operand} (h : o.ReadsOperand) (d : Position)
    (n : String) (p b : Position) {given : Derivation .arguments} (hg : given.ReadsArguments)
    (q : Position) : (Derivation.method o d n p b given q).ReadsOperand := by
  obtain ⟨ns, hexact, hr⟩ := hg
  have hx : (Derivation.method o d n p b given q).lexemes = (Derivation.field o d n p).lexemes ++
      ⟨.punctuation .openParen, b⟩ :: (given.lexemes ++ [⟨.punctuation .closeParen, q⟩]) := by
    simp [lexemes]
  refine (h.field d n p).suffixed rfl (.call ns b.line) hx (fun place phrase o => ?_)
    (fun ht => ?_) rfl
  · exact .cons rfl (hr place phrase o b.line q)
  · obtain ⟨ho, hgiven⟩ := List.forall_mem_append.mp ht
    exact ⟨ho, by rw [hexact hgiven]; rfl⟩

/-! ### Arguments -/

/-- A token that begins an operand ends nothing. -/
theorem step?_eq_advance? {r : Reading} {x : Lexeme} (h : x.token.beginsOperand = true) :
    r.step? x = r.advance? x := by
  obtain ⟨t, p⟩ := x
  cases t with
  | punctuation mark => cases mark <;> first | rfl | cases h
  | _ => rfl

/-- Where an operand may begin, an expression is read as it is where one must. -/
theorem runs_of_beginsOperand {d : Derivation c} (hc : c.isExpression = true) {gap : Gap}
    {r r' : Reading} (h : (Reading.operand gap).Runs d.lexemes r')
    (hr : ∀ x, x.token.beginsOperand = true → r.advance? x = Reading.beginOperand? gap x) :
    r.Runs d.lexemes r' := by
  obtain ⟨x, rest, hx, hb⟩ := d.exists_lexemes_eq_cons hc
  rw [hx] at h ⊢
  refine h.congr ?_
  rw [step?_eq_advance? hb, step?_eq_advance? hb, hr x hb]
  rfl

/-- The last argument, with the parenthesis behind it. -/
theorem ReadsExpression.oneExpression {e : Derivation .expression} (h : e.ReadsExpression) :
    (Derivation.oneExpression e).ReadsExpressions := by
  obtain ⟨phrase, o, hexact, hr⟩ := h.exists_node
  refine ⟨[phrase.node o], fun ht => ?_, fun place outer callee line given q => ?_⟩
  · rw [hexact ht]
    rfl
  · have hrun := (hr (.argument place outer callee line given)).append
      (Reading.Runs.single (x := ⟨.punctuation .closeParen, q⟩) rfl)
    rw [List.reverse_cons] at hrun
    exact hrun

/-- An argument and a comma, with more arguments behind them. -/
theorem ReadsExpression.moreExpressions {e : Derivation .expression} (h : e.ReadsExpression)
    (q : Position) {rest : Derivation .expressions} (h' : rest.ReadsExpressions) :
    (Derivation.moreExpressions e q rest).ReadsExpressions := by
  obtain ⟨phrase, o, hexact, hr⟩ := h.exists_node
  obtain ⟨ns, hexact', hr'⟩ := h'
  refine ⟨phrase.node o :: ns, fun ht => ?_, fun place outer callee line given q' => ?_⟩
  · obtain ⟨he, hrest⟩ := List.forall_mem_append.mp ht
    rw [hexact he, hexact' hrest]
    rfl
  · have hrest := hr' place outer callee line (phrase.node o :: given) q'
    rw [List.reverse_cons, List.append_assoc] at hrest
    rw [lexemes, List.append_assoc]
    exact (hr (.argument place outer callee line given)).append (.cons rfl hrest)

/-- Parentheses with no argument between them. -/
theorem readsArguments_noArguments : Derivation.noArguments.ReadsArguments :=
  ⟨[], fun _ => rfl, fun _ _ _ _ _ => .single rfl⟩

/-- Arguments between parentheses. -/
theorem ReadsExpressions.arguments {es : Derivation .expressions} (h : es.ReadsExpressions) :
    (Derivation.arguments es).ReadsArguments := by
  obtain ⟨ns, hexact, hr⟩ := h
  refine ⟨ns, hexact, fun place phrase callee line q => ?_⟩
  have hrun := hr place phrase callee line [] q
  obtain ⟨x, rest, hx, hb⟩ : ∃ x rest, es.lexemes = x :: rest ∧ x.token.beginsOperand = true := by
    cases es with
    | oneExpression e => exact e.exists_lexemes_eq_cons rfl
    | moreExpressions e q rest =>
        obtain ⟨x, xs, hx, hb⟩ := e.exists_lexemes_eq_cons rfl
        exact ⟨x, _, by rw [lexemes, hx]; rfl, hb⟩
  rw [hx] at hrun
  rw [lexemes, hx]
  refine Reading.Runs.congr ?_ hrun
  rw [step?_eq_advance? hb, step?_eq_advance? hb]
  obtain ⟨t, p⟩ := x
  cases t with
  | punctuation mark => cases mark <;> first | rfl | cases hb
  | _ => rfl

/-! ### What operands begin with -/

/-- A head of an operand that neither begins with a parenthesis nor is a named function. -/
theorem readsOperand_of_fill {k : Derivation .primary} (hd : Head) (line : Int)
    (hk : k.Settled → k.lastOperand = ⟨[], hd, line, []⟩)
    (hr : ∀ gap, (Reading.operand gap).Runs k.lexemes (gap.fill hd line))
    (hb : ¬BeginsEither k.lexemes) (hl : k.leading = none) : k.ReadsOperand where
  exists_operand := ⟨⟨[], hd, line, []⟩, rfl, fun ht => (hk ht).symm,
    fun place phrase minuses => hr (.mk place phrase minuses)⟩
  behind := fun h => absurd h hb
  leading := fun f hf => by simp [hl] at hf

/-- An integer is an operand. -/
theorem readsOperand_integer (digits : String) (p : Position) :
    (Derivation.integer digits p).ReadsOperand :=
  readsOperand_of_fill _ _ (fun _ => rfl) (fun _ => .single rfl)
    (by simp [lexemes, beginsEither_cons]) rfl

/-- A string is an operand. -/
theorem readsOperand_string (mark : Quote) (body : String) (p : Position) :
    (Derivation.string mark body p).ReadsOperand :=
  readsOperand_of_fill _ _ (fun _ => rfl) (fun _ => .single rfl)
    (by simp [lexemes, beginsEither_cons]) rfl

/-- A name is an operand. -/
theorem readsOperand_name (text : String) (p : Position) :
    (Derivation.name text p).ReadsOperand :=
  readsOperand_of_fill _ _ (fun _ => rfl) (fun _ => .single rfl)
    (by simp [lexemes, beginsEither_cons]) rfl

/-- An object literal without entries is an operand. -/
theorem readsOperand_emptyRecord (p q : Position) :
    (Derivation.emptyRecord p q).ReadsOperand :=
  readsOperand_of_fill _ _ (fun _ => rfl) (fun _ => .cons rfl (.single rfl))
    (by simp [lexemes, beginsEither_cons]) rfl

/-- Behind an operand, an expression between parentheses is the argument of a call. -/
theorem ReadsExpression.parentheses {e : Derivation .expression} (h : e.ReadsExpression)
    (p q : Position) : (Derivation.parentheses p e q).ReadsOperand where
  exists_operand := by
    obtain ⟨phrase, o, hexact, hr⟩ := h.exists_node
    refine ⟨⟨[], .node (phrase.node o), p.line, []⟩, rfl, fun ht => ?_,
      fun place outer minuses => ?_⟩
    · rw [hexact ht]
      rfl
    · exact .cons rfl ((hr (.parentheses p.line (.mk place outer minuses))).append (.single rfl))
  behind := by
    intro _ o₀
    obtain ⟨ns, hexact, hr⟩ := h.oneExpression.arguments
    refine ⟨o₀.suffixed (.call ns p.line), rfl, fun ht hs => ?_,
      fun place outer => .cons rfl (hr place outer o₀ p.line q)⟩
    have hns : ns = [e.lower] := hexact ht
    rw [Operand.behindFunction?, Operand.suffixed, hs, hns]
    rfl
  leading := nofun

/-- A named function in an expression. -/
theorem ReadsNamed.function {f : Derivation .named} (h : f.ReadsNamed) :
    (Derivation.function f).ReadsOperand where
  exists_operand := by
    obtain ⟨n, hexact, hr⟩ := h
    refine ⟨⟨[], .node n, f.line, []⟩, rfl, fun ht => ?_, fun place phrase minuses => ?_⟩
    · rw [hexact ht]
      rfl
    · exact hr _ (.operand (.mk place phrase minuses)) fun _ => rfl
  behind := by
    intro hb
    obtain ⟨w, n, p, o, rest, hx⟩ := f.lexemes_named
    rw [lexemes, hx, beginsEither_cons] at hb
    rcases hb with hb | hb <;> cases hb
  leading := by
    intro g hg
    obtain rfl := Option.some.inj hg
    exact h

/-! ### Operators -/

/-- An operand is a row by itself. -/
theorem ReadsOperand.bare {o : Derivation .operand} (h : o.ReadsOperand) :
    (Derivation.bare o).ReadsRow where
  exists_row := by
    obtain ⟨o', hm, hexact, hr⟩ := h.exists_operand
    refine ⟨[], o', fun ht => ⟨rfl, hexact ht⟩, fun place phrase minuses _ => ?_⟩
    rw [hm]
    exact hr place phrase minuses
  behind := by
    intro hb o₀
    obtain ⟨o', -, hexact, hr⟩ := h.behind hb o₀
    refine ⟨[], o', fun ht hs => ?_, hr⟩
    rw [Phrase.row, List.foldl_nil, Row.behindFunction?, hexact ht hs, row_of_none]
    rfl
  leading := h.leading

/-- A minus sign belongs to the operand behind it; behind an operand it is an operator. -/
theorem ReadsRow.minus {r : Derivation (.row none)} (h : r.ReadsRow) (p : Position) :
    (Derivation.minus p r).ReadsRow where
  exists_row := by
    obtain ⟨ts, o, hexact, hr⟩ := h.exists_row
    refine ⟨ts, o.negated p.line, fun ht => ?_, fun place phrase minuses _ => ?_⟩
    · obtain ⟨rfl, rfl⟩ := hexact ht
      exact ⟨r.terms_of_none, rfl⟩
    · have hrun := hr place phrase (p.line :: minuses) (.inl rfl)
      rw [← List.singleton_append, ← List.append_assoc] at hrun
      exact .cons rfl hrun
  behind := by
    intro _ o₀
    obtain ⟨ts, o, hexact, hr⟩ := h.exists_row
    refine ⟨ts ++ [⟨o₀, .minus, p.line⟩], o, fun ht hs => ?_, fun place phrase => ?_⟩
    · obtain ⟨rfl, rfl⟩ := hexact ht
      have hnone : o₀.behindFunction? = none := by rw [Operand.behindFunction?, hs]; rfl
      rw [r.terms_of_none, row_of_none]
      simp [Phrase.row, Row.behindFunction?, hnone, hs]
      rfl
    have hrun := hr place (phrase.push ⟨o₀, .minus, p.line⟩) [] (.inl rfl)
    rw [List.append_nil] at hrun
    rw [List.append_assoc]
    exact .cons rfl hrun
  leading := nofun

/-- A row of tighter operators is one of looser ones. -/
theorem ReadsRow.tighter {l : Tightness} {r : Derivation (.row l.tighter)} (h : r.ReadsRow) :
    (Derivation.tighter r).ReadsRow where
  exists_row := by
    obtain ⟨ts, o, hexact, hr⟩ := h.exists_row
    refine ⟨ts, o, hexact, fun place phrase minuses hm => hr place phrase minuses (.inr ?_)⟩
    exact hm.resolve_left (Option.some_ne_none l)
  behind := h.behind
  leading := h.leading

/-- Two rows with an operator between them, which goes before those in the left one. -/
theorem ReadsRow.binary {l : Tightness} {left : Derivation (.row (some l))}
    {right : Derivation (.row l.tighter)} (h : left.ReadsRow) (op : Operator)
    (hop : op.tightness = l) (p : Position) (h' : right.ReadsRow) :
    (Derivation.binary left op hop p right).ReadsRow where
  exists_row := by
    obtain ⟨ts, o, hexact, hr⟩ := h.exists_row
    obtain ⟨ts', o', hexact', hr'⟩ := h'.exists_row
    refine ⟨ts' ++ ⟨o, op, p.line⟩ :: ts, o', fun ht => ?_, fun place phrase minuses hm => ?_⟩
    · obtain ⟨hl, hright⟩ := List.forall_mem_append.mp ht
      obtain ⟨rfl, rfl⟩ := hexact hl
      obtain ⟨rfl, rfl⟩ := hexact' hright
      exact ⟨rfl, rfl⟩
    · obtain rfl := hm.resolve_left (Option.some_ne_none l)
      have hleft := hr place phrase [] (.inr rfl)
      rw [List.append_nil] at hleft
      have hright := hr' place (Phrase.push ⟨phrase.targets, ts ++ phrase.terms⟩
        ⟨o, op, p.line⟩) [] (.inr rfl)
      rw [List.append_assoc, List.cons_append]
      exact hleft.append (.cons rfl hright)
  behind := by
    intro hb o₀
    obtain ⟨ts, o, hexact, hr⟩ := h.behind (left.beginsEither_of_append rfl hb) o₀
    obtain ⟨ts', o', hexact', hr'⟩ := h'.exists_row
    refine ⟨ts' ++ ⟨o, op, p.line⟩ :: ts, o', fun ht hs => ?_, fun place phrase => ?_⟩
    · obtain ⟨hl, hright⟩ := List.forall_mem_append.mp ht
      obtain ⟨rfl, rfl⟩ := hexact' hright
      rw [row_append, row_binary]
      exact behindFunction?_append_of_eq_some (hexact hl hs) _ _
    have hright := hr' place (Phrase.push ⟨phrase.targets, ts ++ phrase.terms⟩
      ⟨o, op, p.line⟩) [] (.inr rfl)
    rw [List.append_nil] at hright
    rw [List.append_assoc, List.cons_append]
    exact (hr place phrase).append (.cons rfl hright)
  leading := h.leading

/-! ### Assignments -/

/-- A row is an expression without targets. -/
theorem ReadsRow.plain {r : Derivation (.row (some .equality))} (h : r.ReadsRow) :
    (Derivation.plain r).ReadsExpression where
  exists_phrase := by
    obtain ⟨ts, o, hexact, hr⟩ := h.exists_row
    refine ⟨⟨[], ts⟩, o, fun ht => ?_, fun place targets => ?_⟩
    · obtain ⟨rfl, rfl⟩ := hexact ht
      exact ⟨rfl, rfl⟩
    · have hrun := hr place ⟨targets, []⟩ [] (.inr rfl)
      rw [List.append_nil, List.append_nil] at hrun
      exact hrun
  behind := by
    intro hb o₀ _
    obtain ⟨ts, o, hexact, hr⟩ := h.behind hb o₀
    refine ⟨⟨[], ts⟩, o, fun ht hs => ?_, fun place => ?_⟩
    · rw [Phrase.behindFunction?, List.reverse_nil, hexact ht hs, Option.map_some, node_row]
      rfl
    · have hrun := hr place .empty
      rw [Phrase.empty, List.append_nil] at hrun
      exact hrun
  leading := h.leading

/-- An assignment to a name. -/
theorem ReadsExpression.assign {e : Derivation .expression} (h : e.ReadsExpression) (n : String)
    (p a : Position) : (Derivation.assign n p a e).ReadsExpression where
  exists_phrase := by
    obtain ⟨phrase, o, hexact, hr⟩ := h.exists_phrase
    refine ⟨⟨phrase.targets ++ [.name n p.line], phrase.terms⟩, o, fun ht => ?_,
      fun place targets => ?_⟩
    · obtain ⟨rfl, rfl⟩ := hexact ht
      exact ⟨rfl, rfl⟩
    · rw [List.append_assoc]
      exact .cons rfl (.cons rfl (hr place (.name n p.line :: targets)))
  behind := by
    intro hb
    rw [lexemes, beginsEither_cons] at hb
    rcases hb with hb | hb <;> cases hb
  leading := nofun

/-- An operand without minus signs. -/
theorem with_minuses {o : Operand} (hm : o.minuses = []) : { o with minuses := [] } = o := by
  rw [← hm]

/-- A field of an operand without minus signs can be assigned to. -/
theorem assign?_field (targets : List Target) {o : Operand} (hm : o.minuses = []) (n : String) :
    Phrase.assign? ⟨targets, []⟩ (o.suffixed (.field n)) = some ⟨.field o n :: targets, []⟩ := by
  obtain ⟨minuses, hd, line, suffixes⟩ := o
  subst hm
  rfl

/-- The equals sign behind a field. -/
theorem runs_assignField (d : Position) (n : String) (p a : Position) (place : Place)
    (targets : List Target) {o : Operand} (hm : o.minuses = []) :
    (Reading.suffix place ⟨targets, []⟩ o).Runs
      [⟨.punctuation .dot, d⟩, ⟨.name n, p⟩, ⟨.punctuation .assign, a⟩]
      (.operand (.mk place ⟨.field o n :: targets, []⟩ [])) := by
  refine .cons rfl (.cons rfl (.single ?_))
  show Option.map _ (Phrase.assign? ⟨targets, []⟩ (o.suffixed (.field n))) = _
  rw [assign?_field targets hm]
  rfl

/-- An assignment to a field. -/
theorem ReadsExpression.assignField {e : Derivation .expression} (h : e.ReadsExpression)
    {o : Derivation .operand} (ho : o.ReadsOperand) (d : Position) (n : String)
    (p a : Position) : (Derivation.assignField o d n p a e).ReadsExpression where
  exists_phrase := by
    obtain ⟨o', hm, hexact', hr'⟩ := ho.exists_operand
    obtain ⟨phrase, last, hexact, hr⟩ := h.exists_phrase
    refine ⟨⟨phrase.targets ++ [.field o' n], phrase.terms⟩, last, fun ht => ?_,
      fun place targets => ?_⟩
    · obtain ⟨ht', he⟩ := List.forall_mem_append.mp ht
      obtain rfl := hexact' ht'
      obtain ⟨rfl, rfl⟩ := hexact he
      exact ⟨rfl, rfl⟩
    · have hoperand := hr' place ⟨targets, []⟩ []
      rw [with_minuses hm] at hoperand
      rw [List.append_assoc]
      exact hoperand.append
        ((runs_assignField d n p a place targets hm).append (hr place (.field o' n :: targets)))
  behind := by
    intro hb o₀ hm₀
    obtain ⟨o', hm, hexact', hr'⟩ := ho.behind (o.beginsEither_of_append rfl hb) o₀
    obtain ⟨phrase, last, hexact, hr⟩ := h.exists_phrase
    refine ⟨⟨phrase.targets ++ [.field o' n], phrase.terms⟩, last, fun ht hs => ?_,
      fun place => (hr' place .empty).append ?_⟩
    · obtain ⟨ht', he⟩ := List.forall_mem_append.mp ht
      obtain ⟨rfl, rfl⟩ := hexact he
      rw [← node_phrase]
      simp [Phrase.behindFunction?, hexact' ht' hs]
      rfl
    exact (runs_assignField d n p a place [] (hm.trans hm₀)).append (hr place [.field o' n])
  leading := ho.leading

end Derivation

end Scriptlet.Source
