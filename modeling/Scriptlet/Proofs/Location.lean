import Scriptlet.Proofs.Fields
import Scriptlet.Proofs.Language

/-!
# Where Nodes Are Written

Every node of a program that was read has a text of its own among the tokens, and its line is the
line on which that text begins. `Worded` says which tokens are the text of which node. The text of
an operation, a call or a field begins with its first operand, the parentheses around the operand
included; parentheses around the node itself are no part of its own text. A node that nothing is
written for has the line of the node that it was made for, and the block around a choice behind
`else` has the line of that choice.

Tokens stand in the text from top to bottom, so no node is above the nodes that it is in.

## Main definitions

* `Node.Contains`, `Node.Supplies`: the nodes in a node, and those that nothing is written for.
* `Source.Wording`, `Source.Worded`: what tokens are the text of.
* `Source.Placed`: a node has a text, or a node with a text supplies it.

## Main results

* `Node.induction_children`: induction over the nodes below a node.
* `Source.Derivation.worded_lower`: a tree spells the text of what it means.
* `Source.Worded.own_line`: a node has the line on which its own text begins.
* `Source.Worded.hasText_or_supplies`: what stands below a node has a text, or is supplied.
* `Source.downward_scan`: tokens stand in a text from top to bottom.
* `Source.line_of_program`: the lines of all nodes of a program.
-/

namespace Scriptlet

/-! ### Nodes in nodes -/

namespace Node

/-- The nodes right below a node. A node that a literal holds is a value, and not one of them. -/
def children : Node → List Node
  | block statements _ => statements
  | literal .. | name .. => []
  | call callee arguments _ => callee :: arguments
  | assign _ value _ _ => [value]
  | function _ _ body _ => [body]
  | giveBack value _ => [value]
  | branch condition consequence alternative _ => [condition, consequence, alternative]
  | record entries _ => entries.map Prod.snd
  | field receiver _ _ => [receiver]
  | assignField receiver _ value _ => [receiver, value]
  | callMethod receiver _ arguments _ => receiver :: arguments

/-- A child of a node is inside one of its fields. -/
theorem exists_field_of_child {n m : Node} (h : m ∈ n.children) :
    ∃ f ∈ n.fields, m ∈ f.inside := by
  cases n <;> simp_all [children, fields, Field.inside]

/-- What holds of a node if it holds of the nodes right below it, holds of every node. -/
theorem induction_children {P : Node → Prop}
    (h : ∀ n : Node, (∀ m ∈ n.children, P m) → P n) (n : Node) : P n := by
  induction n using induction_inside with
  | ind n ih =>
      refine h n fun m hm => ?_
      obtain ⟨f, hf, hmem⟩ := exists_field_of_child hm
      exact ih f hf m hmem

/-- Whether a node is another one or in it, at any depth; the bodies of functions count. -/
inductive Contains : Node → Node → Prop
  | self {n : Node} : n.Contains n
  | child {n c m : Node} (hc : c ∈ n.children) (h : c.Contains m) : n.Contains m

/-- What is in a part of a node is in the node. -/
theorem Contains.trans {n m k : Node} (h : n.Contains m) (hk : m.Contains k) : n.Contains k := by
  induction h with
  | self => exact hk
  | child hc _ ih => exact .child hc (ih hk)

/-- A node below another one is the child of one that is in it. -/
theorem Contains.exists_parent {n m : Node} (h : n.Contains m) :
    m = n ∨ ∃ parent : Node, n.Contains parent ∧ m ∈ parent.children := by
  induction h with
  | self => exact .inl rfl
  | child hc _ ih =>
      rcases ih with rfl | ⟨parent, hparent, hm⟩
      · exact .inr ⟨_, .self, hc⟩
      · exact .inr ⟨parent, .child hc hparent, hm⟩

/-- What a node has below it although nothing was written for it, or, for a choice behind `else`,
no braces were. -/
inductive Supplies : Node → Node → Prop
  /-- An operation has a name for its operator. -/
  | symbol {op : Operator} {operands : List Node} {line : Int} :
      Supplies (.operation op.symbol operands line) (.name op.symbol line)
  /-- A minus sign with one operand takes it from zero. -/
  | zero {n : Node} {line : Int} :
      Supplies (.operation Operator.minus.symbol [.constant (.integer 0) line, n] line)
        (.constant (.integer 0) line)
  | returned {line : Int} :
      Supplies (.giveBack (.constant .undefined line) line) (.constant .undefined line)
  | declared {x : String} {line : Int} :
      Supplies (.assign x (.constant .undefined line) true line) (.constant .undefined line)
  /-- A choice without `else`. -/
  | noElse {test consequence : Node} {line : Int} :
      Supplies (.branch test consequence (.block [] line) line) (.block [] line)
  /-- A choice behind `else` stands in a block, which has the line of that choice. -/
  | elseChoice {test consequence inner : Node} {line : Int} :
      Supplies (.branch test consequence (.block [inner] inner.line) line)
        (.block [inner] inner.line)

/-- What is supplied supplies nothing. -/
theorem Supplies.not_supplies {n m c : Node} (h : n.Supplies m) : ¬m.Supplies c := by
  intro hm
  cases h <;> cases hm

/-- A supplied node has the line of what stands below it, if anything does. -/
theorem Supplies.line_eq {n m c : Node} (h : n.Supplies m) (hc : c ∈ m.children) :
    c.line = m.line := by
  cases h with
  | symbol | zero | returned | declared | noElse => cases hc
  | elseChoice =>
      obtain rfl := List.mem_singleton.mp hc
      rfl

/-- Whether no node in a node is above a node that it is in. -/
def Descends (n : Node) : Prop := ∀ m, n.Contains m → ∀ k, m.Contains k → m.line ≤ k.line

end Node

namespace Source

open Scriptlet.Text (Position)

/-! ### The text of a node -/

/-- The line of the first of some tokens; zero if there are none. -/
def firstLine (xs : List Lexeme) : Int := (xs.head?.map Lexeme.line).getD 0

/-- What a stretch of a program can be the text of. -/
inductive Wording
  /-- A node, without the parentheses around it. -/
  | own (n : Node)
  /-- A node, with all parentheses around it. -/
  | whole (n : Node)
  /-- Nodes one behind another. -/
  | row (ns : List Node)
  /-- Entries of an object literal, one behind another. -/
  | entries (es : List (String × Node))
  /-- The second branch of a choice on the given line. -/
  | otherwise (line : Int) (n : Node)

/-- Whether tokens are the text of something. -/
inductive Worded : Wording → List Lexeme → Prop
  -- a node may stand between parentheses
  | bare {n : Node} {xs : List Lexeme} (h : Worded (.own n) xs) : Worded (.whole n) xs
  | parentheses {n : Node} {xs : List Lexeme} {p q : Position} (h : Worded (.whole n) xs) :
      Worded (.whole n) (⟨.punctuation .openParen, p⟩ :: (xs ++ [⟨.punctuation .closeParen, q⟩]))
  -- statements, with semicolons between them, and arguments, with commas
  | nothing : Worded (.row []) []
  | mark {m : Punctuation} {p : Position} {ns : List Node} {xs : List Lexeme}
      (hm : m = .semicolon ∨ m = .comma) (h : Worded (.row ns) xs) :
      Worded (.row ns) (⟨.punctuation m, p⟩ :: xs)
  | next {n : Node} {ns : List Node} {xs ys : List Lexeme} (h : Worded (.whole n) xs)
      (hr : Worded (.row ns) ys) : Worded (.row (n :: ns)) (xs ++ ys)
  -- entries
  | noEntries : Worded (.entries []) []
  | comma {p : Position} {es : List (String × Node)} {xs : List Lexeme}
      (h : Worded (.entries es) xs) : Worded (.entries es) (⟨.punctuation .comma, p⟩ :: xs)
  | underName {key : String} {p q : Position} {n : Node} {es : List (String × Node)}
      {xs ys : List Lexeme} (h : Worded (.whole n) xs) (hr : Worded (.entries es) ys) :
      Worded (.entries ((key, n) :: es))
        (⟨.name key, p⟩ :: ⟨.punctuation .colon, q⟩ :: (xs ++ ys))
  | underString {mark : Quote} {body : String} {p q : Position} {n : Node}
      {es : List (String × Node)} {xs ys : List Lexeme} (h : Worded (.whole n) xs)
      (hr : Worded (.entries es) ys) :
      Worded (.entries ((literalText body, n) :: es))
        (⟨.string mark body, p⟩ :: ⟨.punctuation .colon, q⟩ :: (xs ++ ys))
  -- statements
  | block {ns : List Node} {xs : List Lexeme} {p q : Position} (h : Worded (.row ns) xs) :
      Worded (.own (.block ns p.line))
        (⟨.punctuation .openBrace, p⟩ :: (xs ++ [⟨.punctuation .closeBrace, q⟩]))
  | bareReturn {p : Position} :
      Worded (.own (.giveBack (.constant .undefined p.line) p.line)) [⟨.keyword .wordReturn, p⟩]
  | giveBack {n : Node} {xs : List Lexeme} {p : Position} (h : Worded (.whole n) xs) :
      Worded (.own (.giveBack n p.line)) (⟨.keyword .wordReturn, p⟩ :: xs)
  | bareDeclaration {k : Keyword} {x : String} {p q : Position} (hk : k.declares = true) :
      Worded (.own (.assign x (.constant .undefined p.line) true p.line))
        [⟨.keyword k, p⟩, ⟨.name x, q⟩]
  | declaration {k : Keyword} {x : String} {n : Node} {xs : List Lexeme} {p q a : Position}
      (hk : k.declares = true) (h : Worded (.whole n) xs) :
      Worded (.own (.assign x n true p.line))
        (⟨.keyword k, p⟩ :: ⟨.name x, q⟩ :: ⟨.punctuation .assign, a⟩ :: xs)
  | choice {test consequence alternative : Node} {xs ys zs : List Lexeme} {w p q : Position}
      (ht : Worded (.whole test) xs) (hc : Worded (.own consequence) ys)
      (ha : Worded (.otherwise w.line alternative) zs) :
      Worded (.own (.branch test consequence alternative w.line))
        (⟨.keyword .wordIf, w⟩ :: ⟨.punctuation .openParen, p⟩ :: (xs ++
          ⟨.punctuation .closeParen, q⟩ :: (ys ++ zs)))
  | noElse {line : Int} : Worded (.otherwise line (.block [] line)) []
  | elseBlock {line : Int} {n : Node} {xs : List Lexeme} {w : Position} (h : Worded (.own n) xs) :
      Worded (.otherwise line n) (⟨.keyword .wordElse, w⟩ :: xs)
  | elseChoice {line : Int} {n : Node} {xs : List Lexeme} {w : Position}
      (h : Worded (.own n) xs) :
      Worded (.otherwise line (.block [n] (firstLine xs))) (⟨.keyword .wordElse, w⟩ :: xs)
  -- functions
  | named {x : String} {body : Node} {xs : List Lexeme} {w p o q : Position}
      (ps : Derivation .parameters) (h : Worded (.own body) xs) :
      Worded (.own (.function (some x) ps.lower body w.line))
        (⟨.keyword .wordFunction, w⟩ :: ⟨.name x, p⟩ :: ⟨.punctuation .openParen, o⟩ ::
          (ps.lexemes ++ ⟨.punctuation .closeParen, q⟩ :: xs))
  | lambda {body : Node} {xs : List Lexeme} {w o q : Position} (ps : Derivation .parameters)
      (h : Worded (.own body) xs) :
      Worded (.own (.function none ps.lower body w.line))
        (⟨.keyword .wordFunction, w⟩ :: ⟨.punctuation .openParen, o⟩ ::
          (ps.lexemes ++ ⟨.punctuation .closeParen, q⟩ :: xs))
  -- what begins with a token of its own
  | integer {digits : String} {p : Position} :
      Worded (.own (.constant (.integer (Text.ofDigits digits.toList)) p.line))
        [⟨.integer digits, p⟩]
  | string {mark : Quote} {body : String} {p : Position} :
      Worded (.own (.constant (.string (literalText body)) p.line)) [⟨.string mark body, p⟩]
  | name {x : String} {p : Position} : Worded (.own (.name x p.line)) [⟨.name x, p⟩]
  | record {es : List (String × Node)} {xs : List Lexeme} {p q : Position}
      (h : Worded (.entries es) xs) :
      Worded (.own (.record (Entries.ofList es) p.line))
        (⟨.punctuation .openBrace, p⟩ :: (xs ++ [⟨.punctuation .closeBrace, q⟩]))
  | assign {x : String} {n : Node} {xs : List Lexeme} {p a : Position} (h : Worded (.whole n) xs) :
      Worded (.own (.assign x n false p.line)) (⟨.name x, p⟩ :: ⟨.punctuation .assign, a⟩ :: xs)
  | minus {n : Node} {xs : List Lexeme} {p : Position} (h : Worded (.whole n) xs) :
      Worded (.own (.operation Operator.minus.symbol [.constant (.integer 0) p.line, n] p.line))
        (⟨.operator .minus, p⟩ :: xs)
  -- what begins with an operand
  | binary {op : Operator} {a b : Node} {xs ys : List Lexeme} {p : Position}
      (ha : Worded (.whole a) xs) (hb : Worded (.whole b) ys) :
      Worded (.own (.operation op.symbol [a, b] (firstLine xs))) (xs ++ ⟨.operator op, p⟩ :: ys)
  | field {receiver : Node} {x : String} {xs : List Lexeme} {d p : Position}
      (h : Worded (.whole receiver) xs) :
      Worded (.own (.field receiver x (firstLine xs)))
        (xs ++ [⟨.punctuation .dot, d⟩, ⟨.name x, p⟩])
  | assignField {receiver n : Node} {x : String} {xs ys : List Lexeme} {d p a : Position}
      (h : Worded (.whole receiver) xs) (hn : Worded (.whole n) ys) :
      Worded (.own (.assignField receiver x n (firstLine xs)))
        (xs ++ ⟨.punctuation .dot, d⟩ :: ⟨.name x, p⟩ :: ⟨.punctuation .assign, a⟩ :: ys)
  | call {callee : Node} {arguments : List Node} {xs ys : List Lexeme} {p q : Position}
      (h : Worded (.whole callee) xs) (ha : Worded (.row arguments) ys) :
      Worded (.own (.call callee arguments (firstLine xs)))
        (xs ++ ⟨.punctuation .openParen, p⟩ :: (ys ++ [⟨.punctuation .closeParen, q⟩]))
  | method {receiver : Node} {x : String} {arguments : List Node} {xs ys : List Lexeme}
      {d p o q : Position} (h : Worded (.whole receiver) xs) (ha : Worded (.row arguments) ys) :
      Worded (.own (.callMethod receiver x arguments (firstLine xs)))
        (xs ++ ⟨.punctuation .dot, d⟩ :: ⟨.name x, p⟩ :: ⟨.punctuation .openParen, o⟩ ::
          (ys ++ [⟨.punctuation .closeParen, q⟩]))

namespace Worded

/-- One node is a row. -/
theorem single {n : Node} {xs : List Lexeme} (h : Worded (.whole n) xs) : Worded (.row [n]) xs := by
  simpa using h.next .nothing

/-- Rows of nodes are worded one after another. -/
theorem row_append {ns ms : List Node} {xs ys : List Lexeme} (h : Worded (.row ns) xs)
    (hm : Worded (.row ms) ys) : Worded (.row (ns ++ ms)) (xs ++ ys) := by
  generalize hw : Wording.row ns = w at h
  induction h generalizing ns with
  | nothing =>
      obtain rfl := Wording.row.inj hw
      exact hm
  | mark hmark _ ih => exact (ih hw).mark hmark
  | next h _ _ ih =>
      obtain rfl := Wording.row.inj hw
      rw [List.append_assoc, List.cons_append]
      exact h.next (ih rfl)
  | _ => cases hw

/-- So are entries. -/
theorem entries_append {es fs : List (String × Node)} {xs ys : List Lexeme}
    (h : Worded (.entries es) xs) (hf : Worded (.entries fs) ys) :
    Worded (.entries (es ++ fs)) (xs ++ ys) := by
  generalize hw : Wording.entries es = w at h
  induction h generalizing es with
  | noEntries =>
      obtain rfl := Wording.entries.inj hw
      exact hf
  | comma _ ih => exact (ih hw).comma
  | underName h _ _ ih =>
      obtain rfl := Wording.entries.inj hw
      simpa using h.underName (ih rfl)
  | underString h _ _ ih =>
      obtain rfl := Wording.entries.inj hw
      simpa using h.underString (ih rfl)
  | _ => cases hw

end Worded

/-! ### The line of a text -/

/-- Only what comes first decides on the first line. -/
theorem firstLine_append {xs : List Lexeme} (h : xs ≠ []) (ys : List Lexeme) :
    firstLine (xs ++ ys) = firstLine xs := by
  cases xs with
  | nil => exact absurd rfl h
  | cons x xs => rfl

/-- The first line is that of a token. -/
theorem firstLine_mem {xs : List Lexeme} (h : xs ≠ []) : ∃ x ∈ xs, x.line = firstLine xs := by
  cases xs with
  | nil => exact absurd rfl h
  | cons x xs => exact ⟨x, List.mem_cons_self, rfl⟩

/-- Whether a text is not empty, and the node that it is the own text of has its first line. -/
def Wording.Opens : Wording → List Lexeme → Prop
  | own n, xs => xs ≠ [] ∧ n.line = firstLine xs
  | whole _, xs => xs ≠ []
  | row _, _ | entries _, _ | otherwise .., _ => True

/-- What is worded begins on the line of its node. -/
theorem Worded.opens {w : Wording} {xs : List Lexeme} (h : Worded w xs) : w.Opens xs := by
  induction h with
  | bare _ ih => exact ih.1
  | parentheses => exact List.cons_ne_nil _ _
  | nothing | mark | next | noEntries | comma | underName | underString | noElse | elseBlock
  | elseChoice => trivial
  | block | bareReturn | giveBack | bareDeclaration | declaration | choice | named | lambda
  | integer | string | name | record | assign | minus => exact ⟨List.cons_ne_nil _ _, rfl⟩
  | binary _ _ ih => exact ⟨List.append_ne_nil_of_left_ne_nil ih _, (firstLine_append ih _).symm⟩
  | field _ ih => exact ⟨List.append_ne_nil_of_left_ne_nil ih _, (firstLine_append ih _).symm⟩
  | assignField _ _ ih =>
      exact ⟨List.append_ne_nil_of_left_ne_nil ih _, (firstLine_append ih _).symm⟩
  | call _ _ ih => exact ⟨List.append_ne_nil_of_left_ne_nil ih _, (firstLine_append ih _).symm⟩
  | method _ _ ih => exact ⟨List.append_ne_nil_of_left_ne_nil ih _, (firstLine_append ih _).symm⟩

/-- A node has the line on which its own text begins. -/
theorem Worded.own_line {n : Node} {xs : List Lexeme} (h : Worded (.own n) xs) :
    xs ≠ [] ∧ n.line = firstLine xs := h.opens

/-! ### A tree spells the text of what it means -/

/-- Whether tokens are the text of what a tree of a symbol means. The program as a whole has the
line of its first token, or the first line if it has none. -/
def Symbol.Worded : (c : Symbol) → c.Meaning → List Lexeme → Prop
  | .program, n, xs => ∃ ns, n = .block ns (if xs.isEmpty then 1 else firstLine xs) ∧
      Source.Worded (.row ns) xs
  | .statements, ns, xs | .statement, ns, xs | .arguments, ns, xs | .expressions, ns, xs =>
    Source.Worded (.row ns) xs
  | .otherwise, n, xs => ∀ line, Source.Worded (.otherwise line (n.getD (.block [] line))) xs
  | .parameters, _, _ | .names, _, _ => True
  | .members, es, xs => Source.Worded (.entries es) xs
  | .member, e, xs => Source.Worded (.entries [e]) xs
  | .block, n, xs | .choice, n, xs | .named, n, xs => Source.Worded (.own n) xs
  | .ending, n, xs | .expression, n, xs | .row _, n, xs | .operand, n, xs | .callee, n, xs
  | .primary, n, xs => Source.Worded (.whole n) xs

/-- A tree spells the text of what it means. -/
theorem Derivation.worded_lower {c : Symbol} (d : Derivation c) : c.Worded d.lower d.lexemes := by
  induction d with
  | program body ih => exact ⟨_, rfl, ih⟩
  | done | noArguments => exact .nothing
  | last _ ih | oneExpression _ ih => exact ih.single
  | cons _ _ ih ih' => exact ih.row_append ih'
  | ended _ _ ih => exact (ih.next (.mark (.inl rfl) .nothing))
  | chosen _ ih | defined _ ih => exact (Worded.bare ih).single
  | skip => exact .mark (.inl rfl) .nothing
  | value _ ih | plain _ ih | tighter _ ih | bare _ ih | uncut _ ih | head _ ih | arguments _ ih
  | oneMember _ ih => exact ih
  | bareReturn => exact .bare .bareReturn
  | giveBack _ _ ih => exact .bare (.giveBack ih)
  | bareDeclaration _ hk => exact .bare (.bareDeclaration hk)
  | declaration _ hk _ _ _ _ _ ih => exact .bare (.declaration hk ih)
  | block _ _ _ ih => exact .block ih
  | choice _ _ _ _ _ _ ih ih₁ ih₂ => exact .choice ih ih₁ (ih₂ _)
  | noElse => exact fun line => .noElse
  | elseBlock _ _ ih => exact fun line => .elseBlock ih
  | elseChoice w c ih =>
      intro line
      have hline : c.lower.line = firstLine c.lexemes := (Worded.own_line ih).2
      change Source.Worded (.otherwise line (.block [c.lower] c.lower.line)) _
      rw [hline]
      exact .elseChoice ih
  | named _ _ _ _ ps _ _ _ ih => exact .named ps ih
  | noParameters | parameters | oneName | moreNames => trivial
  | assign _ _ _ _ ih => exact .bare (.assign ih)
  | assignField _ _ _ _ _ _ ih ih' => exact .bare (.assignField ih ih')
  | binary _ _ _ _ _ ih ih' => exact .bare (.binary ih ih')
  | minus _ _ ih => exact .bare (.minus ih)
  | field _ _ _ _ ih => exact .bare (.field ih)
  | call _ _ _ _ ih ih' => exact .bare (.call ih ih')
  | method _ _ _ _ _ _ _ ih ih' => exact .bare (.method ih ih')
  | integer => exact .bare .integer
  | string => exact .bare .string
  | name => exact .bare .name
  | parentheses _ _ _ ih => exact .parentheses ih
  | emptyRecord => exact .bare (.record .noEntries)
  | record _ _ _ ih => exact .bare (.record ih)
  | function _ ih => exact .bare ih
  | lambda _ _ ps _ _ _ ih => exact .bare (.lambda ps ih)
  | moreExpressions _ _ _ ih ih' => exact ih.next (.mark (.inr rfl) ih')
  | trailingComma _ _ ih => exact ih.entries_append (.comma .noEntries)
  | moreMembers _ _ _ ih ih' => exact ih.entries_append ih'.comma
  | underName key place colon _ ih =>
      have h := @Worded.underName key place colon _ _ _ _ ih .noEntries
      rwa [List.append_nil] at h
  | underString mark body place colon _ ih =>
      have h := @Worded.underString mark body place colon _ _ _ _ ih .noEntries
      rwa [List.append_nil] at h

/-! ### Every node has a text, or is supplied -/

/-- Whether a stretch of some tokens is the own text of a node. -/
def HasText (xs : List Lexeme) (n : Node) : Prop := ∃ ys, ys <:+: xs ∧ Worded (.own n) ys

/-- A text in a part of a row is one in the row. -/
theorem HasText.mono {xs zs : List Lexeme} {n : Node} (h : HasText xs n) (hx : xs <:+: zs) :
    HasText zs n := by
  obtain ⟨ys, hys, hn⟩ := h
  exact ⟨ys, hys.trans hx, hn⟩

/-- A text is there behind other tokens. -/
theorem HasText.append_left {ys : List Lexeme} {n : Node} (h : HasText ys n) (xs : List Lexeme) :
    HasText (xs ++ ys) n :=
  h.mono (List.suffix_append xs ys).isInfix

/-- A text is there in front of other tokens. -/
theorem HasText.append_right {xs : List Lexeme} {n : Node} (h : HasText xs n) (ys : List Lexeme) :
    HasText (xs ++ ys) n :=
  h.mono (List.prefix_append xs ys).isInfix

/-- A text is there behind one more token. -/
theorem HasText.cons {xs : List Lexeme} {n : Node} (h : HasText xs n) (x : Lexeme) :
    HasText (x :: xs) n :=
  h.append_left [x]

namespace Worded

/-- What is worded by itself has a text. -/
theorem hasText {n : Node} {xs : List Lexeme} (h : Worded (.own n) xs) : HasText xs n :=
  ⟨xs, List.infix_rfl, h⟩

/-- What is worded between parentheses has a text. -/
theorem hasText_of_whole {n : Node} {xs : List Lexeme} (h : Worded (.whole n) xs) :
    HasText xs n := by
  generalize hw : Wording.whole n = w at h
  induction h with
  | bare h =>
      obtain rfl := Wording.whole.inj hw
      exact h.hasText
  | parentheses _ ih => exact ((ih hw).append_right _).cons _
  | _ => cases hw

/-- Every node of a row has a text. -/
theorem hasText_of_row {ns : List Node} {xs : List Lexeme} (h : Worded (.row ns) xs) {n : Node}
    (hn : n ∈ ns) : HasText xs n := by
  generalize hw : Wording.row ns = w at h
  induction h generalizing ns with
  | nothing =>
      obtain rfl := Wording.row.inj hw
      cases hn
  | mark _ _ ih => exact (ih hn hw).cons _
  | next h _ _ ih =>
      obtain rfl := Wording.row.inj hw
      rcases List.mem_cons.mp hn with rfl | hn
      · exact h.hasText_of_whole.append_right _
      · exact (ih hn rfl).append_left _
  | _ => cases hw

/-- Every node of some entries has a text. -/
theorem hasText_of_entries {es : List (String × Node)} {xs : List Lexeme}
    (h : Worded (.entries es) xs) {e : String × Node} (he : e ∈ es) : HasText xs e.2 := by
  generalize hw : Wording.entries es = w at h
  induction h generalizing es with
  | noEntries =>
      obtain rfl := Wording.entries.inj hw
      cases he
  | comma _ ih => exact (ih he hw).cons _
  | underName h _ _ ih | underString h _ _ ih =>
      obtain rfl := Wording.entries.inj hw
      rcases List.mem_cons.mp he with rfl | he
      · exact ((h.hasText_of_whole.append_right _).cons _).cons _
      · exact (((ih he rfl).append_left _).cons _).cons _
  | _ => cases hw

/-- What stands below a node with a text has a text in it, or is supplied by the node. -/
theorem hasText_or_supplies {n c : Node} {xs : List Lexeme} (h : Worded (.own n) xs)
    (hc : c ∈ n.children) : HasText xs c ∨ n.Supplies c := by
  cases h with
  | block h => exact .inl (((h.hasText_of_row hc).append_right _).cons _)
  | integer | string | name => cases hc
  | bareReturn =>
      obtain rfl := List.mem_singleton.mp hc
      exact .inr .returned
  | giveBack h =>
      obtain rfl := List.mem_singleton.mp hc
      exact .inl (h.hasText_of_whole.cons _)
  | bareDeclaration =>
      obtain rfl := List.mem_singleton.mp hc
      exact .inr .declared
  | declaration _ h =>
      obtain rfl := List.mem_singleton.mp hc
      exact .inl (((h.hasText_of_whole.cons _).cons _).cons _)
  | @choice test consequence alternative xs ys zs w p q ht hthen ha =>
      simp only [Node.children, List.mem_cons, List.not_mem_nil, or_false] at hc
      obtain rfl | rfl | rfl := hc
      · exact .inl (((ht.hasText_of_whole.append_right _).cons _).cons _)
      · exact .inl (((((hthen.hasText.append_right _).cons _).append_left _).cons _).cons _)
      · cases ha with
        | noElse => exact .inr .noElse
        | elseBlock h =>
            exact .inl
              ((((((h.hasText.cons _).append_left ys).cons _).append_left xs).cons _).cons _)
        | elseChoice h =>
            rw [← h.own_line.2]
            exact .inr .elseChoice
  | named ps h =>
      obtain rfl := List.mem_singleton.mp hc
      exact .inl (((((h.hasText.cons _).append_left _).cons _).cons _).cons _)
  | lambda ps h =>
      obtain rfl := List.mem_singleton.mp hc
      exact .inl ((((h.hasText.cons _).append_left _).cons _).cons _)
  | @record es xs p q h =>
      obtain ⟨e, he, rfl⟩ := List.mem_map.mp hc
      exact .inl (((h.hasText_of_entries (Entries.mem_of_mem_ofList he)).append_right _).cons _)
  | assign h =>
      obtain rfl := List.mem_singleton.mp hc
      exact .inl ((h.hasText_of_whole.cons _).cons _)
  | minus h =>
      simp only [Node.operation, Node.children, List.mem_cons, List.not_mem_nil, or_false] at hc
      obtain rfl | rfl | rfl := hc
      · exact .inr .symbol
      · exact .inr .zero
      · exact .inl (h.hasText_of_whole.cons _)
  | binary ha hb =>
      simp only [Node.operation, Node.children, List.mem_cons, List.not_mem_nil, or_false] at hc
      obtain rfl | rfl | rfl := hc
      · exact .inr .symbol
      · exact .inl (ha.hasText_of_whole.append_right _)
      · exact .inl ((hb.hasText_of_whole.cons _).append_left _)
  | field h =>
      obtain rfl := List.mem_singleton.mp hc
      exact .inl (h.hasText_of_whole.append_right _)
  | assignField h hn =>
      simp only [Node.children, List.mem_cons, List.not_mem_nil, or_false] at hc
      obtain rfl | rfl := hc
      · exact .inl (h.hasText_of_whole.append_right _)
      · exact .inl ((((hn.hasText_of_whole.cons _).cons _).cons _).append_left _)
  | call h ha =>
      obtain rfl | hc := List.mem_cons.mp hc
      · exact .inl (h.hasText_of_whole.append_right _)
      · exact .inl ((((ha.hasText_of_row hc).append_right _).cons _).append_left _)
  | method h ha =>
      obtain rfl | hc := List.mem_cons.mp hc
      · exact .inl (h.hasText_of_whole.append_right _)
      · exact .inl
          ((((((ha.hasText_of_row hc).append_right _).cons _).cons _).cons _).append_left _)

/-- The statement in a second branch of one statement has a text. -/
theorem hasText_of_otherwise {line : Int} {n inner : Node} {l : Int} {xs : List Lexeme}
    (h : Worded (.otherwise line n) xs) (hn : n = .block [inner] l) : HasText xs inner := by
  cases h with
  | noElse => cases hn
  | elseBlock h =>
      subst hn
      rcases h.hasText_or_supplies List.mem_cons_self with h | h
      · exact h.cons _
      · cases h
  | elseChoice h =>
      cases hn
      exact h.hasText.cons _

/-- What stands below a supplied node has a text: it is the choice in the block that is supplied
for it. -/
theorem hasText_of_supplies {n m c : Node} {xs : List Lexeme} (h : Worded (.own n) xs)
    (hm : n.Supplies m) (hc : c ∈ m.children) : HasText xs c := by
  cases hm with
  | symbol | zero | returned | declared | noElse => cases hc
  | elseChoice =>
      obtain rfl := List.mem_singleton.mp hc
      cases h with
      | @choice _ _ _ xs ys _ _ _ _ _ _ ha =>
          have hinner := ha.hasText_of_otherwise rfl
          exact ((((hinner.append_left ys).cons _).append_left xs).cons _).cons _

end Worded

/-- Whether a node has a text, or a node with a text supplies it. -/
def Placed (xs : List Lexeme) (n : Node) : Prop :=
  HasText xs n ∨ ∃ parent : Node, HasText xs parent ∧ parent.Supplies n

/-- What stands below a node in its place has a text, or that node supplies it. -/
theorem Placed.hasText_or_supplies {n c : Node} {xs : List Lexeme} (h : Placed xs n)
    (hc : c ∈ n.children) : HasText xs c ∨ n.Supplies c := by
  rcases h with ⟨ys, hys, hn⟩ | ⟨parent, ⟨ys, hys, hparent⟩, hn⟩
  · exact (hn.hasText_or_supplies hc).imp_left (·.mono hys)
  · exact .inl ((hparent.hasText_of_supplies hn hc).mono hys)

/-- The children of a placed node are placed. -/
theorem Placed.child {n c : Node} {xs : List Lexeme} (h : Placed xs n) (hc : c ∈ n.children) :
    Placed xs c := by
  rcases h.hasText_or_supplies hc with hc | hc
  · exact .inl hc
  · rcases h with h | ⟨parent, -, hn⟩
    · exact .inr ⟨n, h, hc⟩
    · exact absurd hc hn.not_supplies

/-- So is everything in it. -/
theorem Placed.contains {n m : Node} {xs : List Lexeme} (h : Placed xs n) (hm : n.Contains m) :
    Placed xs m := by
  induction hm with
  | self => exact h
  | child hc _ ih => exact ih (h.child hc)

/-- The line of a node is that of a token of its text. -/
theorem HasText.exists_line {n : Node} {xs : List Lexeme} (h : HasText xs n) :
    ∃ x ∈ xs, x.line = n.line := by
  obtain ⟨ys, hys, hn⟩ := h
  obtain ⟨hne, hline⟩ := hn.own_line
  obtain ⟨y, hy, hyline⟩ := firstLine_mem hne
  exact ⟨y, hys.subset hy, hyline.trans hline.symm⟩

/-- A node in its place has the line of a token. -/
theorem Placed.exists_line {n : Node} {xs : List Lexeme} (h : Placed xs n) :
    ∃ x ∈ xs, x.line = n.line := by
  rcases h with h | ⟨parent, h, hn⟩
  · exact h.exists_line
  · cases hn with
    | symbol | zero | returned | declared | noElse => exact h.exists_line
    | elseChoice =>
        obtain ⟨ys, hys, hparent⟩ := h
        obtain ⟨y, hy, hline⟩ :=
          (hparent.hasText_of_supplies .elseChoice List.mem_cons_self).exists_line
        exact ⟨y, hys.subset hy, hline⟩

/-! ### Texts from top to bottom -/

/-- Whether no token is above one that stands before it. -/
def Downward (xs : List Lexeme) : Prop := xs.Pairwise fun x y => x.line ≤ y.line

/-- No token is above the first one. -/
theorem Downward.firstLine_le {xs : List Lexeme} (h : Downward xs) {x : Lexeme} (hx : x ∈ xs) :
    firstLine xs ≤ x.line := by
  cases xs with
  | nil => cases hx
  | cons y ys =>
      rcases List.mem_cons.mp hx with rfl | hx
      · exact Int.le_refl _
      · exact (List.pairwise_cons.mp h).1 x hx

/-- No part of a node is above the node. -/
theorem HasText.line_le {n m : Node} {xs : List Lexeme} (hx : Downward xs) (h : HasText xs n)
    (hm : n.Contains m) : n.line ≤ m.line := by
  obtain ⟨ys, hys, hn⟩ := h
  have hplaced : Placed ys m := Placed.contains (.inl hn.hasText) hm
  obtain ⟨y, hy, hline⟩ := hplaced.exists_line
  rw [hn.own_line.2, ← hline]
  exact Downward.firstLine_le (hx.sublist hys.sublist) hy

/-- No node in a node in its place is above it. -/
theorem Placed.line_le {n m : Node} {xs : List Lexeme} (hx : Downward xs) (h : Placed xs n)
    (hm : n.Contains m) : n.line ≤ m.line := by
  rcases h with h | ⟨parent, ⟨ys, hys, hparent⟩, hn⟩
  · exact h.line_le hx hm
  · cases hm with
    | self => exact Int.le_refl _
    | child hc hm =>
        rw [← hn.line_eq hc]
        exact ((hparent.hasText_of_supplies hn hc).mono hys).line_le hx hm

/-- The line after a text is the line before it and one more for each line feed. -/
theorem line_after (p : Position) (text : List Char) :
    (p.after text).line = p.line + text.count '\n' := by
  induction text generalizing p with
  | nil => rfl
  | cons c cs ih =>
      rw [Position.after_cons, ih, Position.next]
      by_cases hc : c = '\n'
      · rw [if_pos hc, hc, List.count_cons_self]
        exact Nat.add_right_comm _ _ _
      · rw [if_neg hc, List.count_cons_of_ne hc]

/-- Tokens come from top to bottom. -/
theorem downward_lexemes (p : Position) (ps : List Piece) :
    Downward (lexemes p ps).1 ∧ ∀ x ∈ (lexemes p ps).1, p.line ≤ x.line := by
  induction ps generalizing p with
  | nil => exact ⟨List.Pairwise.nil, List.forall_mem_nil _⟩
  | cons q rest ih =>
      obtain ⟨hdown, hle⟩ := ih (p.after q.text)
      have hlater : ∀ x ∈ (lexemes (p.after q.text) rest).1, (p.line : Int) ≤ x.line := by
        intro x hx
        have hline := line_after p q.text
        have := hle x hx
        omega
      cases q with
      | token t =>
          exact ⟨List.pairwise_cons.mpr ⟨hlater, hdown⟩,
            List.forall_mem_cons.mpr ⟨Int.le_refl _, hlater⟩⟩
      | blank | comment => exact ⟨hdown, hlater⟩

/-- The tokens of a text stand in it from top to bottom. -/
theorem downward_scan (cs : List Char) : Downward (scan cs).lexemes :=
  (downward_lexemes .start (pieces cs).1).1

/-- The line of a token counts the line feeds before it. -/
theorem line_of_mem_scan {cs : List Char} {x : Lexeme} (h : x ∈ (scan cs).lexemes) :
    ∃ before after, cs = before ++ x.token.text.toList ++ after ∧
      x.line = 1 + before.count '\n' := by
  obtain ⟨before, after, hcs, hp⟩ := place_of_mem_scan h
  refine ⟨before, after, hcs, ?_⟩
  rw [Lexeme.line, hp, line_after]
  simp [Position.start]

/-- The tokens of a text are on its lines. -/
theorem line_le_of_mem_scan {cs : List Char} {x : Lexeme} (h : x ∈ (scan cs).lexemes) :
    1 ≤ x.line ∧ x.line ≤ 1 + cs.count '\n' := by
  obtain ⟨before, after, hcs, hline⟩ := line_of_mem_scan h
  rw [hcs, hline]
  simp only [List.count_append]
  omega

/-! ### Programs -/

/-- What stands below a program is in its place. -/
theorem placed_of_program {n m : Node} {xs : List Lexeme} (h : Symbol.program.Worded n xs)
    (hm : n.Contains m) : m = n ∨ Placed xs m := by
  obtain ⟨ns, rfl, hrow⟩ := h
  cases hm with
  | self => exact .inl rfl
  | child hc hm => exact .inr (Placed.contains (.inl (hrow.hasText_of_row hc)) hm)

/-- A node of a program is the program, or has a text, or a node of the program supplies it. -/
theorem hasText_or_supplies_of_program {n m : Node} {xs : List Lexeme}
    (h : Symbol.program.Worded n xs) (hm : n.Contains m) :
    m = n ∨ HasText xs m ∨ ∃ parent, n.Contains parent ∧ parent.Supplies m := by
  rcases hm.exists_parent with rfl | ⟨parent, hparent, hc⟩
  · exact .inl rfl
  · right
    rcases placed_of_program h hparent with rfl | hplaced
    · obtain ⟨ns, rfl, hrow⟩ := h
      exact .inl (hrow.hasText_of_row hc)
    · exact (hplaced.hasText_or_supplies hc).imp_right fun hm => ⟨parent, hparent, hm⟩

/-- The program as a whole is not above what stands in it. -/
theorem line_le_of_program {n m : Node} {xs : List Lexeme} (h : Symbol.program.Worded n xs)
    (hx : Downward xs) (hm : n.Contains m) : n.line ≤ m.line := by
  rcases placed_of_program h hm with rfl | hplaced
  · exact Int.le_refl _
  · obtain ⟨ns, rfl, -⟩ := h
    obtain ⟨x, hmem, hline⟩ := hplaced.exists_line
    have hne : ¬xs.isEmpty := fun hnil => by
      rw [List.isEmpty_iff.mp hnil] at hmem
      cases hmem
    rw [Node.line, if_neg hne, ← hline]
    exact hx.firstLine_le hmem

/-- The nodes of a program are on the lines of its text. -/
theorem line_mem_of_program {source : String} {n m : Node}
    (h : Symbol.program.Worded n (scan source.toList).lexemes) (hm : n.Contains m) :
    1 ≤ m.line ∧ m.line ≤ 1 + source.toList.count '\n' := by
  rcases placed_of_program h hm with rfl | hplaced
  · obtain ⟨ns, rfl, -⟩ := h
    cases hxs : (scan source.toList).lexemes with
    | nil => exact ⟨Int.le_refl _, Int.le_add_of_nonneg_right (Int.natCast_nonneg _)⟩
    | cons x xs => exact line_le_of_mem_scan (hxs ▸ List.mem_cons_self)
  · obtain ⟨x, hx, hline⟩ := hplaced.exists_line
    rw [← hline]
    exact line_le_of_mem_scan hx

/-- A program is worded by the tokens of its text. -/
theorem worded_of_program {source : String} {n : Node} (h : program source = .ok n) :
    Symbol.program.Worded n (scan source.toList).lexemes := by
  obtain ⟨-, -, d, hd, rfl⟩ := exists_derivation h
  rw [← hd]
  exact d.worded_lower

/-- **Every node of a program has the line on which it is written.** The tokens of the text, with
their lines, are the text of the program and of all that is in it; every node but the program has
the line of the first token of its own text, or is supplied by a node of the program. So the lines
of all nodes are lines of the text, and no node is above one that it is in. -/
theorem line_of_program {source : String} {n : Node} (h : program source = .ok n) :
    (∀ x ∈ (scan source.toList).lexemes, ∃ before after,
      source.toList = before ++ x.token.text.toList ++ after ∧
      x.line = 1 + before.count '\n') ∧
    Symbol.program.Worded n (scan source.toList).lexemes ∧
    (∀ m, n.Contains m → m = n ∨
      (∃ x xs, x :: xs <:+: (scan source.toList).lexemes ∧ Source.Worded (.own m) (x :: xs) ∧
        m.line = x.line) ∨
      ∃ parent, n.Contains parent ∧ parent.Supplies m) ∧
    (∀ m, n.Contains m → 1 ≤ m.line ∧ m.line ≤ 1 + source.toList.count '\n') ∧
    n.Descends := by
  have hworded := worded_of_program h
  have hx := downward_scan source.toList
  refine ⟨fun x => line_of_mem_scan, hworded, ?_, fun m => line_mem_of_program hworded, ?_⟩
  · intro m hm
    refine (hasText_or_supplies_of_program hworded hm).imp_right (Or.imp_left ?_)
    rintro ⟨ys, hys, hm⟩
    obtain ⟨hne, hline⟩ := hm.own_line
    obtain ⟨x, xs, rfl⟩ := List.exists_cons_of_ne_nil hne
    exact ⟨x, xs, hys, hm, hline⟩
  · intro m hm k hk
    rcases placed_of_program hworded hm with rfl | hplaced
    · exact line_le_of_program hworded hx hk
    · exact hplaced.line_le hx hk

namespace Location

/-- A call on many lines, and a choice behind `else`. -/
def source : String := "\n(f\n.g)(\n- 1);\nif (a) \x7b\x7d else\nif (b) \x7breturn\x7d"

/-- The program that it is. -/
def program : Node :=
  .block [.call (.field (.name "f" 2) "g" 2)
      [.operation "-" [.constant (.integer 0) 4, .constant (.integer 1) 4] 4] 2,
    .branch (.name "a" 5) (.block [] 5) (.block [.branch (.name "b" 6)
      (.block [.giveBack (.constant .undefined 6) 6] 6) (.block [] 6) 6] 6) 5] 2

end Location

/-- The call has the line of its parenthesis, the minus sign and the inner choice their own. -/
theorem line_locationSource : Source.program Location.source = .ok Location.program ∧
    Symbol.program.Worded Location.program (scan Location.source.toList).lexemes ∧
    Location.program.Descends := by
  have h : Source.program Location.source = .ok Location.program := by with_unfolding_all rfl
  obtain ⟨-, hworded, -, -, hdescends⟩ := line_of_program h
  exact ⟨h, hworded, hdescends⟩

end Source

end Scriptlet
