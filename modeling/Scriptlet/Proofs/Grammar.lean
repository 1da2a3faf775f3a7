import Scriptlet.Source.Program

/-!
# The Grammar of Programs

The grammar is written down as a type of derivation trees. `Derivation c` has one constructor
for each production of the symbol `c`, and a tree stores what its production leaves open: the
trees of the symbols in it, the texts of names and literals, and the position of every token.
What a tree *spells* is `Derivation.lexemes`, its yield with all positions; what it *means* is
`Derivation.lower`, which has one rule for each production and gives every node the line of
the first token that its tree spells.

## Symbols

Repetitions and options are unfolded: a list is empty, or an item, or an item with more behind
it. The four levels of binary operators are one symbol with a parameter: `row (some l)` is
operands with operators of tightness `l` or tighter between them, and `row none` is an operand
with minus signs before it. An `ending` is a statement that may end its list without a
semicolon, and a `callee` is an operand that does not end in a field. A function with a name is
spelled alike as a statement and in an expression, and is one symbol, `named`.

## The tie

The grammar has two readings of one text in a single kind of place: where a statement begins
with a named function and a parenthesis or a minus sign follows directly (`Ties`), the function
may be a statement of its own, or the expression may go on. `Derivation.Tied` asks for such a
place anywhere in a tree.

## Main definitions

* `Derivation`, `Derivation.lexemes`, `Derivation.lower`: trees, what they spell, what they mean.
* `Derivable`, `Viable`: the token sequences of programs, and what such a sequence can begin with.
* `Ties`, `Derivation.Tied`: the places where two readings tie.
-/

namespace Scriptlet

/-- The next tighter group of operators; the tightest group has none. -/
def Tightness.tighter : Tightness → Option Tightness
  | equality => some comparison
  | comparison => some sum
  | sum => some product
  | product => none

namespace Source

open Scriptlet.Text (Position)

/-! ### Tokens as their terminals demand them -/

/-- Whether a keyword begins a declaration. -/
def Keyword.declares : Keyword → Bool
  | wordVar | wordLet | wordConst => true
  | wordReturn | wordIf | wordElse | wordFunction => false

/-- What may stand between the quote marks of a string literal: no mark of its kind, no line
feed and no backslash, except that a backslash takes the next character with it, whatever it is
but a line feed. -/
inductive LiteralBody (mark : Quote) : List Char → Prop
  | nil : LiteralBody mark []
  | plain {c : Char} {cs : List Char} (hm : c ≠ mark.char) (hb : c ≠ '\\') (hn : c ≠ '\n')
      (rest : LiteralBody mark cs) : LiteralBody mark (c :: cs)
  | escape {c : Char} {cs : List Char} (hn : c ≠ '\n') (rest : LiteralBody mark cs) :
      LiteralBody mark ('\\' :: c :: cs)

/-- A run of characters that a name may be written with, keywords included. -/
def NameText (cs : List Char) : Prop :=
  ∃ c rest, cs = c :: rest ∧ startsName c = true ∧ ∀ d ∈ rest, continuesName d = true

/-- A token with a text that its terminal matches. Keywords, operators and marks have one text
each; what spells a keyword is no name. -/
def Token.WellSpelled : Token → Prop
  | .keyword _ | .operator _ | .punctuation _ => True
  | .name text => NameText text.toList ∧ ∀ k : Keyword, k.text ≠ text
  | .integer digits => digits.toList ≠ [] ∧ ∀ c ∈ digits.toList, c.isDigit = true
  | .string mark body => LiteralBody mark body.toList

/-! ### Symbols and derivation trees -/

/-- What a stretch of a program can be. -/
inductive Symbol
  /-- A whole program. -/
  | program
  /-- Statements in a row, up to the end of a program or block. -/
  | statements
  /-- A statement that another one may follow. -/
  | statement
  /-- A statement that ends its list without a semicolon. -/
  | ending
  /-- Statements between braces. -/
  | block
  /-- A choice. -/
  | choice
  /-- What may follow the first branch of a choice. -/
  | otherwise
  /-- A function with a name. -/
  | named
  /-- The parameters of a function. -/
  | parameters
  /-- One name or more, with commas between them. -/
  | names
  /-- An expression. -/
  | expression
  /-- Operands with operators between them; without a tightness, one operand with minus signs
  before it. -/
  | row (loosest : Option Tightness)
  /-- An operand without minus signs. -/
  | operand
  /-- An operand that does not end in a field. -/
  | callee
  /-- What an operand begins with. -/
  | primary
  /-- The arguments of a call. -/
  | arguments
  /-- One expression or more, with commas between them. -/
  | expressions
  /-- The entries of an object literal that has some. -/
  | members
  /-- An entry of an object literal. -/
  | member
deriving DecidableEq, Repr

/-- What a tree of a symbol means. A statement may mean none, and so may the lack of an
`else`. -/
abbrev Symbol.Meaning : Symbol → Type
  | statements | statement | arguments | expressions => List Node
  | otherwise => Option Node
  | parameters | names => List String
  | members => List (String × Node)
  | member => String × Node
  | _ => Node

/-- A derivation tree of a symbol. -/
inductive Derivation : Symbol → Type
  | program (body : Derivation .statements) : Derivation .program
  -- lists of statements
  | done : Derivation .statements
  | last (e : Derivation .ending) : Derivation .statements
  | cons (first : Derivation .statement) (rest : Derivation .statements) : Derivation .statements
  -- statements
  | ended (e : Derivation .ending) (semicolon : Position) : Derivation .statement
  | chosen (c : Derivation .choice) : Derivation .statement
  | defined (f : Derivation .named) : Derivation .statement
  | skip (semicolon : Position) : Derivation .statement
  -- statements that need no semicolon at the end of their list
  | value (e : Derivation .expression) : Derivation .ending
  | bareReturn (word : Position) : Derivation .ending
  | giveBack (word : Position) (e : Derivation .expression) : Derivation .ending
  | bareDeclaration (k : Keyword) (hk : k.declares = true) (word : Position) (name : String)
      (place : Position) : Derivation .ending
  | declaration (k : Keyword) (hk : k.declares = true) (word : Position) (name : String)
      (place equals : Position) (e : Derivation .expression) : Derivation .ending
  -- blocks and choices
  | block (opening : Position) (body : Derivation .statements) (closing : Position) :
      Derivation .block
  | choice (word opening : Position) (test : Derivation .expression) (closing : Position)
      (consequence : Derivation .block) (alternative : Derivation .otherwise) : Derivation .choice
  | noElse : Derivation .otherwise
  | elseBlock (word : Position) (b : Derivation .block) : Derivation .otherwise
  | elseChoice (word : Position) (c : Derivation .choice) : Derivation .otherwise
  -- functions
  | named (word : Position) (name : String) (place opening : Position)
      (ps : Derivation .parameters) (closing : Position) (body : Derivation .block) :
      Derivation .named
  | noParameters : Derivation .parameters
  | parameters (ns : Derivation .names) : Derivation .parameters
  | oneName (name : String) (place : Position) : Derivation .names
  | moreNames (name : String) (place comma : Position) (rest : Derivation .names) :
      Derivation .names
  -- expressions
  | plain (r : Derivation (.row (some .equality))) : Derivation .expression
  | assign (name : String) (place equals : Position) (e : Derivation .expression) :
      Derivation .expression
  | assignField (o : Derivation .operand) (dot : Position) (name : String)
      (place equals : Position) (e : Derivation .expression) : Derivation .expression
  -- operators
  | tighter {l : Tightness} (r : Derivation (.row l.tighter)) : Derivation (.row (some l))
  | binary {l : Tightness} (left : Derivation (.row (some l))) (op : Operator)
      (hop : op.tightness = l) (place : Position) (right : Derivation (.row l.tighter)) :
      Derivation (.row (some l))
  | bare (o : Derivation .operand) : Derivation (.row none)
  | minus (sign : Position) (r : Derivation (.row none)) : Derivation (.row none)
  -- fields and calls
  | uncut (c : Derivation .callee) : Derivation .operand
  | field (o : Derivation .operand) (dot : Position) (name : String) (place : Position) :
      Derivation .operand
  | head (h : Derivation .primary) : Derivation .callee
  | call (c : Derivation .callee) (opening : Position) (given : Derivation .arguments)
      (closing : Position) : Derivation .callee
  | method (o : Derivation .operand) (dot : Position) (name : String) (place opening : Position)
      (given : Derivation .arguments) (closing : Position) : Derivation .callee
  -- what operands begin with
  | integer (digits : String) (place : Position) : Derivation .primary
  | string (mark : Quote) (body : String) (place : Position) : Derivation .primary
  | name (text : String) (place : Position) : Derivation .primary
  | parentheses (opening : Position) (e : Derivation .expression) (closing : Position) :
      Derivation .primary
  | emptyRecord (opening closing : Position) : Derivation .primary
  | record (opening : Position) (ms : Derivation .members) (closing : Position) :
      Derivation .primary
  | function (f : Derivation .named) : Derivation .primary
  | lambda (word opening : Position) (ps : Derivation .parameters) (closing : Position)
      (body : Derivation .block) : Derivation .primary
  -- arguments and entries
  | noArguments : Derivation .arguments
  | arguments (es : Derivation .expressions) : Derivation .arguments
  | oneExpression (e : Derivation .expression) : Derivation .expressions
  | moreExpressions (e : Derivation .expression) (comma : Position)
      (rest : Derivation .expressions) : Derivation .expressions
  | oneMember (m : Derivation .member) : Derivation .members
  | trailingComma (m : Derivation .member) (comma : Position) : Derivation .members
  | moreMembers (m : Derivation .member) (comma : Position) (rest : Derivation .members) :
      Derivation .members
  | underName (key : String) (place colon : Position) (e : Derivation .expression) :
      Derivation .member
  | underString (mark : Quote) (body : String) (place colon : Position)
      (e : Derivation .expression) : Derivation .member

namespace Derivation

variable {c : Symbol}

/-! ### What a tree spells -/

/-- The tokens that a tree spells, each at its place. -/
def lexemes {c : Symbol} : Derivation c → List Lexeme
  | program body => body.lexemes
  | done => []
  | last e => e.lexemes
  | cons first rest => first.lexemes ++ rest.lexemes
  | ended e q => e.lexemes ++ [⟨.punctuation .semicolon, q⟩]
  | chosen c => c.lexemes
  | defined f => f.lexemes
  | skip q => [⟨.punctuation .semicolon, q⟩]
  | value e => e.lexemes
  | bareReturn p => [⟨.keyword .wordReturn, p⟩]
  | giveBack p e => ⟨.keyword .wordReturn, p⟩ :: e.lexemes
  | bareDeclaration k _ p n q => [⟨.keyword k, p⟩, ⟨.name n, q⟩]
  | declaration k _ p n q a e =>
    ⟨.keyword k, p⟩ :: ⟨.name n, q⟩ :: ⟨.punctuation .assign, a⟩ :: e.lexemes
  | block p body q =>
    ⟨.punctuation .openBrace, p⟩ :: (body.lexemes ++ [⟨.punctuation .closeBrace, q⟩])
  | choice w p test q body other =>
    ⟨.keyword .wordIf, w⟩ :: ⟨.punctuation .openParen, p⟩ :: (test.lexemes ++
      ⟨.punctuation .closeParen, q⟩ :: (body.lexemes ++ other.lexemes))
  | noElse => []
  | elseBlock w b => ⟨.keyword .wordElse, w⟩ :: b.lexemes
  | elseChoice w c => ⟨.keyword .wordElse, w⟩ :: c.lexemes
  | named w n p o ps q body =>
    ⟨.keyword .wordFunction, w⟩ :: ⟨.name n, p⟩ :: ⟨.punctuation .openParen, o⟩ ::
      (ps.lexemes ++ ⟨.punctuation .closeParen, q⟩ :: body.lexemes)
  | noParameters => []
  | parameters ns => ns.lexemes
  | oneName n p => [⟨.name n, p⟩]
  | moreNames n p q rest => ⟨.name n, p⟩ :: ⟨.punctuation .comma, q⟩ :: rest.lexemes
  | plain r => r.lexemes
  | assign n p a e => ⟨.name n, p⟩ :: ⟨.punctuation .assign, a⟩ :: e.lexemes
  | assignField o d n p a e =>
    o.lexemes ++ ⟨.punctuation .dot, d⟩ :: ⟨.name n, p⟩ :: ⟨.punctuation .assign, a⟩ :: e.lexemes
  | tighter r => r.lexemes
  | binary left op _ p right => left.lexemes ++ ⟨.operator op, p⟩ :: right.lexemes
  | bare o => o.lexemes
  | minus p r => ⟨.operator .minus, p⟩ :: r.lexemes
  | uncut c => c.lexemes
  | field o d n p => o.lexemes ++ [⟨.punctuation .dot, d⟩, ⟨.name n, p⟩]
  | head h => h.lexemes
  | call c p given q =>
    c.lexemes ++ ⟨.punctuation .openParen, p⟩ :: (given.lexemes ++ [⟨.punctuation .closeParen, q⟩])
  | method o d n p b given q =>
    o.lexemes ++ ⟨.punctuation .dot, d⟩ :: ⟨.name n, p⟩ :: ⟨.punctuation .openParen, b⟩ ::
      (given.lexemes ++ [⟨.punctuation .closeParen, q⟩])
  | integer digits p => [⟨.integer digits, p⟩]
  | string mark body p => [⟨.string mark body, p⟩]
  | name text p => [⟨.name text, p⟩]
  | parentheses p e q =>
    ⟨.punctuation .openParen, p⟩ :: (e.lexemes ++ [⟨.punctuation .closeParen, q⟩])
  | emptyRecord p q => [⟨.punctuation .openBrace, p⟩, ⟨.punctuation .closeBrace, q⟩]
  | record p ms q =>
    ⟨.punctuation .openBrace, p⟩ :: (ms.lexemes ++ [⟨.punctuation .closeBrace, q⟩])
  | function f => f.lexemes
  | lambda w p ps q body =>
    ⟨.keyword .wordFunction, w⟩ :: ⟨.punctuation .openParen, p⟩ :: (ps.lexemes ++
      ⟨.punctuation .closeParen, q⟩ :: body.lexemes)
  | noArguments => []
  | arguments es => es.lexemes
  | oneExpression e => e.lexemes
  | moreExpressions e q rest => e.lexemes ++ ⟨.punctuation .comma, q⟩ :: rest.lexemes
  | oneMember m => m.lexemes
  | trailingComma m q => m.lexemes ++ [⟨.punctuation .comma, q⟩]
  | moreMembers m q rest => m.lexemes ++ ⟨.punctuation .comma, q⟩ :: rest.lexemes
  | underName k p q e => ⟨.name k, p⟩ :: ⟨.punctuation .colon, q⟩ :: e.lexemes
  | underString m b p q e => ⟨.string m b, p⟩ :: ⟨.punctuation .colon, q⟩ :: e.lexemes

/-- The tokens that a tree spells. -/
def tokens (d : Derivation c) : List Token := d.lexemes.map Lexeme.token

/-- The line of the first token that a tree spells; zero if it spells none. -/
def line (d : Derivation c) : Int := (d.lexemes.head?.map Lexeme.line).getD 0

/-! ### What a tree means -/

/-- What a tree means, by one rule for each production. Every node has the line of the first
token of its tree. Operators call the function bound to their symbol; a minus sign subtracts
from zero. A choice without an `else` has an empty block for one, on its own line, and a choice
that follows an `else` stands in a block of its own. Of several entries under one key the last
counts, in the place of the first. -/
def lower {c : Symbol} : Derivation c → c.Meaning
  | program body => .block body.lower (if body.lexemes.isEmpty then 1 else body.line)
  | done => []
  | last e => [e.lower]
  | cons first rest => first.lower ++ rest.lower
  | ended e _ => [e.lower]
  | chosen c => [c.lower]
  | defined f => [f.lower]
  | skip _ => []
  | value e => e.lower
  | bareReturn p => .giveBack (.constant .undefined p.line) p.line
  | giveBack p e => .giveBack e.lower p.line
  | bareDeclaration _ _ p n _ => .assign n (.constant .undefined p.line) true p.line
  | declaration _ _ p n _ _ e => .assign n e.lower true p.line
  | block p body _ => .block body.lower p.line
  | choice w _ test _ body other =>
    .branch test.lower body.lower (other.lower.getD (.block [] w.line)) w.line
  | noElse => none
  | elseBlock _ b => some b.lower
  | elseChoice _ c => some (.block [c.lower] c.lower.line)
  | named w n _ _ ps _ body => .function (some n) ps.lower body.lower w.line
  | noParameters => []
  | parameters ns => ns.lower
  | oneName n _ => [n]
  | moreNames n _ _ rest => n :: rest.lower
  | plain r => r.lower
  | assign n p _ e => .assign n e.lower false p.line
  | assignField o _ n _ _ e => .assignField o.lower n e.lower o.line
  | tighter r => r.lower
  | binary left op _ _ right => .operation op.symbol [left.lower, right.lower] left.line
  | bare o => o.lower
  | minus p r => .operation Operator.minus.symbol [.constant (.integer 0) p.line, r.lower] p.line
  | uncut c => c.lower
  | field o _ n _ => .field o.lower n o.line
  | head h => h.lower
  | call c _ given _ => .call c.lower given.lower c.line
  | method o _ n _ _ given _ => .callMethod o.lower n given.lower o.line
  | integer digits p => .constant (.integer (Text.ofDigits digits.toList)) p.line
  | string _ body p => .constant (.string (literalText body)) p.line
  | name text p => .name text p.line
  | parentheses _ e _ => e.lower
  | emptyRecord p _ => .record [] p.line
  | record p ms _ => .record (Entries.ofList ms.lower) p.line
  | function f => f.lower
  | lambda w _ ps _ body => .function none ps.lower body.lower w.line
  | noArguments => []
  | arguments es => es.lower
  | oneExpression e => [e.lower]
  | moreExpressions e _ rest => e.lower :: rest.lower
  | oneMember m => [m.lower]
  | trailingComma m _ => [m.lower]
  | moreMembers m _ rest => m.lower :: rest.lower
  | underName k _ _ e => (k, e.lower)
  | underString _ b _ _ e => (literalText b, e.lower)

end Derivation

/-! ### Derivable and viable token sequences -/

/-- The token sequences of programs. -/
def Derivable (ts : List Token) : Prop :=
  (∀ t ∈ ts, t.WellSpelled) ∧ ∃ d : Derivation .program, d.tokens = ts

/-- The token sequences that a program can begin with. -/
def Viable (ts : List Token) : Prop :=
  ∃ rest, Derivable (ts ++ rest)

/-! ### The tie -/

/-- Whether tokens begin with a named function that a parenthesis or a minus sign follows
directly. -/
def Ties (xs : List Lexeme) : Prop :=
  ∃ (f : Derivation .named) (x : Lexeme) (rest : List Lexeme), xs = f.lexemes ++ x :: rest ∧
    (x.token = .punctuation .openParen ∨ x.token = .operator .minus)

/-- Whether somewhere in a tree, where a statement begins, the tokens up to the end of its list
tie. -/
def Derivation.Tied {c : Symbol} : Derivation c → Prop
  | program body => body.Tied
  | done => False
  | last e => Ties e.lexemes ∨ e.Tied
  | cons first rest => Ties (first.lexemes ++ rest.lexemes) ∨ first.Tied ∨ rest.Tied
  | ended e _ => e.Tied
  | chosen c => c.Tied
  | defined f => f.Tied
  | skip _ => False
  | value e => e.Tied
  | bareReturn _ => False
  | giveBack _ e => e.Tied
  | bareDeclaration .. => False
  | declaration _ _ _ _ _ _ e => e.Tied
  | block _ body _ => body.Tied
  | choice _ _ test _ body other => test.Tied ∨ body.Tied ∨ other.Tied
  | noElse => False
  | elseBlock _ b => b.Tied
  | elseChoice _ c => c.Tied
  | named _ _ _ _ _ _ body => body.Tied
  | noParameters => False
  | parameters _ => False
  | oneName .. => False
  | moreNames .. => False
  | plain r => r.Tied
  | assign _ _ _ e => e.Tied
  | assignField o _ _ _ _ e => o.Tied ∨ e.Tied
  | tighter r => r.Tied
  | binary left _ _ _ right => left.Tied ∨ right.Tied
  | bare o => o.Tied
  | minus _ r => r.Tied
  | uncut c => c.Tied
  | field o _ _ _ => o.Tied
  | head h => h.Tied
  | call c _ given _ => c.Tied ∨ given.Tied
  | method o _ _ _ _ given _ => o.Tied ∨ given.Tied
  | integer .. => False
  | string .. => False
  | name .. => False
  | parentheses _ e _ => e.Tied
  | emptyRecord .. => False
  | record _ ms _ => ms.Tied
  | function f => f.Tied
  | lambda _ _ _ _ body => body.Tied
  | noArguments => False
  | arguments es => es.Tied
  | oneExpression e => e.Tied
  | moreExpressions e _ rest => e.Tied ∨ rest.Tied
  | oneMember m => m.Tied
  | trailingComma m _ => m.Tied
  | moreMembers m _ rest => m.Tied ∨ rest.Tied
  | underName _ _ _ e => e.Tied
  | underString _ _ _ _ e => e.Tied

end Source

end Scriptlet
