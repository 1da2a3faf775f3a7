import Scriptlet.Entries
import Scriptlet.Source.Phrase
import Scriptlet.Source.Piece
import Scriptlet.Text.Numeral

/-!
# Reading a Program Token by Token

A `Reading` is all that is known of a program after some of its tokens: which construct is
open, what of it is complete, and, outwards from there, every construct around it. One token
takes a reading to the next (`Reading.step?`) or cannot stand there at all, so the first token
that no program could have in its place is the first at which a step fails. No step looks
ahead or goes back.

The constructs around a reading are kept from the inside out, as places with a hole: a
`Place` is where an expression stands, a `Gap` is a place for an operand in a partly read
expression, a `Body` is a list of statements with what it belongs to.

## Statements

Every statement but the last of its list ends with a semicolon; a choice and a function
statement need none.

A statement may begin with a named function. If the token behind the function can continue
an expression, the function is read as the beginning of one; otherwise it is a statement of
its own. An expression that began so and ends without a semicolon is, where possible, taken
apart again into the function statement and an expression behind it
(`Phrase.behindFunction?`).

A parenthesis or a minus sign can continue an expression and can begin a statement. Behind a function
there are two ways to read it then, and the grammar has both. At the beginning of a list the choice is
as said. Further on in a list it is taken to be the same, where a parser that makes no rule of it may
choose either way; which texts leave a choice does not depend on it.

## Main definitions

* `Reading.step?`: the reading after one more token.
* `Reading.finish?`: the statements of a program that ends here.
-/

namespace Scriptlet.Source

mutual

/-- A list of statements, so far. -/
inductive Body
  /-- The owner of the list, and the statements, the last first. -/
  | mk (owner : Owner) (statements : List Node)

/-- What a list of statements belongs to; `brace` is the line of the opening brace. -/
inductive Owner
  /-- The program itself. -/
  | program
  /-- The first branch of the choice that began on `line`. -/
  | consequence (line : Int) (condition : Node) (site : Site) (brace : Int)
  /-- The second branch of the choice that began on `line`. -/
  | alternative (line : Int) (condition consequence : Node) (site : Site) (brace : Int)
  /-- The function that began on `line`. -/
  | function (line : Int) (name : Option String) (parameters : List String) (host : Host)
    (brace : Int)

/-- Where a choice stands. -/
inductive Site
  /-- It is a statement. -/
  | statement (outer : Body)
  /-- It follows the `else` of the choice that began on `line`. -/
  | alternative (line : Int) (condition consequence : Node) (outer : Site)

/-- Where a function stands. -/
inductive Host
  /-- At the start of a statement, with a name. -/
  | statement (outer : Body)
  /-- In an expression. -/
  | operand (gap : Gap)

/-- A place for an operand: what is read of the expression, and the lines of the minus signs
before the operand, the innermost first. -/
inductive Gap
  /-- The place of the expression, and the part of it that is read. -/
  | mk (place : Place) (phrase : Phrase) (minuses : List Int)

/-- Where an expression stands. -/
inductive Place
  /-- It is a statement; `leading` is the named function it began with, if it did. -/
  | statement (leading : Option Node) (outer : Body)
  /-- It is the first value of a declared name. -/
  | declaration (line : Int) (name : String) (outer : Body)
  /-- It is what a function gives back. -/
  | result (line : Int) (outer : Body)
  /-- It is the condition of a choice. -/
  | condition (line : Int) (site : Site)
  /-- It stands between parentheses, the first on `line`. -/
  | parentheses (line : Int) (gap : Gap)
  /-- It is an argument of `callee`, behind the arguments `given`, the last first. -/
  | argument (place : Place) (phrase : Phrase) (callee : Operand) (line : Int)
    (given : List Node)
  /-- It is the value under `key` in an object literal. -/
  | member (line : Int) (entries : List (String × Node)) (key : String) (gap : Gap)

end

/-- What is known of a program after some of its tokens. -/
inductive Reading
  /-- A statement may begin. -/
  | statement (body : Body)
  /-- An operand must begin. -/
  | operand (gap : Gap)
  /-- An operand has been read, and may go on or be followed by an operator. -/
  | suffix (place : Place) (phrase : Phrase) (operand : Operand)
  /-- After the dot behind an operand. -/
  | field (place : Place) (phrase : Phrase) (operand : Operand)
  /-- After the parenthesis on `line` that begins the arguments of a call. -/
  | arguments (place : Place) (phrase : Phrase) (callee : Operand) (line : Int)
  /-- In the object literal that began on `line`, where a key or its end may follow. -/
  | key (line : Int) (entries : List (String × Node)) (gap : Gap)
  /-- After a key. -/
  | colon (line : Int) (entries : List (String × Node)) (key : String) (gap : Gap)
  /-- After the keyword of a declaration. -/
  | declaration (line : Int) (body : Body)
  /-- After the name in a declaration. -/
  | declared (line : Int) (name : String) (body : Body)
  /-- After `return`. -/
  | result (line : Int) (body : Body)
  /-- After `if`. -/
  | choice (line : Int) (site : Site)
  /-- After the condition of a choice and its closing parenthesis. -/
  | condition (line : Int) (test : Node) (site : Site)
  /-- After the first branch of a choice. -/
  | consequence (line : Int) (test block : Node) (site : Site)
  /-- After `else`. -/
  | alternative (line : Int) (test block : Node) (site : Site)
  /-- After `function`. -/
  | function (line : Int) (host : Host)
  /-- After the name of a function. -/
  | named (line : Int) (name : String) (host : Host)
  /-- After the parenthesis that begins the parameters of a function. -/
  | parameters (line : Int) (name : Option String) (host : Host)
  /-- After a parameter; the parameters are kept with the last first. -/
  | parameter (line : Int) (name : Option String) (read : List String) (host : Host)
  /-- After the comma behind a parameter. -/
  | nextParameter (line : Int) (name : Option String) (read : List String) (host : Host)
  /-- After the parameters of a function. -/
  | header (line : Int) (name : Option String) (parameters : List String) (host : Host)
  /-- After a named function at the start of a statement. -/
  | afterFunction (made : Node) (line : Int) (body : Body)

/-! ### Completing a construct -/

/-- The list with one more statement. -/
def Body.push : Body → Node → Body
  | .mk owner statements, n => .mk owner (n :: statements)

/-- The statement list around a choice that is complete. An `else` directly before the choice
puts it into a block of its own. -/
def Site.fill : Site → Node → Body
  | .statement outer, n => outer.push n
  | .alternative line condition consequence outer, n =>
    outer.fill (.branch condition consequence (.block [n] n.line) line)

/-- The list around a choice that has no `else`. -/
def Site.fillWithoutElse (site : Site) (line : Int) (condition consequence : Node) : Body :=
  site.fill (.branch condition consequence (.block [] line) line)

/-- The beginning of an expression at a place. -/
def Place.gap (place : Place) : Gap := .mk place .empty []

/-- The reading after the head of an operand, which begins on `line`. -/
def Gap.fill : Gap → Head → (line : Int) → Reading
  | .mk place phrase minuses, head, line => .suffix place phrase ⟨minuses, head, line, []⟩

/-- The place for the operand behind one more minus sign. -/
def Gap.negated : Gap → (line : Int) → Gap
  | .mk place phrase minuses, line => .mk place phrase (line :: minuses)

/-- The reading after a function. -/
def Host.fill : Host → Node → (line : Int) → Reading
  | .statement outer, function, line => .afterFunction function line outer
  | .operand gap, function, line => gap.fill (.node function) line

/-- The place of a function without a name: at the start of a statement it is an
expression. -/
def Host.anonymous : Host → Host
  | .statement outer => .operand (Place.statement none outer).gap
  | .operand gap => .operand gap

/-- The reading after the brace that ends a list of statements. -/
def Body.close? : Body → Option Reading
  | .mk owner statements =>
    let block := Node.block statements.reverse
    match owner with
    | .program => none
    | .consequence line condition site brace =>
      some (.consequence line condition (block brace) site)
    | .alternative line condition consequence site brace =>
      some (.statement (site.fill (.branch condition consequence (block brace) line)))
    | .function line name parameters host brace =>
      some (host.fill (.function name parameters (block brace) line) line)

/-- The statements an expression statement is. A function it begins with may be a statement
of its own, but not when a semicolon ends the expression. -/
def expressionStatements (semicolon : Bool) (leading : Option Node) (phrase : Phrase)
    (last : Operand) : List Node :=
  match semicolon, leading, phrase.behindFunction? last with
  | false, some function, some rest => [function, rest]
  | _, _, _ => [phrase.node last]

/-- The statement list around an expression that ends there, if the expression is in a
statement that may end with it. -/
def Place.finish? (semicolon : Bool) (phrase : Phrase) (last : Operand) : Place → Option Body
  | .statement leading outer =>
    some ((expressionStatements semicolon leading phrase last).foldl Body.push outer)
  | .declaration line name outer => some (outer.push (.assign name (phrase.node last) true line))
  | .result line outer => some (outer.push (.giveBack (phrase.node last) line))
  | _ => none

namespace Reading

/-- The statement list that the innermost statement leaves when it ends here. -/
def finishStatement? (semicolon : Bool) : Reading → Option Body
  | statement body => some body
  | suffix place phrase last => place.finish? semicolon phrase last
  | declared line name body =>
    some (body.push (.assign name (.constant .undefined line) true line))
  | result line body => some (body.push (.giveBack (.constant .undefined line) line))
  | consequence line test block site => some (site.fillWithoutElse line test block)
  | afterFunction made _ body => some (body.push made)
  | _ => none

/-- The statements of a program that ends here. -/
def finish? (r : Reading) : Option (List Node) :=
  match r.finishStatement? false with
  | some (.mk .program statements) => some statements.reverse
  | _ => none

/-! ### One more token -/

/-- An operand begins. -/
def beginOperand? (gap : Gap) (x : Lexeme) : Option Reading :=
  match x.token with
  | .name text => some (gap.fill (.name text) x.line)
  | .integer digits =>
    some (gap.fill (.node (.constant (.integer (Text.ofDigits digits.toList)) x.line)) x.line)
  | .string _ body =>
    some (gap.fill (.node (.constant (.string (literalText body)) x.line)) x.line)
  | .operator .minus => some (operand (gap.negated x.line))
  | .punctuation .openParen => some (operand (Place.parentheses x.line gap).gap)
  | .punctuation .openBrace => some (key x.line [] gap)
  | .keyword .wordFunction => some (function x.line (.operand gap))
  | _ => none

/-- A statement begins. -/
def beginStatement? (body : Body) (x : Lexeme) : Option Reading :=
  match x.token with
  | .keyword .wordVar | .keyword .wordLet | .keyword .wordConst =>
    some (declaration x.line body)
  | .keyword .wordReturn => some (result x.line body)
  | .keyword .wordIf => some (choice x.line (.statement body))
  | .keyword .wordFunction => some (function x.line (.statement body))
  | _ => beginOperand? (Place.statement none body).gap x

/-- A parenthesis closes behind an operand. -/
def closeParen? (place : Place) (phrase : Phrase) (last : Operand) : Option Reading :=
  match place with
  | .condition line site => some (condition line (phrase.node last) site)
  | .parentheses line gap => some (gap.fill (.node (phrase.node last)) line)
  | .argument outer outerPhrase callee line given =>
    let arguments := (phrase.node last :: given).reverse
    some (suffix outer outerPhrase (callee.suffixed (.call arguments line)))
  | _ => none

/-- A comma follows an operand. -/
def comma? (place : Place) (phrase : Phrase) (last : Operand) : Option Reading :=
  match place with
  | .argument outer outerPhrase callee line given =>
    some (operand (Place.argument outer outerPhrase callee line (phrase.node last :: given)).gap)
  | .member line entries name gap =>
    some (key line (Entries.put entries name (phrase.node last)) gap)
  | _ => none

/-- An operand goes on, or something other than a semicolon or a closing brace follows it. -/
def continueOperand? (place : Place) (phrase : Phrase) (last : Operand) (x : Lexeme) :
    Option Reading :=
  match x.token with
  | .operator op => some (operand (.mk place (phrase.push ⟨last, op, x.line⟩) []))
  | .punctuation .dot => some (field place phrase last)
  | .punctuation .openParen => some (arguments place phrase last x.line)
  | .punctuation .assign =>
    (phrase.assign? last).map fun phrase => operand (.mk place phrase [])
  | .punctuation .closeParen => closeParen? place phrase last
  | .punctuation .comma => comma? place phrase last
  | _ => none

/-- Whether a token behind a function can continue an expression that begins with it. -/
def continuesExpression : Token → Bool
  | .operator _ | .punctuation .dot | .punctuation .openParen => true
  | _ => false

/-- A closing brace ends an object literal, or else the innermost statement and the list it is
in. -/
def closeBrace? : Reading → Option Reading
  | key line entries gap => some (gap.fill (.node (.record entries line)) line)
  | suffix (.member line entries name gap) phrase last =>
    let entries := Entries.put entries name (phrase.node last)
    some (gap.fill (.node (.record entries line)) line)
  | r => (r.finishStatement? false).bind Body.close?

/-- The reading after a mark of punctuation, which alone can stand there. -/
def onMark? (mark : Punctuation) (x : Lexeme) (next : Reading) : Option Reading :=
  if x.token = .punctuation mark then some next else none

/-- The reading after a name, which alone can stand there. -/
def onName? (x : Lexeme) (next : String → Reading) : Option Reading :=
  match x.token with
  | .name name => some (next name)
  | _ => none

/-- A key of an object literal, which may be a name or a string. -/
def onKey? (x : Lexeme) (next : String → Reading) : Option Reading :=
  match x.token with
  | .name name => some (next name)
  | .string _ body => some (next (literalText body))
  | _ => none

/-- The reading after a token that is neither a semicolon nor a closing brace. -/
def advance? (r : Reading) (x : Lexeme) : Option Reading :=
  match r with
  | statement body => beginStatement? body x
  | operand gap => beginOperand? gap x
  | suffix place phrase last => continueOperand? place phrase last x
  | field place phrase last =>
    onName? x fun name => suffix place phrase (last.suffixed (.field name))
  | arguments place phrase callee line =>
    if x.token = .punctuation .closeParen then
      some (suffix place phrase (callee.suffixed (.call [] line)))
    else beginOperand? (Place.argument place phrase callee line []).gap x
  | key line entries gap => onKey? x fun name => colon line entries name gap
  | colon line entries name gap =>
    onMark? .colon x (operand (Place.member line entries name gap).gap)
  | declaration line body => onName? x fun name => declared line name body
  | declared line name body =>
    onMark? .assign x (operand (Place.declaration line name body).gap)
  | result line body => beginOperand? (Place.result line body).gap x
  | choice line site => onMark? .openParen x (operand (Place.condition line site).gap)
  | condition line test site =>
    onMark? .openBrace x (statement (.mk (.consequence line test site x.line) []))
  | consequence line test block site =>
    if x.token = .keyword .wordElse then some (alternative line test block site)
    else beginStatement? (site.fillWithoutElse line test block) x
  | alternative line test block site =>
    if x.token = .keyword .wordIf then
      some (choice x.line (.alternative line test block site))
    else onMark? .openBrace x (statement (.mk (.alternative line test block site x.line) []))
  | function line host =>
    match x.token with
    | .name name => some (named line name host)
    | .punctuation .openParen => some (parameters line none host.anonymous)
    | _ => none
  | named line name host => onMark? .openParen x (parameters line (some name) host)
  | parameters line name host =>
    match x.token with
    | .punctuation .closeParen => some (header line name [] host)
    | .name p => some (parameter line name [p] host)
    | _ => none
  | parameter line name read host =>
    match x.token with
    | .punctuation .closeParen => some (header line name read.reverse host)
    | .punctuation .comma => some (nextParameter line name read host)
    | _ => none
  | nextParameter line name read host =>
    onName? x fun p => parameter line name (p :: read) host
  | header line name read host =>
    onMark? .openBrace x (statement (.mk (.function line name read host x.line) []))
  | afterFunction made line body =>
    if continuesExpression x.token then
      continueOperand? (.statement (some made) body) .empty ⟨[], .node made, line, []⟩ x
    else beginStatement? (body.push made) x

/-- The reading after one more token, if any program has that token there. -/
def step? (r : Reading) (x : Lexeme) : Option Reading :=
  match x.token with
  | .punctuation .semicolon => (r.finishStatement? true).map statement
  | .punctuation .closeBrace => r.closeBrace?
  | _ => r.advance? x

/-- The reading of no token. -/
def start : Reading := statement (.mk .program [])

/-- The reading after some tokens, or the first of them that cannot stand where it does. -/
def readAll (r : Reading) : List Lexeme → Except Lexeme Reading
  | [] => .ok r
  | x :: rest =>
    match r.step? x with
    | some next => next.readAll rest
    | none => .error x

end Reading

end Scriptlet.Source
