/-!
# The Built-In Grammar

The text of the grammar that sources are read by unless another one is asked for. A file that is
asked for may hold this very text, and then the grammar is the same.
-/

namespace Scriptlet.CommandLine

/-- The lines of the built-in grammar. -/
def builtInGrammarLines : List String :=
  ["// smalljs surface grammar, parsed with Earley + basic lexer.",
   "// Every statement but the last one of a program/block ends with \x27;\x27.",
   "",
   "start: _stmts",
   "",
   "_stmts: stmt* tail?",
   "",
   "block: \x22\x7b\x22 _stmts \x22\x7d\x22",
   "",
   "?stmt: expr \x22;\x22                                  -> expr_stmt",
   "     | _decl NAME [\x22=\x22 expr] \x22;\x22                  -> var_decl",
   "     | \x22return\x22 [expr] \x22;\x22                        -> return_stmt",
   "     | if_stmt",
   "     | fun_stmt",
   "     | \x22;\x22                                        -> empty_stmt",
   "",
   "?tail: expr                                      -> expr_stmt",
   "     | \x22return\x22 [expr]                            -> return_stmt",
   "     | _decl NAME [\x22=\x22 expr]                      -> var_decl",
   "",
   "_decl: \x22var\x22 | \x22let\x22 | \x22const\x22",
   "",
   "if_stmt: \x22if\x22 \x22(\x22 expr \x22)\x22 block [\x22else\x22 (block | if_stmt)]",
   "",
   "fun_stmt: \x22function\x22 NAME \x22(\x22 params \x22)\x22 block",
   "",
   "// ---------------- expressions ----------------",
   "",
   "?expr: assignment",
   "",
   "?assignment: equality",
   "           | NAME \x22=\x22 assignment                  -> var_assign",
   "           | postfix \x22.\x22 NAME \x22=\x22 assignment      -> field_assign",
   "",
   "?equality: comparison",
   "         | equality (EQ | NE) comparison          -> binop",
   "",
   "?comparison: sum",
   "           | comparison (LE | GE | LT | GT) sum   -> binop",
   "",
   "?sum: product",
   "    | sum (PLUS | MINUS) product                  -> binop",
   "",
   "?product: unary",
   "        | product (STAR | SLASH | PERCENT) unary  -> binop",
   "",
   "?unary: postfix",
   "      | MINUS unary                               -> neg",
   "",
   "?postfix: nonfield",
   "        | postfix \x22.\x22 NAME                        -> field",
   "",
   "// a call\x27s callee is never a bare field access: `o.m(x)` is a method call",
   "?nonfield: primary",
   "         | nonfield \x22(\x22 arguments \x22)\x22             -> call",
   "         | postfix \x22.\x22 NAME \x22(\x22 arguments \x22)\x22     -> method_call",
   "",
   "arguments: [expr (\x22,\x22 expr)*]",
   "",
   "?primary: INT                                     -> number",
   "        | STRING                                  -> string",
   "        | NAME                                    -> var",
   "        | \x22(\x22 expr \x22)\x22",
   "        | object",
   "        | fun",
   "",
   "object: \x22\x7b\x22 [member (\x22,\x22 member)* [\x22,\x22]] \x22\x7d\x22",
   "",
   "member: (NAME | STRING) \x22:\x22 expr",
   "",
   "fun: \x22function\x22 [NAME] \x22(\x22 params \x22)\x22 block",
   "",
   "params: [NAME (\x22,\x22 NAME)*]",
   "",
   "// ---------------- terminals ----------------",
   "",
   "EQ: \x22==\x22",
   "NE: \x22!=\x22",
   "LE: \x22<=\x22",
   "GE: \x22>=\x22",
   "LT: \x22<\x22",
   "GT: \x22>\x22",
   "PLUS: \x22+\x22",
   "MINUS: \x22-\x22",
   "STAR: \x22*\x22",
   "SLASH: \x22/\x22",
   "PERCENT: \x22%\x22",
   "",
   "NAME: /[A-Za-z_$][A-Za-z0-9_$]*/",
   "INT: /[0-9]+/",
   "STRING: /\x22(?:[^\x22\\\\\\n]|\\\\.)*\x22/ | /\x27(?:[^\x27\\\\\\n]|\\\\.)*\x27/",
   "",
   "LINE_COMMENT: /\\/\\/[^\\n]*/",
   "BLOCK_COMMENT: /\\/\\*(.|\\n)*?\\*\\//",
   "",
   "%import common.WS",
   "%ignore WS",
   "%ignore LINE_COMMENT",
   "%ignore BLOCK_COMMENT"]

/-- The text of the built-in grammar. -/
def builtInGrammar : String := String.join (builtInGrammarLines.map (· ++ "\n"))

end Scriptlet.CommandLine
