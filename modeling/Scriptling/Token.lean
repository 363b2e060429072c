/-
  Tokens — the words of a program.

  * `TokenKind`: punctuation, operators, literals with their values, names, keywords and
    the end of the text; `keyword?` tells the sixteen keywords from names;
  * `Token`: a kind, the text it was read from, and the line on which it ended;
  * `Token.row`: the token as one line of a token list.
-/
import Scriptling.Number.Layout

namespace Scriptling

/-- The kinds of tokens. -/
inductive TokenKind where
  | leftParen | rightParen | leftBrace | rightBrace | leftBracket | rightBracket
  | comma | dot | minus | plus | semicolon | slash | star | question | colon
  | bang | bangEqual | equal | equalEqual | greater | greaterEqual | less | lessEqual
  | and | or
  | identifier
  | string (contents : String)
  | number (value : Number)
  | «break» | «continue» | «else» | «false» | fn | «for» | «if» | «let» | null | print
  | «return» | struct | super | this | «true» | «while»
  | endOfFile
deriving DecidableEq

namespace TokenKind

/-- The name of a kind in token lists. -/
def name : TokenKind → String
  | leftParen => "LEFT_PAREN"
  | rightParen => "RIGHT_PAREN"
  | leftBrace => "LEFT_BRACE"
  | rightBrace => "RIGHT_BRACE"
  | leftBracket => "LEFT_BRACKET"
  | rightBracket => "RIGHT_BRACKET"
  | comma => "COMMA"
  | dot => "DOT"
  | minus => "MINUS"
  | plus => "PLUS"
  | semicolon => "SEMICOLON"
  | slash => "SLASH"
  | star => "STAR"
  | question => "QUESTION"
  | colon => "COLON"
  | bang => "BANG"
  | bangEqual => "BANG_EQUAL"
  | equal => "EQUAL"
  | equalEqual => "EQUAL_EQUAL"
  | greater => "GREATER"
  | greaterEqual => "GREATER_EQUAL"
  | less => "LESS"
  | lessEqual => "LESS_EQUAL"
  | and => "AND"
  | or => "OR"
  | identifier => "IDENTIFIER"
  | string _ => "STRING"
  | number _ => "NUMBER"
  | «break» => "BREAK"
  | «continue» => "CONTINUE"
  | «else» => "ELSE"
  | «false» => "FALSE"
  | fn => "FN"
  | «for» => "FOR"
  | «if» => "IF"
  | «let» => "LET"
  | null => "NULL"
  | print => "PRINT"
  | «return» => "RETURN"
  | struct => "STRUCT"
  | super => "SUPER"
  | this => "THIS"
  | «true» => "TRUE"
  | «while» => "WHILE"
  | endOfFile => "EOF"

/-- The keyword that a word is, if it is one. -/
def keyword? : String → Option TokenKind
  | "break" => some «break»
  | "continue" => some «continue»
  | "else" => some «else»
  | "false" => some «false»
  | "fn" => some fn
  | "for" => some «for»
  | "if" => some «if»
  | "let" => some «let»
  | "null" => some null
  | "print" => some print
  | "return" => some «return»
  | "struct" => some struct
  | "super" => some super
  | "this" => some this
  | "true" => some «true»
  | "while" => some «while»
  | _ => none

/-- The kind of a word: a keyword or a name. -/
def ofWord (word : String) : TokenKind := (keyword? word).getD identifier

/-- The value column of a token list. -/
def literal : TokenKind → String
  | string contents => contents
  | number value => value.literal
  | _ => "null"

end TokenKind

/-- A token. -/
structure Token where
  kind : TokenKind
  /-- The text of the token. -/
  lexeme : String
  /-- The line on which the token ends. -/
  line : Nat
deriving DecidableEq

/-- A line of a token list: kind, text and value. -/
def Token.row (t : Token) : String := t.kind.name ++ " " ++ t.lexeme ++ " " ++ t.kind.literal

end Scriptling
