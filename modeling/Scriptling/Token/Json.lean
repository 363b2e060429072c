/-
  Token lists in JSON — an array of objects, indented by two spaces.

  * `Token.json`: one token, with its kind, text and line;
  * `tokensJson`: the whole list.
-/
import Scriptling.Text.Quoted
import Scriptling.Token

namespace Scriptling

/-- A kind that carries a value, as an object with one member. -/
def taggedJson (name value : String) : String :=
  "\x7b\n      " ++ jsonQuoted name ++ ": " ++ value ++ "\n    \x7d"

/-- A kind: its name, or an object with its name and value. -/
def TokenKind.json : TokenKind → String
  | string contents => taggedJson "STRING" (jsonQuoted contents)
  | number value => taggedJson "NUMBER" (Layout.json.write value)
  | kind => jsonQuoted kind.name

/-- A token as an object. -/
def Token.json (t : Token) : String :=
  "  \x7b\n    \"token_type\": " ++ t.kind.json ++ ",\n    \"lexeme\": " ++ jsonQuoted t.lexeme
    ++ ",\n    \"line\": " ++ toString t.line ++ "\n  \x7d"

/-- A list of tokens as an array. -/
def tokensJson : List Token → String
  | [] => "[]"
  | ts => "[\n" ++ String.intercalate ",\n" (ts.map Token.json) ++ "\n]"

end Scriptling
