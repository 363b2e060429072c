/-
  S-expressions — atoms and lists in parentheses.

  * `Sexp.write`: the text, with one space between the items of a list;
  * `Sexp.writeOnto`: the same, put in front of another text.
-/
namespace Scriptling

/-- An atom or a list of s-expressions. -/
inductive Sexp where
  | atom (text : String)
  | list (items : List Sexp)

namespace Sexp

mutual

/-- The text of an s-expression in front of a text. -/
def writeOnto : Sexp → List Char → List Char
  | atom text, r => text.toList ++ r
  | list [], r => '(' :: ')' :: r
  | list (x :: xs), r => '(' :: x.writeOnto (writeRest xs r)

/-- The items after the first of a list and its closing parenthesis, in front of a text. -/
def writeRest : List Sexp → List Char → List Char
  | [], r => ')' :: r
  | x :: xs, r => ' ' :: x.writeOnto (writeRest xs r)

end

/-- The text of an s-expression. -/
def write (s : Sexp) : List Char := s.writeOnto []

/-- The text of an s-expression, as a string. -/
def text (s : Sexp) : String := String.ofList s.write

end Sexp

end Scriptling
