/-
  Listings — programs in prefix form.

  A tree is turned into an s-expression whose head names the construct:

  * `Expr.toSexp`, `Function.toSexp`, `Stmt.toSexp`, one form for each construct;
  * `Stmt.listing`: the text of a statement, such as `(print (+ 1.0 (group x)))`.
-/
import Scriptling.Number.Layout
import Scriptling.Sexp
import Scriptling.Syntax

namespace Scriptling

/-! ## Symbols -/

def UnaryOp.symbol : UnaryOp → String
  | not => "!"
  | minus => "-"
  | plus => "+"

def BinaryOp.symbol : BinaryOp → String
  | plus => "+"
  | minus => "-"
  | times => "*"
  | .over => "/"
  | greater => ">"
  | greaterEqual => ">="
  | less => "<"
  | lessEqual => "<="
  | equal => "=="
  | notEqual => "!="

def LogicalOp.symbol : LogicalOp → String
  | and => "&&"
  | or => "||"

/-- A constant as it is listed; strings stand without quotes. -/
def Literal.listing : Literal → String
  | number value => value.listing
  | string value => value
  | bool true => "true"
  | bool false => "false"
  | null => "null"

/-! ## Trees as s-expressions -/

open Sexp (atom list)

mutual

def Expr.toSexp : Expr → Sexp
  | .literal value => atom value.listing
  | .group e => list [atom "group", e.toSexp]
  | .unary op _ e => list [atom op.symbol, e.toSexp]
  | .binary op _ l r => list [atom op.symbol, l.toSexp, r.toSexp]
  | .logical op l r => list [atom op.symbol, l.toSexp, r.toSexp]
  | .ternary c y n => list [atom "?", c.toSexp, y.toSexp, n.toSexp]
  | .variable _ name => atom name.text
  | .assign _ name value => list [atom "=", atom name.text, value.toSexp]
  | .call callee _ arguments => list (atom "call" :: callee.toSexp :: Expr.toSexps arguments)
  | .get object name => list [atom ".", object.toSexp, atom name.text]
  | .set object name value =>
    list [atom "=", list [atom ".", object.toSexp, atom name.text], value.toSexp]
  | .this _ _ => atom "this"
  | .function f => f.toSexp

def Expr.toSexps : List Expr → List Sexp
  | [] => []
  | e :: es => e.toSexp :: Expr.toSexps es

/-- An optional value at the end of a form: nothing stands for nothing. -/
def Expr.toSexpOpt : Option Expr → List Sexp
  | none => []
  | some e => [e.toSexp]

/-- A clause of a `for`: an underscore stands for nothing. -/
def Expr.toSexpClause : Option Expr → Sexp
  | none => atom "_"
  | some e => e.toSexp

def Function.toSexp : Function → Sexp
  | .mk name params body _ =>
    list (atom "fn" :: atom ((name.map Name.text).getD "anonymous")
      :: list (params.map fun p => atom p.text) :: Stmt.toSexps body)

def Function.toSexps : List Function → List Sexp
  | [] => []
  | f :: fs => f.toSexp :: Function.toSexps fs

def Stmt.toSexp : Stmt → Sexp
  | .expression e => list [atom "expr", e.toSexp]
  | .print e => list [atom "print", e.toSexp]
  | .let name value => list (atom "let" :: atom name.text :: Expr.toSexpOpt value)
  | .block body => list (atom "block" :: Stmt.toSexps body)
  | .if condition yes no =>
    list (atom "if" :: condition.toSexp :: yes.toSexp :: Stmt.toSexpOpt no)
  | .while condition body => list [atom "while", condition.toSexp, body.toSexp]
  | .for name value condition step body =>
    list [atom "for", list (atom "let" :: atom name.text :: Expr.toSexpOpt value),
      Expr.toSexpClause condition, Expr.toSexpClause step, body.toSexp]
  | .break _ => list [atom "break"]
  | .continue _ => list [atom "continue"]
  | .return _ value => list (atom "return" :: Expr.toSexpOpt value)
  | .struct name methods => list (atom "struct" :: atom name.text :: Function.toSexps methods)

def Stmt.toSexps : List Stmt → List Sexp
  | [] => []
  | s :: ss => s.toSexp :: Stmt.toSexps ss

def Stmt.toSexpOpt : Option Stmt → List Sexp
  | none => []
  | some s => [s.toSexp]

end

/-- The listing of a statement. -/
def Stmt.listing (s : Stmt) : String := s.toSexp.text

end Scriptling
