/-
  Syntax — programs as trees.

  Expressions, statements and functions refer to one another.  Each place where a program
  refers to a variable or to `this` is a *site* with a number of its own, under which the
  distance to its binding is recorded.

  * `Expr`, `Stmt`, `Function`: the trees; a `for` always declares its variable;
  * `Stmt.references`: the sites of a program, each with its name and line, a node before
    its parts and the parts from left to right.
-/
import Scriptling.Number.Basic

namespace Scriptling

/-- A name as written in a program. -/
structure Name where
  text : String
  line : Nat
deriving DecidableEq, Inhabited

/-- Constants in a program. -/
inductive Literal where
  | number (value : Number)
  | string (value : String)
  | bool (value : Bool)
  | null
deriving DecidableEq

inductive UnaryOp where
  | not | minus | plus
deriving DecidableEq

inductive BinaryOp where
  | plus | minus | times | over
  | greater | greaterEqual | less | lessEqual
  | equal | notEqual
deriving DecidableEq

inductive LogicalOp where
  | and | or
deriving DecidableEq

mutual

/-- Expressions. -/
inductive Expr where
  | literal (value : Literal)
  /-- An expression in parentheses. -/
  | group (inner : Expr)
  | unary (op : UnaryOp) (line : Nat) (operand : Expr)
  | binary (op : BinaryOp) (line : Nat) (left right : Expr)
  | logical (op : LogicalOp) (left right : Expr)
  | ternary (condition yes no : Expr)
  | variable (site : Nat) (name : Name)
  | assign (site : Nat) (name : Name) (value : Expr)
  /-- The line is that of the closing parenthesis. -/
  | call (callee : Expr) (line : Nat) (arguments : List Expr)
  | get (object : Expr) (name : Name)
  | set (object : Expr) (name : Name) (value : Expr)
  | this (site : Nat) (line : Nat)
  | function (f : Function)

/-- Function literals and methods; the line is that of `fn` or of the method's name. -/
inductive Function where
  | mk (name : Option Name) (params : List Name) (body : List Stmt) (line : Nat)

/-- Statements. -/
inductive Stmt where
  | expression (e : Expr)
  | print (e : Expr)
  | «let» (name : Name) (value : Option Expr)
  | block (body : List Stmt)
  | «if» (condition : Expr) (yes : Stmt) (no : Option Stmt)
  | «while» (condition : Expr) (body : Stmt)
  /-- A loop with a variable of its own; the clauses are the variable's first value, the
      condition, and what is evaluated after each round. -/
  | «for» (name : Name) (value condition step : Option Expr) (body : Stmt)
  | «break» (line : Nat)
  | «continue» (line : Nat)
  | «return» (line : Nat) (value : Option Expr)
  | struct (name : Name) (methods : List Function)

end

namespace Function

def name : Function → Option Name
  | mk name _ _ _ => name

def params : Function → List Name
  | mk _ params _ _ => params

def body : Function → List Stmt
  | mk _ _ body _ => body

/-- The name to show for a function. -/
def title (f : Function) : String := (f.name.map Name.text).getD "anonymous"

end Function

/-! ## Sites -/

/-- How a site refers to its binding. -/
inductive Access where
  | read | write | receiver
deriving DecidableEq

/-- A site with the name it refers to and the line it stands on. -/
structure Reference where
  access : Access
  site : Nat
  name : Name
deriving DecidableEq

mutual

def Expr.references : Expr → List Reference
  | .literal _ => []
  | .group e => e.references
  | .unary _ _ e => e.references
  | .binary _ _ l r => l.references ++ r.references
  | .logical _ l r => l.references ++ r.references
  | .ternary c y n => c.references ++ y.references ++ n.references
  | .variable site name => [⟨.read, site, name⟩]
  | .assign site name value => ⟨.write, site, name⟩ :: value.references
  | .call callee _ arguments => callee.references ++ Expr.referencesAll arguments
  | .get object _ => object.references
  | .set object _ value => object.references ++ value.references
  | .this site line => [⟨.receiver, site, ⟨"this", line⟩⟩]
  | .function f => f.references

def Expr.referencesAll : List Expr → List Reference
  | [] => []
  | e :: es => e.references ++ Expr.referencesAll es

def Expr.referencesOpt : Option Expr → List Reference
  | none => []
  | some e => e.references

def Function.references : Function → List Reference
  | .mk _ _ body _ => Stmt.referencesAll body

def Function.referencesAll : List Function → List Reference
  | [] => []
  | f :: fs => f.references ++ Function.referencesAll fs

def Stmt.references : Stmt → List Reference
  | .expression e => e.references
  | .print e => e.references
  | .let _ value => Expr.referencesOpt value
  | .block body => Stmt.referencesAll body
  | .if condition yes no =>
    condition.references ++ yes.references ++ Stmt.referencesOpt no
  | .while condition body => condition.references ++ body.references
  | .for _ value condition step body =>
    Expr.referencesOpt value ++ Expr.referencesOpt condition ++ Expr.referencesOpt step
      ++ body.references
  | .break _ => []
  | .continue _ => []
  | .return _ value => Expr.referencesOpt value
  | .struct _ methods => Function.referencesAll methods

def Stmt.referencesOpt : Option Stmt → List Reference
  | none => []
  | some s => s.references

/-- The references of a program in order. -/
def Stmt.referencesAll : List Stmt → List Reference
  | [] => []
  | s :: ss => s.references ++ Stmt.referencesAll ss

end

end Scriptling
