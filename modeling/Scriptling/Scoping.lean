/-
  Scoping — which binding each reference means.

  A walk over a program keeps the scopes around the current point, innermost first.  A
  scope knows the names declared in it so far, and of each whether its first value is
  still being computed.  Names declared outside all scopes are global.

  * `Walk.refer`: a reference means the nearest scope that knows its name, except that a
    variable is not visible in its own first value; how many scopes lie between is
    recorded for the site, and nothing is recorded for a global;
  * `Stmt.resolve` and its companions: the walk itself, in which misplaced `break`,
    `continue`, `return` and `this` are errors;
  * `resolve`: the distances of all sites of a program.
-/
import Scriptling.Bindings
import Scriptling.Error
import Scriptling.Syntax

namespace Scriptling

/-! ## Walks -/

/-- The names declared in a scope; `false` while the first value is being computed. -/
abbrev Scope := Bindings Bool

/-- What kind of function a point is in. -/
inductive FunctionKind where
  | none | function | method
deriving DecidableEq

/-- What is known at a point of a program. -/
structure Walk where
  /-- The scopes around the point, innermost first. -/
  scopes : List Scope := []
  /-- The global names. -/
  globals : List String
  /-- The global whose first value is being computed. -/
  pending : Option String := none
  /-- The distances recorded so far, latest first. -/
  distances : List (Nat × Nat) := []
  /-- The kind of the innermost function around the point. -/
  function : FunctionKind := .none
  /-- The point is in a method of a struct. -/
  inStruct : Bool := false
  /-- How many loops of the same function are around the point. -/
  loops : Nat := 0

namespace Walk

/-- How far out the nearest scope is that knows a name. -/
def nearest? (scopes : List Scope) (x : String) : Option Nat :=
  scopes.findIdx? fun s => s.contains x

/-- The innermost scope knows the name, but its first value is being computed. -/
def isPending (w : Walk) (x : String) : Bool :=
  match w.scopes with
  | [] => false
  | s :: _ => s.get? x == some false

/-- The distance of a reference to a name. -/
def distance? (w : Walk) (x : String) : Option Nat :=
  if w.isPending x then (nearest? w.scopes.tail x).map (· + 1) else nearest? w.scopes x

/-- The name is being given its first value, inside or outside of all scopes. -/
def isOwnInitializer (w : Walk) (x : String) : Bool :=
  w.isPending x || (w.scopes.isEmpty && w.pending == some x)

/-- Records what a reference means. -/
def refer (w : Walk) (site : Nat) (name : Name) : Except Error Walk :=
  match w.distance? name.text with
  | some d => .ok { w with distances := (site, d) :: w.distances }
  | none =>
    if w.isOwnInitializer name.text && !w.globals.contains name.text then
      .error (.scoping name.line (.ownInitializer name.text))
    else .ok w

/-- Declares a name in the innermost scope. -/
def mark (w : Walk) (x : String) (ready : Bool) : Walk :=
  match w.scopes with
  | [] => w
  | s :: rest => { w with scopes := s.set x ready :: rest }

/-- Declares a name that has its value at once. -/
def bind (w : Walk) (x : String) : Walk :=
  if w.scopes.isEmpty then { w with globals := x :: w.globals } else w.mark x true

/-- Walks inside one more scope. -/
def within (w : Walk) (s : Scope) (inside : Walk → Except Error Walk) : Except Error Walk := do
  let after ← inside { w with scopes := s :: w.scopes }
  return { after with scopes := after.scopes.tail }

/-- Walks a declaration with a first value. -/
def declare (w : Walk) (x : String) (value : Walk → Except Error Walk) : Except Error Walk := do
  if w.scopes.isEmpty then
    let after ← value { w with pending := some x }
    return { after with pending := none, globals := x :: after.globals }
  else
    let after ← value (w.mark x false)
    return after.mark x true

/-- Walks the body of a loop. -/
def inLoop (w : Walk) (body : Walk → Except Error Walk) : Except Error Walk := do
  let after ← body { w with loops := w.loops + 1 }
  return { after with loops := after.loops - 1 }

/-- Walks a function as one of a kind. -/
def inFunction (w : Walk) (kind : FunctionKind) (function : Walk → Except Error Walk) :
    Except Error Walk := do
  let after ← function { w with function := kind }
  return { after with function := w.function }

/-- Walks the body of a function, in the scope of its parameters and outside of all loops. -/
def inBody (w : Walk) (params : List Name) (body : Walk → Except Error Walk) :
    Except Error Walk := do
  let scope := params.foldl (fun s p => s.set p.text true) Bindings.empty
  let after ← within { w with loops := 0 } scope body
  return { after with loops := w.loops }

/-- Walks the methods of a struct. -/
def inMethods (w : Walk) (methods : Walk → Except Error Walk) : Except Error Walk := do
  let after ← methods { w with inStruct := true }
  return { after with inStruct := w.inStruct }

/-- Passes if the statement is in its place. -/
def require (w : Walk) (condition : Bool) (line : Nat) (fault : ScopeFault) :
    Except Error Walk :=
  if condition then .ok w else .error (.scoping line fault)

end Walk

/-- The scope around a method: it knows `this`. -/
def methodScope : Scope := Bindings.empty.set "this" true

/-! ## The walk -/

mutual

def Expr.resolve : Expr → Walk → Except Error Walk
  | .literal _, w => .ok w
  | .group e, w => e.resolve w
  | .unary _ _ e, w => e.resolve w
  | .binary _ _ l r, w => do
    let w ← l.resolve w
    r.resolve w
  | .logical _ l r, w => do
    let w ← l.resolve w
    r.resolve w
  | .ternary c y n, w => do
    let w ← c.resolve w
    let w ← y.resolve w
    n.resolve w
  | .variable site name, w => w.refer site name
  | .assign site name value, w => do
    let w ← value.resolve w
    w.refer site name
  | .call callee _ arguments, w => do
    let w ← callee.resolve w
    Expr.resolveAll arguments w
  | .get object _, w => object.resolve w
  | .set object _ value, w => do
    let w ← value.resolve w
    object.resolve w
  | .this site line, w => do
    let w ← w.require w.inStruct line .thisOutsideMethod
    w.refer site ⟨"this", line⟩
  | .function f, w =>
    (match f.name with
      | some name => w.bind name.text
      | none => w).inFunction .function fun w => f.resolve w

def Expr.resolveAll : List Expr → Walk → Except Error Walk
  | [], w => .ok w
  | e :: es, w => do
    let w ← e.resolve w
    Expr.resolveAll es w

def Expr.resolveOpt : Option Expr → Walk → Except Error Walk
  | none, w => .ok w
  | some e, w => e.resolve w

/-- Walks the parameters and the body of a function, without declaring its name. -/
def Function.resolve : Function → Walk → Except Error Walk
  | .mk _ params body _, w => w.inBody params fun w => Stmt.resolveAll body w

def Function.resolveMethods : List Function → Walk → Except Error Walk
  | [], w => .ok w
  | f :: fs, w => do
    let w ← w.within methodScope fun w => w.inFunction .method fun w => f.resolve w
    Function.resolveMethods fs w

def Stmt.resolve : Stmt → Walk → Except Error Walk
  | .expression e, w => e.resolve w
  | .print e, w => e.resolve w
  | .let name value, w => w.declare name.text fun w => Expr.resolveOpt value w
  | .block body, w => w.within .empty fun w => Stmt.resolveAll body w
  | .if condition yes no, w => do
    let w ← condition.resolve w
    let w ← yes.resolve w
    Stmt.resolveOpt no w
  | .while condition body, w => do
    let w ← condition.resolve w
    w.inLoop fun w => body.resolve w
  | .for name value condition step body, w =>
    w.within .empty fun w => do
      let w ← w.declare name.text fun w => Expr.resolveOpt value w
      let w ← Expr.resolveOpt condition w
      let w ← Expr.resolveOpt step w
      w.inLoop fun w => body.resolve w
  | .break line, w => w.require (w.loops != 0) line .breakOutsideLoop
  | .continue line, w => w.require (w.loops != 0) line .continueOutsideLoop
  | .return line value, w => do
    let w ← w.require (w.function != .none) line .returnOutsideFunction
    Expr.resolveOpt value w
  | .struct name methods, w =>
    (w.bind name.text).inMethods fun w => Function.resolveMethods methods w

def Stmt.resolveOpt : Option Stmt → Walk → Except Error Walk
  | none, w => .ok w
  | some s, w => s.resolve w

def Stmt.resolveAll : List Stmt → Walk → Except Error Walk
  | [], w => .ok w
  | s :: ss, w => do
    let w ← s.resolve w
    Stmt.resolveAll ss w

end

/-- The distances of the references of a program, latest first; `globals` are the names
    that are bound already. -/
def resolve (globals : List String) (program : List Stmt) :
    Except Error (List (Nat × Nat)) := do
  let w ← Stmt.resolveAll program { globals := globals }
  return w.distances

end Scriptling
