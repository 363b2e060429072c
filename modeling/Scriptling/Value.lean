/-
  Values — what expressions evaluate to.

  Numbers, strings, booleans and `null` are compared by what they are; functions, structs
  and instances by identity.  The fields of an instance live in a store of their own, so
  a value only names them.

  An identity is a number given out once.

  * `HostOperation`: what host functions do; `Host`: what else a host may do;
  * `Value.isTruthy`, `Value.typeOf`, `Value.text`, `Value.equals`;
  * `Value.toNumber`: the number that a value counts as;
  * `UnaryOp.apply`, `BinaryOp.apply`: the operators on values.
-/
import Scriptling.Environment
import Scriptling.Number.Layout

namespace Scriptling

/-- A function together with the scope it was made in. -/
structure Closure where
  identity : Nat
  function : Function
  scope : Chain

/-- A declared struct. -/
structure Template where
  identity : Nat
  name : String
  methods : Bindings Closure

/-- What host functions do. -/
inductive HostOperation where
  /-- Tells the time in milliseconds. -/
  | clock
  /-- Doubles a number. -/
  | double
  /-- The name of the type of a value. -/
  | typeName
  /-- The text of a value. -/
  | text
  /-- The number that a value counts as. -/
  | number
  /-- How many arguments something callable takes. -/
  | arity
  /-- Calls something callable with one argument, however many it takes. -/
  | apply
  /-- The global names, separated by commas. -/
  | names
  /-- Runs the text of a value as a program. -/
  | nested
  /-- Does nothing. -/
  | idle
  /-- Whatever the host does under a key (`Host`). -/
  | custom (key : Nat)
deriving DecidableEq

/-- A function of the host. -/
structure Native where
  identity : Nat
  name : String
  arity : Nat
  operation : HostOperation

/-- What can be called. -/
inductive Callable where
  | closure (c : Closure)
  | struct (t : Template)
  | native (n : Native)

/-- Values. -/
inductive Value where
  | number (n : Number)
  | string (s : String)
  | bool (b : Bool)
  | null
  | callable (c : Callable)
  /-- An instance of a struct, with the place of its fields in the store. -/
  | object (template : Template) (place : Nat)

instance : Inhabited Value := ⟨.null⟩

/-- What comes to the knowledge of the host. -/
inductive HostEvent where
  /-- A function of the host is called. -/
  | called (key : Nat) (args : List Value)
  /-- What the host called has come to its end. -/
  | answered (outcome : Except Error Value)
  /-- A program text that the host ran has come to its end. -/
  | ran (outcome : Except Error Unit)

/-- What the host does next: a function of it ends, or it calls something or runs a program
    text. -/
inductive HostMove where
  | done (outcome : Except Error Value)
  | call (c : Callable) (args : List Value)
  | run (source : String)

/-- What the host does next depends on all that it knows, latest first. -/
abbrev Host := List HostEvent → HostMove

namespace Callable

/-- How many arguments a callable takes. -/
def arity : Callable → Nat
  | closure c => c.function.params.length
  | struct _ => 0
  | native n => n.arity

/-- The text of a callable, as it is printed. -/
def text : Callable → String
  | closure c => "[fn: " ++ c.function.title ++ "]"
  | struct t => "[struct: " ++ t.name ++ "]"
  | native n => "[native fn: " ++ n.name ++ "]"

/-- Callables are equal if they are the same one. -/
def equals : Callable → Callable → Bool
  | closure a, closure b => a.identity == b.identity
  | struct a, struct b => a.identity == b.identity
  | native a, native b => a.identity == b.identity
  | _, _ => false

end Callable

namespace Value

/-- Only `null` and `false` do not count as true. -/
def isTruthy : Value → Bool
  | null | bool false => false
  | _ => true

/-- The type of a value. -/
def typeOf : Value → ValueType
  | number _ => .number
  | string _ => .string
  | bool _ => .bool
  | null => .null
  | callable _ => .function
  | .object _ _ => .object

/-- The text of a value, as it is printed. -/
def text : Value → String
  | number n => n.display
  | string s => s
  | bool b => if b then "true" else "false"
  | null => "null"
  | callable c => c.text
  | .object t _ => "[instance: " ++ t.name ++ "]"

/-- Equality of values; values of different types differ. -/
def equals : Value → Value → Bool
  | null, null => true
  | number a, number b => a.equals b
  | string a, string b => a == b
  | bool a, bool b => a == b
  | callable a, callable b => a.equals b
  | .object _ a, .object _ b => a == b
  | _, _ => false

/-- The number that a value counts as: itself, or the number that a string writes. -/
def toNumber : Value → Except RuntimeFault Number
  | number n => .ok n
  | string s =>
    match Number.read s with
    | some n => .ok n
    | none => .error (.stringNotNumeric s)
  | v => .error (.notNumeric v.typeOf)

/-- The number that an operand on the given line counts as. -/
def operand (line : Nat) (v : Value) : Except Error Number :=
  v.toNumber.mapError (.runtime line)

/-- The value of a constant. -/
def ofLiteral : Literal → Value
  | .number n => number n
  | .string s => string s
  | .bool b => bool b
  | .null => null

end Value

/-! ## Operators -/

/-- Applies a unary operator. -/
def UnaryOp.apply (op : UnaryOp) (line : Nat) (v : Value) : Except Error Value :=
  match op with
  | not => .ok (.bool !v.isTruthy)
  | minus => do return .number (← v.operand line).neg
  | plus => do return .number (← v.operand line)

/-- Adds numbers or joins strings. -/
def Value.add (line : Nat) : Value → Value → Except Error Value
  | string a, string b => .ok (string (a ++ b))
  | number a, number b => .ok (number (a.add b))
  | a, b => .error (.runtime line (.addition a.typeOf b.typeOf))

/-- Applies a binary operator; the left operand is looked at first. -/
def BinaryOp.apply (op : BinaryOp) (line : Nat) (a b : Value) : Except Error Value :=
  match op with
  | plus => a.add line b
  | minus => numeric fun x y => .number (x.sub y)
  | times => numeric fun x y => .number (x.mul y)
  | .over => numeric fun x y => .number (x.div y)
  | greater => numeric fun x y => .bool (y.lt x)
  | greaterEqual => numeric fun x y => .bool (y.le x)
  | less => numeric fun x y => .bool (x.lt y)
  | lessEqual => numeric fun x y => .bool (x.le y)
  | equal => .ok (.bool (a.equals b))
  | notEqual => .ok (.bool !a.equals b)
where
  numeric (f : Number → Number → Value) : Except Error Value := do
    let x ← a.operand line
    let y ← b.operand line
    return f x y

/-- The left operand decides the result by itself. -/
def LogicalOp.isDecided (op : LogicalOp) (left : Value) : Bool :=
  match op with
  | or => left.isTruthy
  | and => !left.isTruthy

end Scriptling
