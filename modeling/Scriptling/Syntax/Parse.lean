/-
  Parsing — from tokens to trees, by recursive descent.

  A rule of the grammar is a `Parser`: it takes tokens from the front of a `Cursor`, draws
  a new site for every reference, and either gives a tree or fails at the token at which
  the cursor then stands.  The rules take a bound on the depth of their descent, which
  `depthBound` puts out of reach for the tokens at hand.

  * binary operators bind by `Level`, from `||` to `*` and `/`, all to the left;
  * `parse`: a whole program, or the first error;
  * `parsePartial`: the statements before the first error as well;
  * `parseRecovering`: all statements and all errors, skipping after each error to a likely
    start of a statement (`synchronize`).
-/
import Scriptling.Error
import Scriptling.Syntax
import Scriptling.Token

namespace Scriptling

/-! ## Cursors -/

/-- Tokens still to read, and the next site to give out. -/
structure Cursor where
  rest : List Token
  nextSite : Nat

/-- Readers of a part of a program. -/
abbrev Parser := EStateM Error Cursor

/-- The token at the front of a list; past its end stands an end of file. -/
def frontToken (ts : List Token) : Token := ts.headD ⟨.endOfFile, "", 0⟩

/-- No token but the end of file is left. -/
def atEnd (ts : List Token) : Bool := (frontToken ts).kind == .endOfFile

/-- A fault at a token. -/
def Token.fault (t : Token) (f : SyntaxFault) : Error :=
  .grammar t.line (if t.kind = .endOfFile then none else some t.lexeme) f

namespace Parser

/-- The token to read next. -/
def peek : Parser Token := fun c => .ok (frontToken c.rest) c

/-- Takes the next token. -/
def advance : Parser Unit := fun c => .ok () { c with rest := c.rest.tail }

/-- Fails at the next token. -/
def fault {α : Type} (f : SyntaxFault) : Parser α :=
  fun c => .error ((frontToken c.rest).fault f) c

/-- Takes the next token if it is of the given kind. -/
def accept (kind : TokenKind) : Parser Bool := do
  if (← peek).kind = kind then
    advance
    return true
  else return false

/-- Takes the next token, which has to be of the given kind. -/
def expect (kind : TokenKind) (what : Expected) : Parser Token := do
  let t ← peek
  if t.kind = kind then
    advance
    return t
  else fault (.expected what)

/-- Takes a name. -/
def name (what : Expected) : Parser Name := do
  let t ← expect .identifier what
  return ⟨t.lexeme, t.line⟩

/-- A new site.  The counter never comes back to a site: it is a natural number here, and a machine
    word would come round only after `2 ^ 64` sites, more than any program text can have. -/
def freshSite : Parser Nat := fun c => .ok c.nextSite { c with nextSite := c.nextSite + 1 }

end Parser

/-! ## Operators -/

/-- The levels of the left-associative operators, from the loosest to the tightest. -/
inductive Level where
  | or | and | equality | comparison | sum | product
deriving DecidableEq

/-- A binary operator of any level. -/
inductive InfixOp where
  | logical (op : LogicalOp)
  | binary (op : BinaryOp)
deriving DecidableEq

namespace Level

/-- The next tighter level; the operands of products are unary expressions. -/
def tighter? : Level → Option Level
  | or => some and
  | and => some equality
  | equality => some comparison
  | comparison => some sum
  | sum => some product
  | product => none

/-- The operator of this level that a token is. -/
def operator? : Level → TokenKind → Option InfixOp
  | or, .or => some (.logical .or)
  | and, .and => some (.logical .and)
  | equality, .bangEqual => some (.binary .notEqual)
  | equality, .equalEqual => some (.binary .equal)
  | comparison, .greater => some (.binary .greater)
  | comparison, .greaterEqual => some (.binary .greaterEqual)
  | comparison, .less => some (.binary .less)
  | comparison, .lessEqual => some (.binary .lessEqual)
  | sum, .minus => some (.binary .minus)
  | sum, .plus => some (.binary .plus)
  | product, .slash => some (.binary .over)
  | product, .star => some (.binary .times)
  | _, _ => none

end Level

/-- Joins two operands; the line is that of the operator. -/
def InfixOp.join (op : InfixOp) (line : Nat) (left right : Expr) : Expr :=
  match op with
  | logical op => .logical op left right
  | binary op => .binary op line left right

/-- The unary operator that a token is. -/
def UnaryOp.ofKind? : TokenKind → Option UnaryOp
  | .bang => some .not
  | .minus => some .minus
  | .plus => some .plus
  | _ => none

/-! ## Rules -/

namespace Parser

/-- One to `room` parameter names, separated by commas. -/
def parameters : Nat → Parser (List Name)
  | 0 => fault .tooManyParameters
  | room + 1 => do
    let param ← name .parameterName
    if ← accept .comma then return param :: (← parameters room)
    else return [param]

mutual

/-- An assignment, or what can stand on its left.  The left side is read before it is known
    to be a target. -/
def expression : Nat → Parser Expr
  | 0 => fault (.expected .expression)
  | depth + 1 => do
    let target ← ternary depth
    let sign ← peek
    if sign.kind = .equal then
      advance
      let value ← expression depth
      match target with
      | .variable _ target => return .assign (← freshSite) target value
      | .get object property => return .set object property value
      | _ => throw (sign.fault .invalidTarget)
    else return target

/-- A condition with its two branches, or an operation. -/
def ternary : Nat → Parser Expr
  | 0 => fault (.expected .expression)
  | depth + 1 => do
    let condition ← operation .or depth
    if ← accept .question then
      let yes ← ternary depth
      let _ ← expect .colon .ternaryColon
      let no ← ternary depth
      return .ternary condition yes no
    else return condition

/-- Operands of one level, joined to the left. -/
def operation (level : Level) : Nat → Parser Expr
  | 0 => fault (.expected .expression)
  | depth + 1 => do
    let first ← operand level depth
    operationRest level first depth

/-- The operators of one level that follow, with their right operands. -/
def operationRest (level : Level) (left : Expr) : Nat → Parser Expr
  | 0 => fault (.expected .expression)
  | depth + 1 => do
    let t ← peek
    match level.operator? t.kind with
    | none => return left
    | some op =>
      advance
      let right ← operand level depth
      operationRest level (op.join t.line left right) depth

/-- An operand of a level: an operation of the next tighter one. -/
def operand (level : Level) : Nat → Parser Expr
  | 0 => fault (.expected .expression)
  | depth + 1 =>
    match level.tighter? with
    | some tighter => operation tighter depth
    | none => unary depth

/-- Unary operators before a function literal or a call. -/
def unary : Nat → Parser Expr
  | 0 => fault (.expected .expression)
  | depth + 1 => do
    let t ← peek
    match UnaryOp.ofKind? t.kind with
    | some op =>
      advance
      return .unary op t.line (← unary depth)
    | none =>
      if t.kind = .fn then
        advance
        if (← peek).kind = .identifier then
          let title ← name .expression
          return .function (← function (some title) t.line depth)
        else return .function (← function none t.line depth)
      else
        let callee ← primary depth
        callRest callee depth

/-- Parameters and body of a function. -/
def function (title : Option Name) (line : Nat) : Nat → Parser Function
  | 0 => fault (.expected .expression)
  | depth + 1 => do
    let _ ← expect .leftParen .functionOpen
    let params ← if (← peek).kind = .rightParen then pure [] else parameters maxArguments
    let _ ← expect .rightParen .parametersClose
    let _ ← expect .leftBrace .functionBody
    let body ← block depth
    return .mk title params body line

/-- Calls and property reads that follow an expression. -/
def callRest (callee : Expr) : Nat → Parser Expr
  | 0 => fault (.expected .expression)
  | depth + 1 => do
    match (← peek).kind with
    | .leftParen =>
      advance
      let args ← if (← peek).kind = .rightParen then pure [] else arguments maxArguments depth
      let close ← expect .rightParen .argumentsClose
      callRest (.call callee close.line args) depth
    | .dot =>
      advance
      let property ← name .propertyName
      callRest (.get callee property) depth
    | _ => return callee

/-- One to `room` arguments, separated by commas. -/
def arguments (room : Nat) : Nat → Parser (List Expr)
  | 0 => fault (.expected .expression)
  | depth + 1 =>
    match room with
    | 0 => fault .tooManyArguments
    | room + 1 => do
      let argument ← expression depth
      if ← accept .comma then return argument :: (← arguments room depth)
      else return [argument]

/-- Constants, names, `this`, and expressions in parentheses. -/
def primary : Nat → Parser Expr
  | 0 => fault (.expected .expression)
  | depth + 1 => do
    let t ← peek
    match t.kind with
    | .false => advance; return .literal (.bool false)
    | .true => advance; return .literal (.bool true)
    | .null => advance; return .literal .null
    | .number value => advance; return .literal (.number value)
    | .string contents => advance; return .literal (.string contents)
    | .this => advance; return .this (← freshSite) t.line
    | .identifier => advance; return .variable (← freshSite) ⟨t.lexeme, t.line⟩
    | .leftParen =>
      advance
      let inner ← expression depth
      let _ ← expect .rightParen .groupClose
      return .group inner
    | _ => fault (.expected .expression)

/-- A declaration of a struct or a variable, or a statement. -/
def declaration : Nat → Parser Stmt
  | 0 => fault (.expected .expression)
  | depth + 1 => do
    match (← peek).kind with
    | .struct =>
      advance
      let title ← name .structName
      let _ ← expect .leftBrace .structBody
      return .struct title (← methods depth)
    | .let =>
      advance
      let (title, value) ← variableRest depth
      return .let title value
    | _ => statement depth

/-- The methods of a struct, up to its closing brace; `fn` before a method is optional. -/
def methods : Nat → Parser (List Function)
  | 0 => fault (.expected .expression)
  | depth + 1 => do
    match (← peek).kind with
    | .rightBrace => advance; return []
    | .endOfFile => fault (.expected .structEnd)
    | _ =>
      let _ ← accept .fn
      let title ← name .methodName
      let method ← function (some title) title.line depth
      return method :: (← methods depth)

/-- A variable with an optional first value, up to the semicolon. -/
def variableRest : Nat → Parser (Name × Option Expr)
  | 0 => fault (.expected .expression)
  | depth + 1 => do
    let title ← name .variableName
    if ← accept .equal then
      let value ← expression depth
      let _ ← expect .semicolon .letEnd
      return (title, some value)
    else
      let _ ← expect .semicolon .letEnd
      return (title, none)

/-- An expression, unless the next token is of the given kind; then that token. -/
def optional (close : TokenKind) (what : Expected) : Nat → Parser (Option Expr)
  | 0 => fault (.expected .expression)
  | depth + 1 => do
    if ← accept close then return none
    else
      let e ← expression depth
      let _ ← expect close what
      return some e

/-- A statement that declares no variable and no struct. -/
def statement : Nat → Parser Stmt
  | 0 => fault (.expected .expression)
  | depth + 1 => do
    let t ← peek
    match t.kind with
    | .for =>
      advance
      let _ ← expect .leftParen .forOpen
      let _ ← expect .let .forLet
      let (title, value) ← variableRest depth
      let condition ← optional .semicolon .forCondition depth
      let step ← optional .rightParen .forClose depth
      return .for title value condition step (← statement depth)
    | .if =>
      advance
      let _ ← expect .leftParen .ifOpen
      let condition ← expression depth
      let _ ← expect .rightParen .conditionClose
      let yes ← statement depth
      if ← accept .else then return .if condition yes (some (← statement depth))
      else return .if condition yes none
    | .while =>
      advance
      let _ ← expect .leftParen .whileOpen
      let condition ← expression depth
      let _ ← expect .rightParen .conditionClose
      return .while condition (← statement depth)
    | .return =>
      advance
      return .return t.line (← optional .semicolon .returnEnd depth)
    | .break =>
      advance
      let _ ← expect .semicolon .breakEnd
      return .break t.line
    | .continue =>
      advance
      let _ ← expect .semicolon .continueEnd
      return .continue t.line
    | .leftBrace =>
      advance
      return .block (← block depth)
    | .print =>
      advance
      let value ← expression depth
      let _ ← expect .semicolon .printEnd
      return .print value
    | _ =>
      let e ← expression depth
      match e with
      | .function (.mk (some _) _ _ _) =>
        let _ ← accept .semicolon
        return .expression e
      | _ =>
        let _ ← expect .semicolon .statementEnd
        return .expression e

/-- Declarations up to a closing brace. -/
def block : Nat → Parser (List Stmt)
  | 0 => fault (.expected .expression)
  | depth + 1 => do
    match (← peek).kind with
    | .rightBrace => advance; return []
    | .endOfFile => fault (.expected .blockEnd)
    | _ =>
      let first ← declaration depth
      return first :: (← block depth)

end

/-- A bound on the depth of descent into a program: every rule that takes no token is
    followed, before it comes up again, by one that does. -/
def depthBound (ts : List Token) : Nat := 32 * (ts.length + 1)

end Parser

/-! ## Programs -/

/-- Tokens at which a statement is likely to start. -/
def startsStatement : TokenKind → Bool
  | .struct | .fn | .let | .for | .if | .while | .print | .return => true
  | _ => false

/-- Skips to the end, to a token after a semicolon or to one that starts a statement;
    `previous` is the token before those given. -/
def skipStatement (previous : Token) : List Token → List Token
  | [] => []
  | t :: ts =>
    if t.kind = .endOfFile || previous.kind = .semicolon || startsStatement t.kind then t :: ts
    else skipStatement t ts

/-- Skips the token at which an error was found, and on to a likely start of a statement. -/
def synchronize : List Token → List Token
  | [] => []
  | t :: ts => if t.kind = .endOfFile then t :: ts else skipStatement t ts

/-- Reads at most `count` declarations, up to the first error. -/
def parseUpTo (depth : Nat) : Nat → Cursor → (List Stmt × Option Error) × Cursor
  | 0, c => (([], none), c)
  | count + 1, c =>
    if atEnd c.rest then (([], none), c)
    else match Parser.declaration depth c with
      | .ok s c =>
        let ((ss, e), c) := parseUpTo depth count c
        ((s :: ss, e), c)
      | .error e c => (([], some e), c)

/-- Reads at most `count` declarations, going on after errors. -/
def recoverUpTo (depth : Nat) : Nat → Cursor → (List Stmt × List Error) × Cursor
  | 0, c => (([], []), c)
  | count + 1, c =>
    if atEnd c.rest then (([], []), c)
    else match Parser.declaration depth c with
      | .ok s c =>
        let ((ss, es), c) := recoverUpTo depth count c
        ((s :: ss, es), c)
      | .error e c =>
        let ((ss, es), c) := recoverUpTo depth count { c with rest := synchronize c.rest }
        ((ss, e :: es), c)

/-- The statements before the first error, that error if there is one, and the next site;
    sites are numbered from the given one. -/
def parsePartial (site : Nat) (ts : List Token) : (List Stmt × Option Error) × Nat :=
  let (outcome, c) := parseUpTo (Parser.depthBound ts) ts.length ⟨ts, site⟩
  (outcome, c.nextSite)

/-- The statements of a program or its first error, and the next site. -/
def parse (site : Nat) (ts : List Token) : Except Error (List Stmt) × Nat :=
  match parsePartial site ts with
  | ((ss, none), site) => (.ok ss, site)
  | ((_, some e), site) => (.error e, site)

/-- All statements and all errors of a program. -/
def parseRecovering (ts : List Token) : List Stmt × List Error :=
  (recoverUpTo (Parser.depthBound ts) ts.length ⟨ts, 0⟩).1

end Scriptling
