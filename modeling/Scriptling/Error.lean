/-
  Errors — what can go wrong with a program, by cause, and how it is reported.

  * `LexicalFault`, `SyntaxFault`, `ScopeFault`, `RuntimeFault`, `OutputFault`: the causes
    that each stage knows, with their wording (`detail`);
  * `Error`: a cause at its place; `Error.message` is the text shown to the user;
  * `Error.isStatic`: the error was found before anything was executed.
-/
namespace Scriptling

/-- The types of values, as error messages name them. -/
inductive ValueType where
  | number | string | bool | null | function | object
deriving DecidableEq

/-- The name of a type. -/
def ValueType.name : ValueType → String
  | number => "number"
  | string => "string"
  | bool => "bool"
  | null => "null"
  | function => "function"
  | object => "instance"

/-! ## Causes -/

/-- Text that is no token. -/
inductive LexicalFault where
  /-- `&` or `|` that is not doubled. -/
  | lone (mark : Char)
  /-- A string without its closing quote. -/
  | openString
  /-- The text of a number that is none. -/
  | invalidNumber (text : String)
  /-- A character that starts no token. -/
  | stray (c : Char)
deriving DecidableEq

namespace LexicalFault

/-- The cause in words. -/
def detail : LexicalFault → String
  | lone mark => "Unterminated '" ++ mark.toString ++ "'."
  | openString => "Unterminated string."
  | invalidNumber text => "Invalid number '" ++ text ++ "'."
  | stray c => "Unexpected character: " ++ c.toString

end LexicalFault

/-- What the grammar asks for at a token that is something else. -/
inductive Expected where
  | expression
  | structName | structBody | methodName | structEnd
  | variableName | letEnd
  | breakEnd | continueEnd | returnEnd | printEnd | statementEnd
  | forOpen | forLet | forCondition | forClose
  | ifOpen | whileOpen | conditionClose
  | blockEnd
  | functionOpen | parameterName | parametersClose | functionBody
  | argumentsClose | propertyName | groupClose | ternaryColon
deriving DecidableEq

/-- What is asked for, in words. -/
def Expected.text : Expected → String
  | expression => "expression"
  | structName => "struct name"
  | structBody => "'\x7b' before struct body"
  | methodName => "method name"
  | structEnd => "'\x7d' after struct body"
  | variableName => "variable name"
  | letEnd => "';' after variable declaration"
  | breakEnd => "';' after 'break'"
  | continueEnd => "';' after 'continue'"
  | returnEnd => "';' after return value"
  | printEnd => "';' after value"
  | statementEnd => "';' after expression"
  | forOpen => "'(' after 'for'"
  | forLet => "'let' initializer in for loop"
  | forCondition => "';' after loop condition"
  | forClose => "')' after for clauses"
  | ifOpen => "'(' after 'if'"
  | whileOpen => "'(' after 'while'"
  | conditionClose => "')' after condition"
  | blockEnd => "'\x7d' after block"
  | functionOpen => "'(' after function name"
  | parameterName => "parameter name"
  | parametersClose => "')' after parameters"
  | functionBody => "'\x7b' before function body"
  | argumentsClose => "')' after arguments"
  | propertyName => "property name after '.'"
  | groupClose => "')' after expression"
  | ternaryColon => "':' in ternary expression"

/-- Tokens that are no program. -/
inductive SyntaxFault where
  | expected (what : Expected)
  /-- The left of `=` is neither a variable nor a property. -/
  | invalidTarget
  | tooManyParameters
  | tooManyArguments
deriving DecidableEq

/-- The greatest number of parameters of a function and of arguments of a call. -/
def maxArguments : Nat := 255

/-- The cause in words. -/
def SyntaxFault.detail : SyntaxFault → String
  | expected what => "Expected " ++ what.text
  | invalidTarget => "Invalid assignment target"
  | tooManyParameters => "Can't have more than " ++ toString maxArguments ++ " parameters"
  | tooManyArguments => "Can't have more than " ++ toString maxArguments ++ " arguments"

/-- Programs that are grammatical, but misplace a statement or a name. -/
inductive ScopeFault where
  | breakOutsideLoop
  | continueOutsideLoop
  | returnOutsideFunction
  | thisOutsideMethod
  /-- A variable read by its own initializer, with no other binding to mean. -/
  | ownInitializer (name : String)
deriving DecidableEq

namespace ScopeFault

/-- The word that the fault is reported at. -/
def lexeme : ScopeFault → String
  | breakOutsideLoop => "break"
  | continueOutsideLoop => "continue"
  | returnOutsideFunction => "return"
  | thisOutsideMethod => "this"
  | ownInitializer name => name

/-- The cause in words. -/
def detail : ScopeFault → String
  | breakOutsideLoop => "'break' used outside of a loop"
  | continueOutsideLoop => "'continue' used outside of a loop"
  | returnOutsideFunction => "'return' used outside of function"
  | thisOutsideMethod => "Can't use 'this' outside of a struct method"
  | ownInitializer _ => "Can't read local variable in its own initializer"

end ScopeFault

/-- Steps that a running program cannot take. -/
inductive RuntimeFault where
  | undefinedVariable (name : String)
  | scopeOutOfRange
  | breakOutsideLoop
  | continueOutsideLoop
  | returnOutsideFunction
  | calleeNotCallable
  | wrongArity (expected got : Nat)
  | propertyOfNonInstance
  | fieldOfNonInstance
  | undefinedProperty (name : String)
  | addition (left right : ValueType)
  | stringNotNumeric (text : String)
  | notNumeric (type : ValueType)
  /-- A host function was asked to double something else than a number. -/
  | cannotDouble (shown : String)
  /-- A host function was given something that cannot be called. -/
  | notCallable (type : ValueType)
deriving DecidableEq

/-- The cause in words. -/
def RuntimeFault.detail : RuntimeFault → String
  | undefinedVariable name => "Undefined variable '" ++ name ++ "'."
  | scopeOutOfRange => "Resolved scope is out of range."
  | breakOutsideLoop => "'break' outside loop."
  | continueOutsideLoop => "'continue' outside loop."
  | returnOutsideFunction => "'return' outside function."
  | calleeNotCallable => "Can only call functions and structs."
  | wrongArity expected got =>
    "Expected " ++ toString expected ++ " arguments but got " ++ toString got ++ "."
  | propertyOfNonInstance => "Only instances have properties."
  | fieldOfNonInstance => "Only instances have fields."
  | undefinedProperty name => "Undefined property '" ++ name ++ "'."
  | addition left right =>
    "Operands of '+' must be two numbers or two strings, got " ++ left.name ++ " and "
      ++ right.name ++ "."
  | stringNotNumeric text => "Can't convert string \"" ++ text ++ "\" to a number."
  | notNumeric type => "Operand must be a number, got " ++ type.name ++ "."
  | cannotDouble shown => "can't double " ++ shown
  | notCallable type => "not callable: " ++ type.name

/-- Output that could not be delivered. -/
inductive OutputFault where
  /-- No more bytes are accepted. -/
  | full
  /-- The accepted bytes could not be delivered. -/
  | flush
deriving DecidableEq

/-- The cause in words. -/
def OutputFault.detail : OutputFault → String
  | full => "sink full"
  | flush => "flush failed"

/-! ## Errors -/

/-- A cause at its place. -/
inductive Error where
  | lexical (line : Nat) (fault : LexicalFault)
  /-- The error is at a token, or at the end of the input. -/
  | grammar (line : Nat) (lexeme : Option String) (fault : SyntaxFault)
  | scoping (line : Nat) (fault : ScopeFault)
  | runtime (line : Nat) (fault : RuntimeFault)
  | output (fault : OutputFault)
deriving DecidableEq

namespace Error

/-- The cause in words. -/
def detail : Error → String
  | lexical _ fault => fault.detail
  | grammar _ _ fault => fault.detail
  | scoping _ fault => fault.detail
  | runtime _ fault => fault.detail
  | output fault => fault.detail

/-- The line of the error, if it has one. -/
def line? : Error → Option Nat
  | lexical line _ | grammar line _ _ | scoping line _ | runtime line _ => some line
  | output _ => none

/-- The error as it is shown to the user. -/
def message : Error → String
  | lexical line fault => "[line " ++ toString line ++ "] Error: " ++ fault.detail
  | grammar line (some lexeme) fault =>
    "[line " ++ toString line ++ "] Error at '" ++ lexeme ++ "': " ++ fault.detail
  | grammar line none fault =>
    "[line " ++ toString line ++ "] Error at end: " ++ fault.detail
  | scoping line fault =>
    "[line " ++ toString line ++ "] Error at '" ++ fault.lexeme ++ "': " ++ fault.detail
  | runtime _ fault => "Runtime error: " ++ fault.detail
  | output fault => fault.detail

/-- The error was found before anything was executed. -/
def isStatic : Error → Bool
  | lexical .. | grammar .. | scoping .. => true
  | runtime .. | output .. => false

end Error

end Scriptling
