/-
  Evaluation — running programs.

  Everything that can run takes fuel, one unit for each step down; without fuel there is
  no outcome.

  * `evaluate`: expressions, from left to right;
  * `execute`: statements, which complete normally or ask a loop or a function around
    them to end (`Completion`);
  * `call`: functions, structs and host functions, the latter being able to call and to
    run programs again;
  * `interpret`: whole programs; `run`: program texts.

  `declareStruct_eq` says where the template of a struct lands.
-/
import Scriptling.Machine
import Scriptling.Scoping
import Scriptling.Syntax.Parse
import Scriptling.Token.Scan

namespace Scriptling

/-- How a statement ends. -/
inductive Completion where
  | normal
  /-- The loop around is to end. -/
  | broken (line : Nat)
  /-- The loop around is to start its next round. -/
  | continued (line : Nat)
  /-- The function around is to end with a value. -/
  | returned (value : Value)

/-! ## From text to program -/

/-- Scans and parses a program text; its sites are new. -/
def Eval.parseText (source : String) : Eval (List Stmt) := do
  let ts ← ofExcept (tokens source)
  let (program, site) := parse (← get).nextSite ts
  modify fun m => { m with nextSite := site }
  ofExcept program

/-- Scans, parses and resolves a program text, and records the distances. -/
def Eval.load (source : String) : Eval (List Stmt) := do
  let program ← parseText source
  let distances ← ofExcept (resolve (← get).globalNames program)
  modify fun m => { m with distances := m.distances.recordAll distances }
  return program

/-! ## Running -/

namespace Eval

/-- The result of a function whose body has completed. -/
def resultOf : Completion → Eval Value
  | .normal => pure .null
  | .returned v => pure v
  | .broken line => fail line .breakOutsideLoop
  | .continued line => fail line .continueOutsideLoop

/-- A statement of a program has completed: nothing may be left to do for a loop or a
    function around it. -/
def settle : Completion → Eval Unit
  | .normal => pure ()
  | .returned _ => fail 0 .returnOutsideFunction
  | .broken line => fail line .breakOutsideLoop
  | .continued line => fail line .continueOutsideLoop

/-- Declares a struct in the current scope; of two methods of a name the last counts. -/
def declareStruct (name : Name) (methods : List Function) : Eval Unit := do
  define name.text .null
  let table ← methods.foldlM (fun table f => do return table.set f.title (← makeClosure f))
    Bindings.empty
  assign name (.callable (.struct ⟨← freshIdentity, name.text, table⟩))

/-- Making the closures of methods takes identities, and changes nothing else. -/
theorem closures_apply (methods : List Function) (table : Bindings Closure) (m : Machine) :
    ∃ made i, (methods.foldlM (fun table f => do return table.set f.title (← makeClosure f))
      table : Eval (Bindings Closure)) m = some (.ok made, { m with nextIdentity := i }) := by
  induction methods generalizing table m with
  | nil => exact ⟨table, m.nextIdentity, rfl⟩
  | cons f fs ih =>
    let next : Machine := { m with nextIdentity := m.nextIdentity + 1 }
    obtain ⟨made, i, h⟩ := ih (table.set f.title ⟨m.nextIdentity, f, m.scope⟩) next
    exact ⟨made, i, by rw [List.foldlM_cons]; exact h⟩

/-- **The template of a struct lands in the innermost frame**: that is where its name has been bound
    first, so that assigning to the name is defining it again. -/
theorem declareStruct_eq {m : Machine} {F : Nat} {base : Chain} (hs : m.scope = F :: base)
    (hF : F < m.frames.frames.size) (name : Name) (methods : List Function) :
    declareStruct name methods m = (do
      define name.text .null
      let table ← methods.foldlM (fun table f => do return table.set f.title (← makeClosure f))
        Bindings.empty
      define name.text (.callable (.struct ⟨← freshIdentity, name.text, table⟩)) : Eval Unit) m := by
  let bound : Machine := { m with frames := m.frames.define m.scope name.text .null }
  obtain ⟨table, i, made⟩ := closures_apply methods .empty bound
  let numbered : Machine := { bound with nextIdentity := i + 1 }
  have here : (numbered.frames.frame F).contains name.text = true := by
    have frame : numbered.frames = m.frames.set F name.text .null := by
      show m.frames.define m.scope name.text .null = _
      rw [hs]
      rfl
    rw [frame, Frames.frame_set, if_pos ⟨rfl, hF⟩, Bindings.contains, Bindings.get?_set, if_pos rfl]
    rfl
  have first : define name.text .null m = some (.ok (), bound) := rfl
  rw [declareStruct, bind_apply, bind_apply, first]
  dsimp only
  rw [bind_apply, bind_apply, made]
  exact assign_eq_define (m := numbered) hs here

/-- The bindings of parameters to arguments; what has no partner is left out. -/
def bindParams (params : List Name) (args : List Value) : Bindings Value :=
  (params.zip args).foldl (fun b p => b.set p.1.text p.2) .empty

mutual

/-- Evaluates an expression. -/
def evaluate : Nat → Expr → Eval Value
  | 0, _ => exhausted
  | fuel + 1, e =>
    match e with
    | .literal value => pure (.ofLiteral value)
    | .group e => evaluate fuel e
    | .unary op line e => do
      let v ← evaluate fuel e
      ofExcept (op.apply line v)
    | .binary op line l r => do
      let a ← evaluate fuel l
      let b ← evaluate fuel r
      ofExcept (op.apply line a b)
    | .logical op l r => do
      let a ← evaluate fuel l
      if op.isDecided a then pure a else evaluate fuel r
    | .ternary c y n => do
      let v ← evaluate fuel c
      if v.isTruthy then evaluate fuel y else evaluate fuel n
    | .variable site name => read site name
    | .this site line => read site ⟨"this", line⟩
    | .assign site name value => do
      let v ← evaluate fuel value
      write site name v
      pure v
    | .call callee line arguments => do
      let f ← evaluate fuel callee
      let args ← evaluateAll fuel arguments
      match f with
      | .callable c =>
        if args.length = c.arity then call fuel c args
        else fail line (.wrongArity c.arity args.length)
      | _ => fail line .calleeNotCallable
    | .get object name => do
      match ← evaluate fuel object with
      | .object t i => property t i name
      | _ => fail name.line .propertyOfNonInstance
    | .set object name value => do
      match ← evaluate fuel object with
      | .object _ i =>
        let v ← evaluate fuel value
        setField i name.text v
        pure v
      | _ => fail name.line .fieldOfNonInstance
    | .function f => do
      let v := .callable (.closure (← makeClosure f))
      match f.name with
      | some name => define name.text v
      | none => pure ()
      pure v

/-- Evaluates expressions in order. -/
def evaluateAll : Nat → List Expr → Eval (List Value)
  | 0, _ => exhausted
  | _ + 1, [] => pure []
  | fuel + 1, e :: es => do
    let v ← evaluate fuel e
    let vs ← evaluateAll fuel es
    pure (v :: vs)

/-- Evaluates an optional expression. -/
def evaluateOpt : Nat → Option Expr → Eval (Option Value)
  | 0, _ => exhausted
  | _ + 1, none => pure none
  | fuel + 1, some e => do
    let v ← evaluate fuel e
    pure (some v)

/-- Calls something callable; the number of arguments is not looked at. -/
def call : Nat → Callable → List Value → Eval Value
  | 0, _, _ => exhausted
  | fuel + 1, c, args =>
    match c with
    | .closure c => do
      let scope ← newScope c.scope (bindParams c.function.params args)
      let completion ← within scope (executeAll fuel c.function.body)
      resultOf completion
    | .struct t => instantiate t
    | .native n => callHost fuel n.operation args

/-- Performs a host operation; arguments that are missing count as `null`. -/
def callHost : Nat → HostOperation → List Value → Eval Value
  | 0, _, _ => exhausted
  | fuel + 1, op, args =>
    let arg := args.headD .null
    match op with
    | .clock => do
      let now ← tick
      pure (.number (.ofNat now))
    | .double =>
      match arg with
      | .number n => pure (.number (n.mul (.ofNat 2)))
      | v => fail 0 (.cannotDouble v.text)
    | .typeName => pure (.string arg.typeOf.name)
    | .text => pure (.string arg.text)
    | .number => do
      let n ← ofExcept (arg.operand 0)
      pure (.number n)
    | .arity =>
      match arg with
      | .callable c => pure (.number (.ofNat c.arity))
      | v => fail 0 (.notCallable v.typeOf)
    | .apply =>
      match arg with
      | .callable c => call fuel c [args.tail.headD .null]
      | v => fail 0 (.notCallable v.typeOf)
    | .names => do
      let m ← get
      pure (.string (String.intercalate "," m.globalNames))
    | .nested => do
      run fuel arg.text
      pure .null
    | .idle => pure .null
    | .custom key => do
      hear (.called key args)
      converse fuel

/-- Does what the host wants, up to the end of a function of the host. -/
def converse : Nat → Eval Value
  | 0 => exhausted
  | fuel + 1 => do
    let m ← get
    match m.host m.heard with
    | .done outcome => ofExcept outcome
    | .call c args => do
      let outcome ← attempt (call fuel c args)
      hear (.answered outcome)
      converse fuel
    | .run source => do
      let outcome ← attempt (run fuel source)
      hear (.ran outcome)
      converse fuel

/-- Executes a statement. -/
def execute : Nat → Stmt → Eval Completion
  | 0, _ => exhausted
  | fuel + 1, s =>
    match s with
    | .expression e => do
      let _ ← evaluate fuel e
      pure .normal
    | .print e => do
      let v ← evaluate fuel e
      print v.text
      pure .normal
    | .let name value => do
      let v ← evaluateOpt fuel value
      define name.text (v.getD .null)
      pure .normal
    | .block body => do
      let scope ← newScope (← get).scope .empty
      within scope (executeAll fuel body)
    | .if condition yes no => do
      let v ← evaluate fuel condition
      if v.isTruthy then execute fuel yes
      else match no with
        | some s => execute fuel s
        | none => pure .normal
    | .while condition body => loop fuel (some condition) none body
    | .for name value condition step body => do
      let scope ← newScope (← get).scope .empty
      within scope do
        let v ← evaluateOpt fuel value
        define name.text (v.getD .null)
        loop fuel condition step body
    | .break line => pure (.broken line)
    | .continue line => pure (.continued line)
    | .return _ value => do
      let v ← evaluateOpt fuel value
      pure (.returned (v.getD .null))
    | .struct name methods => do
      declareStruct name methods
      pure .normal

/-- Executes statements up to the first that does not complete normally. -/
def executeAll : Nat → List Stmt → Eval Completion
  | 0, _ => exhausted
  | _ + 1, [] => pure .normal
  | fuel + 1, s :: ss => do
    match ← execute fuel s with
    | .normal => executeAll fuel ss
    | completion => pure completion

/-- Goes round a loop as long as its condition holds; no condition always holds. -/
def loop : Nat → Option Expr → Option Expr → Stmt → Eval Completion
  | 0, _, _, _ => exhausted
  | fuel + 1, condition, step, body => do
    let v ← evaluateOpt fuel condition
    if (v.getD (.bool true)).isTruthy then
      match ← execute fuel body with
      | .broken _ => pure .normal
      | .returned v => pure (.returned v)
      | _ =>
        let _ ← evaluateOpt fuel step
        loop fuel condition step body
    else pure .normal

/-- Runs the statements of a program, and delivers what they printed. -/
def interpret : Nat → List Stmt → Eval Unit
  | 0, _ => exhausted
  | _ + 1, [] => flush
  | fuel + 1, s :: ss => do
    let completion ← execute fuel s
    settle completion
    interpret fuel ss

/-- Runs a program text. -/
def run : Nat → String → Eval Unit
  | 0, _ => exhausted
  | fuel + 1, source => do
    let program ← load source
    interpret fuel program

end

end Eval

end Scriptling
