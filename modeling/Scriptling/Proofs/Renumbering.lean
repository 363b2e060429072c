/-
  Renumbering — what is read does not depend on the numbers of the sites.

  A rule that starts at the same tokens with another number of the next site reads the same, up
  to the numbers of sites, or fails in the same way; and it leaves the same tokens.

  * `Parser.Alike`: two rules that differ at most in the sites they draw;
  * `Parser.renumbering`: the rules of the grammar, at any depth, started with different sites.
-/
import Scriptling.Proofs.Grammar

namespace Scriptling

/-- The error is one of the grammar. -/
def Error.IsGrammatical (e : Error) : Prop :=
  ∃ line lexeme fault, e = .grammar line lexeme fault

theorem Token.fault_isGrammatical (t : Token) (f : SyntaxFault) : (t.fault f).IsGrammatical :=
  ⟨_, _, _, rfl⟩

namespace Parser

/-! ## Rules that are alike -/

/-- From the same tokens, two rules leave the same tokens, with results that are equal in outline
    or the same fault of the grammar, whatever site comes next. -/
def Alike {α γ : Type} (outline : α → γ) (p q : Parser α) : Prop :=
  ∀ ts site site',
    match p ⟨ts, site⟩, q ⟨ts, site'⟩ with
    | .ok a c, .ok b d => outline a = outline b ∧ c.rest = d.rest
    | .error e c, .error e' d => e = e' ∧ e.IsGrammatical ∧ c.rest = d.rest
    | _, _ => False

namespace Alike

variable {α β γ δ : Type} {f : α → γ} {g : β → δ}

theorem pure {a b : α} (h : f a = f b) : Alike f (Pure.pure a) (Pure.pure b) :=
  fun _ _ _ => ⟨h, rfl⟩

theorem fault {s : SyntaxFault} : Alike f (Parser.fault s) (Parser.fault s) :=
  fun _ _ _ => ⟨rfl, Token.fault_isGrammatical _ _, rfl⟩

theorem throw {t : Token} {s : SyntaxFault} :
    Alike f (MonadExcept.throw (t.fault s)) (MonadExcept.throw (t.fault s)) :=
  fun _ _ _ => ⟨rfl, Token.fault_isGrammatical _ _, rfl⟩

theorem bind {p p' : Parser α} {q q' : α → Parser β} (hp : Alike f p p')
    (hq : ∀ a b, f a = f b → Alike g (q a) (q' b)) : Alike g (p >>= q) (p' >>= q') := by
  intro ts site site'
  have h := hp ts site site'
  simp only [Bind.bind, EStateM.bind]
  generalize p ⟨ts, site⟩ = x at h
  generalize p' ⟨ts, site'⟩ = y at h
  cases x with
  | ok a c =>
    cases y with
    | ok b d =>
      obtain ⟨rest, next⟩ := c
      obtain ⟨_, next'⟩ := d
      obtain ⟨hab, rfl⟩ := h
      exact hq a b hab rest next next'
    | error => exact h.elim
  | error e c =>
    cases y with
    | ok => exact h.elim
    | error => exact h

/-- A rule whose results show no site may be followed by the same. -/
theorem seq {p : Parser α} {q q' : α → Parser β} (hp : Alike id p p)
    (hq : ∀ a, Alike g (q a) (q' a)) : Alike g (p >>= q) (p >>= q') :=
  hp.bind fun a _ hab => (show a = _ from hab) ▸ hq a

theorem map {p p' : Parser α} {k k' : α → β} (hp : Alike f p p')
    (hk : ∀ a b, f a = f b → g (k a) = g (k' b)) :
    Alike g (p >>= fun a => Pure.pure (k a)) (p' >>= fun a => Pure.pure (k' a)) :=
  hp.bind fun a b hab => .pure (hk a b hab)

theorem ite {c : Prop} [Decidable c] {p q p' q' : Parser α} (hp : Alike f p p')
    (hq : Alike f q q') : Alike f (if c then p else q) (if c then p' else q') := by
  split
  · exact hp
  · exact hq

theorem peek : Alike id peek peek := fun _ _ _ => ⟨rfl, rfl⟩

theorem advance : Alike id advance advance := fun _ _ _ => ⟨rfl, rfl⟩

/-- New sites may differ. -/
theorem freshSite : Alike (fun _ => ()) freshSite freshSite := fun _ _ _ => ⟨rfl, rfl⟩

theorem accept {kind : TokenKind} : Alike id (accept kind) (accept kind) :=
  peek.seq fun _ => ite (advance.seq fun _ => pure rfl) (pure rfl)

theorem expect {kind : TokenKind} {what : Expected} :
    Alike id (expect kind what) (expect kind what) :=
  peek.seq fun _ => ite (advance.seq fun _ => pure rfl) fault

theorem name {what : Expected} : Alike id (name what) (name what) :=
  expect.seq fun _ => pure rfl

theorem parameters : ∀ {room : Nat}, Alike id (parameters room) (parameters room)
  | 0 => fault
  | _ + 1 => name.seq fun _ => accept.seq fun _ => ite (parameters.seq fun _ => pure rfl)
      (pure rfl)

end Alike

/-- A rule that reads the same, in outline, whatever site comes next. -/
abbrev Renumbers {α γ : Type} (outline : α → γ) (p : Parser α) : Prop := Alike outline p p

/-- Whether an expression is a named function literal shows in its outline. -/
theorem not_bare {name : Name} {ps : List Name} {body : List Stmt} {line : Nat} {e : Expr}
    (he : (Expr.function (.mk (some name) ps body line)).outline = e.outline)
    (hbare : ∀ name ps body line, e = .function (.mk (some name) ps body line) → False) :
    False := by
  cases e <;> simp at he
  case function f =>
    obtain ⟨name', ps', body', line'⟩ := f
    simp at he
    exact hbare name ps' body' line' (by rw [he.1])

/-! ## The rules of the grammar -/

/-- What the rules of the grammar read when they descend no deeper than a bound. -/
structure Renumbering (depth : Nat) : Prop where
  expression : Renumbers Expr.outline (expression depth)
  ternary : Renumbers Expr.outline (ternary depth)
  operation (level : Level) : Renumbers Expr.outline (operation level depth)
  operationRest (level : Level) (left left' : Expr) : left.outline = left'.outline →
    Alike Expr.outline (operationRest level left depth) (operationRest level left' depth)
  operand (level : Level) : Renumbers Expr.outline (operand level depth)
  unary : Renumbers Expr.outline (unary depth)
  function (title : Option Name) (line : Nat) :
    Renumbers Function.outline (function title line depth)
  callRest (callee callee' : Expr) : callee.outline = callee'.outline →
    Alike Expr.outline (callRest callee depth) (callRest callee' depth)
  arguments (room : Nat) : Renumbers Expr.outlineAll (arguments room depth)
  primary : Renumbers Expr.outline (primary depth)
  declaration : Renumbers Stmt.outline (declaration depth)
  methods : Renumbers Function.outlineAll (methods depth)
  variableRest : Renumbers (fun r => (r.1, Expr.outlineOpt r.2)) (variableRest depth)
  optional (close : TokenKind) (what : Expected) :
    Renumbers Expr.outlineOpt (optional close what depth)
  statement : Renumbers Stmt.outline (statement depth)
  block : Renumbers Stmt.outlineAll (block depth)

theorem renumbering_zero : Renumbering 0 where
  expression := .fault
  ternary := .fault
  operation _ := .fault
  operationRest _ _ _ _ := .fault
  operand _ := .fault
  unary := .fault
  function _ _ := .fault
  callRest _ _ _ := .fault
  arguments _ := .fault
  primary := .fault
  declaration := .fault
  methods := .fault
  variableRest := .fault
  optional _ _ := .fault
  statement := .fault
  block := .fault

namespace Renumbering

variable {depth : Nat} (r : Renumbering depth)
include r

theorem expression_succ : Renumbers Expr.outline (Parser.expression (depth + 1)) := by
  unfold Parser.expression
  refine r.ternary.bind fun target target' htarget => Alike.peek.seq fun sign =>
    .ite (Alike.advance.seq fun _ => r.expression.bind fun value value' hvalue => ?_)
      (.pure htarget)
  -- only the shape of the target is looked at, and outlines show it
  split
  · cases target' <;> simp at htarget
    exact Alike.freshSite.map fun _ _ _ => by simp [htarget, hvalue]
  · cases target' <;> simp at htarget
    exact .pure (by simp [htarget, hvalue])
  · next hvariable hget =>
    split
    · cases target <;> simp_all
    · cases target <;> simp_all
    · exact .throw

theorem ternary_succ : Renumbers Expr.outline (Parser.ternary (depth + 1)) := by
  unfold Parser.ternary
  refine (r.operation .or).bind fun c c' hc => Alike.accept.seq fun _ => .ite ?_ (.pure hc)
  refine r.ternary.bind fun yes yes' hyes => Alike.expect.seq fun _ =>
    r.ternary.map fun no no' hno => ?_
  simp [hc, hyes, hno]

theorem operation_succ (level : Level) :
    Renumbers Expr.outline (Parser.operation level (depth + 1)) := by
  unfold Parser.operation
  exact (r.operand level).bind fun first first' hfirst => r.operationRest level _ _ hfirst

theorem operationRest_succ (level : Level) (left left' : Expr)
    (hleft : left.outline = left'.outline) : Alike Expr.outline
      (Parser.operationRest level left (depth + 1))
      (Parser.operationRest level left' (depth + 1)) := by
  unfold Parser.operationRest
  refine Alike.peek.seq fun t => ?_
  split
  · exact .pure hleft
  · next op _ =>
    refine Alike.advance.seq fun _ => (r.operand level).bind fun right right' hright =>
      r.operationRest level _ _ ?_
    cases op <;> simp [InfixOp.join, hleft, hright]

theorem operand_succ (level : Level) : Renumbers Expr.outline (Parser.operand level (depth + 1)) := by
  unfold Parser.operand
  split
  · exact r.operation _
  · exact r.unary

theorem unary_succ : Renumbers Expr.outline (Parser.unary (depth + 1)) := by
  unfold Parser.unary
  refine Alike.peek.seq fun t => ?_
  split
  · exact Alike.advance.seq fun _ => r.unary.map fun _ _ he => by simp [he]
  · refine .ite (Alike.advance.seq fun _ => Alike.peek.seq fun _ => .ite ?_ ?_) ?_
    · exact Alike.name.seq fun title => (r.function _ _).map fun _ _ hf => by simp [hf]
    · exact (r.function _ _).map fun _ _ hf => by simp [hf]
    · exact r.primary.bind fun _ _ hcallee => r.callRest _ _ hcallee

theorem function_succ (title : Option Name) (line : Nat) :
    Renumbers Function.outline (Parser.function title line (depth + 1)) := by
  unfold Parser.function
  have rest (params : List Name) : Renumbers Function.outline
      (do
        let _ ← expect .rightParen .parametersClose
        let _ ← expect .leftBrace .functionBody
        let body ← Parser.block depth
        return .mk title params body line) :=
    Alike.expect.seq fun _ => Alike.expect.seq fun _ => r.block.map fun _ _ hbody => by
      simp [hbody]
  exact Alike.expect.seq fun _ => Alike.peek.seq fun _ => .ite (rest [])
    (Alike.parameters.seq rest)

theorem callRest_succ (callee callee' : Expr) (hcallee : callee.outline = callee'.outline) :
    Alike Expr.outline (Parser.callRest callee (depth + 1))
      (Parser.callRest callee' (depth + 1)) := by
  unfold Parser.callRest
  refine Alike.peek.seq fun t => ?_
  split
  · have rest (es es' : List Expr) (hes : Expr.outlineAll es = Expr.outlineAll es') :
        Alike Expr.outline
          (do
            let close ← expect .rightParen .argumentsClose
            Parser.callRest (.call callee close.line es) depth)
          (do
            let close ← expect .rightParen .argumentsClose
            Parser.callRest (.call callee' close.line es') depth) :=
      Alike.expect.seq fun _ => r.callRest _ _ (by simp [hcallee, hes])
    exact Alike.advance.seq fun _ => Alike.peek.seq fun _ => .ite (rest [] [] rfl)
      ((r.arguments _).bind rest)
  · exact Alike.advance.seq fun _ => Alike.name.seq fun _ => r.callRest _ _ (by simp [hcallee])
  · exact .pure hcallee

theorem arguments_succ (room : Nat) :
    Renumbers Expr.outlineAll (Parser.arguments room (depth + 1)) := by
  unfold Parser.arguments
  split
  · exact .fault
  · refine r.expression.bind fun e e' he => Alike.accept.seq fun _ => .ite ?_ ?_
    · exact (r.arguments _).map fun _ _ hes => by simp [he, hes]
    · exact .pure (by simp [he])

theorem primary_succ : Renumbers Expr.outline (Parser.primary (depth + 1)) := by
  have constant (value : Literal) :
      Renumbers Expr.outline (Parser.advance >>= fun _ => pure (Expr.literal value)) :=
    Alike.advance.seq fun _ => .pure rfl
  unfold Parser.primary
  refine Alike.peek.seq fun t => ?_
  split
  any_goals exact constant _
  · exact Alike.advance.seq fun _ => Alike.freshSite.map fun _ _ _ => rfl
  · exact Alike.advance.seq fun _ => Alike.freshSite.map fun _ _ _ => rfl
  · exact Alike.advance.seq fun _ => r.expression.bind fun _ _ he => Alike.expect.seq fun _ =>
      .pure (by simp [he])
  · exact .fault

theorem declaration_succ : Renumbers Stmt.outline (Parser.declaration (depth + 1)) := by
  unfold Parser.declaration
  refine Alike.peek.seq fun t => ?_
  split
  · exact Alike.advance.seq fun _ => Alike.name.seq fun _ => Alike.expect.seq fun _ =>
      r.methods.map fun _ _ hms => by simp [hms]
  · refine Alike.advance.seq fun _ => r.variableRest.map fun _ _ hv => ?_
    obtain ⟨hname, hvalue⟩ := Prod.mk.inj hv
    simp [hname, hvalue]
  · exact r.statement

theorem methods_succ : Renumbers Function.outlineAll (Parser.methods (depth + 1)) := by
  unfold Parser.methods
  refine Alike.peek.seq fun t => ?_
  split
  · exact Alike.advance.seq fun _ => .pure rfl
  · exact .fault
  · exact Alike.accept.seq fun _ => Alike.name.seq fun _ => (r.function _ _).bind fun _ _ hf =>
      r.methods.map fun _ _ hfs => by simp [hf, hfs]

theorem variableRest_succ : Renumbers (fun r => (r.1, Expr.outlineOpt r.2))
    (Parser.variableRest (depth + 1)) := by
  unfold Parser.variableRest
  refine Alike.name.seq fun _ => Alike.accept.seq fun _ => .ite ?_ ?_
  · exact r.expression.bind fun _ _ he => Alike.expect.seq fun _ => .pure (by simp [he])
  · exact Alike.expect.seq fun _ => .pure rfl

theorem optional_succ (close : TokenKind) (what : Expected) :
    Renumbers Expr.outlineOpt (Parser.optional close what (depth + 1)) := by
  unfold Parser.optional
  refine Alike.accept.seq fun _ => .ite (.pure rfl) ?_
  exact r.expression.bind fun _ _ he => Alike.expect.seq fun _ => .pure (by simp [he])

theorem statement_succ : Renumbers Stmt.outline (Parser.statement (depth + 1)) := by
  unfold Parser.statement
  refine Alike.peek.seq fun t => ?_
  split
  · refine Alike.advance.seq fun _ => Alike.expect.seq fun _ => Alike.expect.seq fun _ =>
      r.variableRest.bind fun _ _ hv => (r.optional _ _).bind fun _ _ hcondition =>
      (r.optional _ _).bind fun _ _ hstep => r.statement.map fun _ _ hbody => ?_
    obtain ⟨hname, hvalue⟩ := Prod.mk.inj hv
    simp [hname, hvalue, hcondition, hstep, hbody]
  · refine Alike.advance.seq fun _ => Alike.expect.seq fun _ =>
      r.expression.bind fun _ _ hcondition => Alike.expect.seq fun _ =>
      r.statement.bind fun _ _ hyes => Alike.accept.seq fun _ => .ite ?_ ?_
    · exact r.statement.map fun _ _ hno => by simp [hcondition, hyes, hno]
    · exact .pure (by simp [hcondition, hyes])
  · exact Alike.advance.seq fun _ => Alike.expect.seq fun _ =>
      r.expression.bind fun _ _ hcondition => Alike.expect.seq fun _ =>
      r.statement.map fun _ _ hbody => by simp [hcondition, hbody]
  · exact Alike.advance.seq fun _ => (r.optional _ _).map fun _ _ he => by simp [he]
  · exact Alike.advance.seq fun _ => Alike.expect.seq fun _ => .pure rfl
  · exact Alike.advance.seq fun _ => Alike.expect.seq fun _ => .pure rfl
  · exact Alike.advance.seq fun _ => r.block.map fun _ _ hbody => by simp [hbody]
  · exact Alike.advance.seq fun _ => r.expression.bind fun _ _ he => Alike.expect.seq fun _ =>
      .pure (by simp [he])
  · refine r.expression.bind fun e e' he => ?_
    split
    · split
      · exact Alike.accept.seq fun _ => .pure (congrArg Stmt.expression he)
      · next hbare => exact (not_bare he hbare).elim
    · next hbare =>
      split
      · exact (not_bare he.symm hbare).elim
      · exact Alike.expect.seq fun _ => .pure (congrArg Stmt.expression he)

theorem block_succ : Renumbers Stmt.outlineAll (Parser.block (depth + 1)) := by
  unfold Parser.block
  refine Alike.peek.seq fun t => ?_
  split
  · exact Alike.advance.seq fun _ => .pure rfl
  · exact .fault
  · exact r.declaration.bind fun _ _ hs => r.block.map fun _ _ hss => by simp [hs, hss]

theorem succ : Renumbering (depth + 1) where
  expression := r.expression_succ
  ternary := r.ternary_succ
  operation := r.operation_succ
  operationRest := r.operationRest_succ
  operand := r.operand_succ
  unary := r.unary_succ
  function := r.function_succ
  callRest := r.callRest_succ
  arguments := r.arguments_succ
  primary := r.primary_succ
  declaration := r.declaration_succ
  methods := r.methods_succ
  variableRest := r.variableRest_succ
  optional := r.optional_succ
  statement := r.statement_succ
  block := r.block_succ

end Renumbering

/-- **Every rule of the grammar reads the same, up to the sites**, whatever site comes next. -/
theorem renumbering : ∀ depth, Renumbering depth
  | 0 => renumbering_zero
  | depth + 1 => (renumbering depth).succ

end Parser

end Scriptling
