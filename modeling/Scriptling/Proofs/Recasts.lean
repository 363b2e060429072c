/-
  Recasts — programs that write their loops in another way.

  A `for` without a step says what a block says that declares the variable and goes round a `while`,
  and a `for` without a condition what one with the condition `true` says.

  * `Expr.guard`: the condition of a `for`, also of one that has none;
  * `Recast`: parts of two programs that differ in nothing else, however deep inside;
  * `Recast.resolve_eq`: the walk takes them for the same.
-/
import Scriptling.Proofs.Parts

namespace Scriptling

/-- The condition of a `for`; without one it goes round as if it always held. -/
def Expr.guard (condition : Option Expr) : Expr := condition.getD (.literal (.bool true))

/-- **Parts of two programs that differ only in how loops are written**, and in the numbers of
    their sites, as far as these are `same`. -/
inductive Recast (same : Nat → Nat → Prop) : Part → Part → Prop
  | literal {value} : Recast same (.expr (.literal value)) (.expr (.literal value))
  | group {e e'} : Recast same (.expr e) (.expr e') →
      Recast same (.expr (.group e)) (.expr (.group e'))
  | unary {op line e e'} : Recast same (.expr e) (.expr e') →
      Recast same (.expr (.unary op line e)) (.expr (.unary op line e'))
  | binary {op line l l' r r'} : Recast same (.expr l) (.expr l') →
      Recast same (.expr r) (.expr r') →
      Recast same (.expr (.binary op line l r)) (.expr (.binary op line l' r'))
  | logical {op l l' r r'} : Recast same (.expr l) (.expr l') → Recast same (.expr r) (.expr r') →
      Recast same (.expr (.logical op l r)) (.expr (.logical op l' r'))
  | ternary {c c' y y' n n'} : Recast same (.expr c) (.expr c') →
      Recast same (.expr y) (.expr y') → Recast same (.expr n) (.expr n') →
      Recast same (.expr (.ternary c y n)) (.expr (.ternary c' y' n'))
  | variable {site site' name} : same site site' →
      Recast same (.expr (.variable site name)) (.expr (.variable site' name))
  | assign {site site' name value value'} : Recast same (.expr value) (.expr value') →
      same site site' →
      Recast same (.expr (.assign site name value)) (.expr (.assign site' name value'))
  | call {callee callee' line arguments arguments'} : Recast same (.expr callee) (.expr callee') →
      Recast same (.exprs arguments) (.exprs arguments') →
      Recast same (.expr (.call callee line arguments)) (.expr (.call callee' line arguments'))
  | get {object object' name} : Recast same (.expr object) (.expr object') →
      Recast same (.expr (.get object name)) (.expr (.get object' name))
  | set {object object' name value value'} : Recast same (.expr object) (.expr object') →
      Recast same (.expr value) (.expr value') →
      Recast same (.expr (.set object name value)) (.expr (.set object' name value'))
  | this {site site' line} : same site site' →
      Recast same (.expr (.this site line)) (.expr (.this site' line))
  | function {f f'} : Recast same (.function f) (.function f') →
      Recast same (.expr (.function f)) (.expr (.function f'))
  | noExprs : Recast same (.exprs []) (.exprs [])
  | exprs {e e' es es'} : Recast same (.expr e) (.expr e') → Recast same (.exprs es) (.exprs es') →
      Recast same (.exprs (e :: es)) (.exprs (e' :: es'))
  | absent : Recast same (.optional none) (.optional none)
  | present {e e'} : Recast same (.expr e) (.expr e') →
      Recast same (.optional (some e)) (.optional (some e'))
  | body {title params body body' line} : Recast same (.stmts body) (.stmts body') →
      Recast same (.function (.mk title params body line)) (.function (.mk title params body' line))
  | noMethods : Recast same (.methods []) (.methods [])
  | methods {f f' fs fs'} : Recast same (.function f) (.function f') →
      Recast same (.methods fs) (.methods fs') →
      Recast same (.methods (f :: fs)) (.methods (f' :: fs'))
  | expression {e e'} : Recast same (.expr e) (.expr e') →
      Recast same (.stmt (.expression e)) (.stmt (.expression e'))
  | print {e e'} : Recast same (.expr e) (.expr e') →
      Recast same (.stmt (.print e)) (.stmt (.print e'))
  | let {name value value'} : Recast same (.optional value) (.optional value') →
      Recast same (.stmt (.let name value)) (.stmt (.let name value'))
  | block {body body'} : Recast same (.stmts body) (.stmts body') →
      Recast same (.stmt (.block body)) (.stmt (.block body'))
  | if {c c' y y' n n'} : Recast same (.expr c) (.expr c') → Recast same (.stmt y) (.stmt y') →
      Recast same (.alternative n) (.alternative n') →
      Recast same (.stmt (.if c y n)) (.stmt (.if c' y' n'))
  | while {c c' body body'} : Recast same (.expr c) (.expr c') →
      Recast same (.stmt body) (.stmt body') →
      Recast same (.stmt (.while c body)) (.stmt (.while c' body'))
  /-- One of the two may have no condition, and the other one the condition `true`. -/
  | for {name value value' c c' step step' body body'} :
      Recast same (.optional value) (.optional value') →
      Recast same (.expr (Expr.guard c)) (.expr (Expr.guard c')) →
      Recast same (.optional step) (.optional step') → Recast same (.stmt body) (.stmt body') →
      Recast same (.stmt (.for name value c step body)) (.stmt (.for name value' c' step' body'))
  | forBlock {name value value' c c' body body'} :
      Recast same (.optional value) (.optional value') →
      Recast same (.expr (Expr.guard c)) (.expr c') → Recast same (.stmt body) (.stmt body') →
      Recast same (.stmt (.for name value c none body))
        (.stmt (.block [.let name value', .while c' body']))
  | blockFor {name value value' c c' body body'} :
      Recast same (.optional value) (.optional value') →
      Recast same (.expr c) (.expr (Expr.guard c')) → Recast same (.stmt body) (.stmt body') →
      Recast same (.stmt (.block [.let name value, .while c body]))
        (.stmt (.for name value' c' none body'))
  | break {line} : Recast same (.stmt (.break line)) (.stmt (.break line))
  | continue {line} : Recast same (.stmt (.continue line)) (.stmt (.continue line))
  | return {line value value'} : Recast same (.optional value) (.optional value') →
      Recast same (.stmt (.return line value)) (.stmt (.return line value'))
  | struct {name methods methods'} : Recast same (.methods methods) (.methods methods') →
      Recast same (.stmt (.struct name methods)) (.stmt (.struct name methods'))
  | noAlternative : Recast same (.alternative none) (.alternative none)
  | alternative {s s'} : Recast same (.stmt s) (.stmt s') →
      Recast same (.alternative (some s)) (.alternative (some s'))
  | noStmts : Recast same (.stmts []) (.stmts [])
  | stmts {s s' ss ss'} : Recast same (.stmt s) (.stmt s') → Recast same (.stmts ss) (.stmts ss') →
      Recast same (.stmts (s :: ss)) (.stmts (s' :: ss'))

namespace Recast

variable {same : Nat → Nat → Prop} {p q : Part}

theorem symm (hsame : ∀ {s s'}, same s s' → same s' s) (h : Recast same p q) :
    Recast same q p := by
  induction h with
  | literal => exact .literal
  | group _ ih => exact .group ih
  | unary _ ih => exact .unary ih
  | binary _ _ ihl ihr => exact .binary ihl ihr
  | logical _ _ ihl ihr => exact .logical ihl ihr
  | ternary _ _ _ ihc ihy ihn => exact .ternary ihc ihy ihn
  | «variable» hs => exact .variable (hsame hs)
  | assign _ hs ih => exact .assign ih (hsame hs)
  | call _ _ ih ihs => exact .call ih ihs
  | get _ ih => exact .get ih
  | set _ _ iho ihv => exact .set iho ihv
  | this hs => exact .this (hsame hs)
  | function _ ih => exact .function ih
  | noExprs => exact .noExprs
  | exprs _ _ ih ihs => exact .exprs ih ihs
  | absent => exact .absent
  | present _ ih => exact .present ih
  | body _ ih => exact .body ih
  | noMethods => exact .noMethods
  | methods _ _ ih ihs => exact .methods ih ihs
  | expression _ ih => exact .expression ih
  | print _ ih => exact .print ih
  | «let» _ ih => exact .let ih
  | block _ ih => exact .block ih
  | «if» _ _ _ ihc ihy ihn => exact .if ihc ihy ihn
  | «while» _ _ ihc ih => exact .while ihc ih
  | «for» _ _ _ _ ihv ihc ihs ih => exact .for ihv ihc ihs ih
  | forBlock _ _ _ ihv ihc ih => exact .blockFor ihv ihc ih
  | blockFor _ _ _ ihv ihc ih => exact .forBlock ihv ihc ih
  | «break» => exact .break
  | «continue» => exact .continue
  | «return» _ ih => exact .return ih
  | struct _ ih => exact .struct ih
  | noAlternative => exact .noAlternative
  | alternative _ ih => exact .alternative ih
  | noStmts => exact .noStmts
  | stmts _ _ ih ihs => exact .stmts ih ihs

variable {f f' : Function}

theorem name_eq (h : Recast same (.function f) (.function f')) : f'.name = f.name := by
  cases h
  rfl

theorem params_eq (h : Recast same (.function f) (.function f')) : f'.params = f.params := by
  cases h
  rfl

theorem title_eq (h : Recast same (.function f) (.function f')) : f'.title = f.title := by
  rw [Function.title, Function.title, h.name_eq]

end Recast

mutual

theorem Expr.recast_refl : ∀ e : Expr, Recast Eq (.expr e) (.expr e)
  | .literal _ => .literal
  | .group e => .group e.recast_refl
  | .unary _ _ e => .unary e.recast_refl
  | .binary _ _ l r => .binary l.recast_refl r.recast_refl
  | .logical _ l r => .logical l.recast_refl r.recast_refl
  | .ternary c y n => .ternary c.recast_refl y.recast_refl n.recast_refl
  | .variable _ _ => .variable rfl
  | .assign _ _ value => .assign value.recast_refl rfl
  | .call callee _ arguments => .call callee.recast_refl (Expr.recastAll_refl arguments)
  | .get object _ => .get object.recast_refl
  | .set object _ value => .set object.recast_refl value.recast_refl
  | .this _ _ => .this rfl
  | .function f => .function f.recast_refl

theorem Expr.recastAll_refl : ∀ es : List Expr, Recast Eq (.exprs es) (.exprs es)
  | [] => .noExprs
  | e :: es => .exprs e.recast_refl (Expr.recastAll_refl es)

theorem Expr.recastOpt_refl : ∀ e : Option Expr, Recast Eq (.optional e) (.optional e)
  | none => .absent
  | some e => .present e.recast_refl

theorem Function.recast_refl : ∀ f : Function, Recast Eq (.function f) (.function f)
  | .mk _ _ body _ => .body (Stmt.recastAll_refl body)

theorem Function.recastAll_refl : ∀ fs : List Function, Recast Eq (.methods fs) (.methods fs)
  | [] => .noMethods
  | f :: fs => .methods f.recast_refl (Function.recastAll_refl fs)

theorem Stmt.recast_refl : ∀ s : Stmt, Recast Eq (.stmt s) (.stmt s)
  | .expression e => .expression e.recast_refl
  | .print e => .print e.recast_refl
  | .let _ value => .let (Expr.recastOpt_refl value)
  | .block body => .block (Stmt.recastAll_refl body)
  | .if c y n => .if c.recast_refl y.recast_refl (Stmt.recastOpt_refl n)
  | .while c body => .while c.recast_refl body.recast_refl
  | .for _ value none step body =>
    .for (Expr.recastOpt_refl value) .literal (Expr.recastOpt_refl step) body.recast_refl
  | .for _ value (some c) step body =>
    .for (Expr.recastOpt_refl value) c.recast_refl (Expr.recastOpt_refl step) body.recast_refl
  | .break _ => .break
  | .continue _ => .continue
  | .return _ value => .return (Expr.recastOpt_refl value)
  | .struct _ methods => .struct (Function.recastAll_refl methods)

theorem Stmt.recastOpt_refl : ∀ s : Option Stmt, Recast Eq (.alternative s) (.alternative s)
  | none => .noAlternative
  | some s => .alternative s.recast_refl

theorem Stmt.recastAll_refl : ∀ ss : List Stmt, Recast Eq (.stmts ss) (.stmts ss)
  | [] => .noStmts
  | s :: ss => .stmts s.recast_refl (Stmt.recastAll_refl ss)

end

/-! ## The walk -/

/-- A `for` without a condition is walked as one with the condition `true`. -/
theorem Expr.resolveOpt_eq_guard (condition : Option Expr) (w : Walk) :
    Expr.resolveOpt condition w = (Expr.guard condition).resolve w := by
  cases condition <;> rfl

/-- **A `for` without a step is walked as a block with a `while`.** -/
theorem Stmt.resolve_for (name : Name) (value condition : Option Expr) (body : Stmt) (w : Walk) :
    (Stmt.for name value condition none body).resolve w =
      (Stmt.block [.let name value, .while (Expr.guard condition) body]).resolve w := by
  have once {x : Except Error Walk} : (x >>= fun w => Except.ok w) = x := by cases x <;> rfl
  simp only [Stmt.resolve, Stmt.resolveAll, Expr.resolveOpt_eq_guard, Expr.resolveOpt, once]
  rfl

namespace Recast

variable {p q : Part}

/-- **The walk takes parts for the same that differ only in how loops are written.** -/
theorem resolve_eq (h : Recast Eq p q) : ∀ w : Walk, p.resolve w = q.resolve w := by
  have both {x x' : Except Error Walk} {f f' : Walk → Except Error Walk} (hx : x = x')
      (hf : ∀ w, f w = f' w) : (x >>= f) = (x' >>= f') := by rw [hx, funext hf]
  have looped {name : Name} {value value' : Option Expr} {c c' : Expr} {body body' : Stmt}
      (hv : ∀ w, (Part.optional value).resolve w = (Part.optional value').resolve w)
      (hc : ∀ w, c.resolve w = c'.resolve w) (hb : ∀ w, body.resolve w = body'.resolve w)
      (w : Walk) :
      (Stmt.block [.let name value, .while c body]).resolve w =
        (Stmt.block [.let name value', .while c' body']).resolve w :=
    congrArg (w.within .empty) <| funext fun w => both (congrArg (w.declare _) (funext hv)) fun w =>
      both (both (hc w) fun w => congrArg w.inLoop (funext hb)) fun _ => rfl
  induction h with
  | literal | noExprs | absent | noMethods | «break» | «continue» | noAlternative | noStmts =>
    exact fun _ => rfl
  | group _ ih | unary _ ih | get _ ih | present _ ih | expression _ ih | print _ ih
  | alternative _ ih => exact ih
  | binary _ _ ihl ihr | logical _ _ ihl ihr => exact fun w => both (ihl w) ihr
  | ternary _ _ _ ihc ihy ihn | «if» _ _ _ ihc ihy ihn =>
    exact fun w => both (ihc w) fun w => both (ihy w) ihn
  | «variable» hs | this hs =>
    subst hs
    exact fun _ => rfl
  | assign _ hs ih =>
    subst hs
    exact fun w => both (ih w) fun _ => rfl
  | call _ _ ih ihs | exprs _ _ ih ihs | stmts _ _ ih ihs => exact fun w => both (ih w) ihs
  | set _ _ iho ihv => exact fun w => both (ihv w) iho
  | function h ih =>
    cases h
    exact fun w => congrArg (Walk.inFunction _ _) (funext ih)
  | body _ ih => exact fun w => congrArg (w.inBody _) (funext ih)
  | methods _ _ ih ihs =>
    have called (w : Walk) := congrArg (w.inFunction .method) (funext ih)
    exact fun w => both (congrArg (w.within methodScope) (funext called)) ihs
  | «let» _ ih => exact fun w => congrArg (w.declare _) (funext ih)
  | block _ ih => exact fun w => congrArg (w.within _) (funext ih)
  | «while» _ _ ihc ih => exact fun w => both (ihc w) fun w => congrArg w.inLoop (funext ih)
  | @«for» name _ _ c c' _ _ _ _ _ _ _ _ ihv ihc ihs ih =>
    have guarded (w : Walk) : Expr.resolveOpt c w = Expr.resolveOpt c' w := by
      rw [Expr.resolveOpt_eq_guard, Expr.resolveOpt_eq_guard]
      exact ihc w
    exact fun w => congrArg (w.within .empty) <| funext fun w =>
      both (congrArg (w.declare _) (funext ihv)) fun w => both (guarded w) fun w =>
        both (ihs w) fun w => congrArg w.inLoop (funext ih)
  | forBlock _ _ _ ihv ihc ih =>
    exact fun w => (Stmt.resolve_for _ _ _ _ w).trans (looped ihv ihc ih w)
  | blockFor _ _ _ ihv ihc ih =>
    exact fun w => (looped ihv ihc ih w).trans (Stmt.resolve_for _ _ _ _ w).symm
  | «return» _ ih => exact fun w => both rfl ih
  | struct _ ih => exact fun w => congrArg (Walk.inMethods _) (funext ih)

/-- So both programs are accepted with the same distances, or refused with the same error. -/
theorem resolve_program {program program' : List Stmt}
    (h : Recast Eq (.stmts program) (.stmts program')) (globals : List String) :
    resolve globals program = resolve globals program' :=
  congrArg (fun r : Except Error Walk => r >>= fun w => .ok w.distances) (h.resolve_eq _)

end Recast

end Scriptling
