/-
  Strays — statements that ask for a loop or a function that is not there.

  A `break` or `continue` strays if no loop of the same function is around it, a `return` if
  no function is.

  * `strays`: the strays of a program, in the order of the walk;
  * `resolve_reports`: the walk passes only programs without strays, and of the strays in a
    program it reports the first;
  * `Completion.Fits`: how statements without strays complete (`Eval.straight`).
-/
import Scriptling.Evaluation
import Scriptling.Proofs.Visits

namespace Scriptling

/-- The fault is a stray statement. -/
def ScopeFault.IsStray (f : ScopeFault) : Prop :=
  f = .breakOutsideLoop ∨ f = .continueOutsideLoop ∨ f = .returnOutsideFunction

/-! ## The strays of a part -/

mutual

/-- The strays in the functions of an expression. -/
def Expr.strays : Expr → List (Nat × ScopeFault)
  | .literal _ => []
  | .group e => e.strays
  | .unary _ _ e => e.strays
  | .binary _ _ l r => l.strays ++ r.strays
  | .logical _ l r => l.strays ++ r.strays
  | .ternary c y n => c.strays ++ (y.strays ++ n.strays)
  | .variable _ _ => []
  | .assign _ _ value => value.strays
  | .call callee _ arguments => callee.strays ++ Expr.straysAll arguments
  | .get object _ => object.strays
  -- the walk takes the value first
  | .set object _ value => value.strays ++ object.strays
  | .this _ _ => []
  | .function f => f.strays

def Expr.straysAll : List Expr → List (Nat × ScopeFault)
  | [] => []
  | e :: es => e.strays ++ Expr.straysAll es

def Expr.straysOpt : Option Expr → List (Nat × ScopeFault)
  | none => []
  | some e => e.strays

/-- The strays in the body of a function, which no loop outside counts for. -/
def Function.strays : Function → List (Nat × ScopeFault)
  | .mk _ _ body _ => Stmt.straysAll false true body

def Function.straysAll : List Function → List (Nat × ScopeFault)
  | [] => []
  | f :: fs => f.strays ++ Function.straysAll fs

/-- The strays of a statement that does or does not stand in a loop and in a function. -/
def Stmt.strays (inLoop inFunction : Bool) : Stmt → List (Nat × ScopeFault)
  | .expression e => e.strays
  | .print e => e.strays
  | .let _ value => Expr.straysOpt value
  | .block body => Stmt.straysAll inLoop inFunction body
  | .if condition yes no => condition.strays ++
    (yes.strays inLoop inFunction ++ Stmt.straysOpt inLoop inFunction no)
  | .while condition body => condition.strays ++ body.strays true inFunction
  | .for _ value condition step body => Expr.straysOpt value ++ (Expr.straysOpt condition ++
    (Expr.straysOpt step ++ body.strays true inFunction))
  | .break line => if inLoop then [] else [(line, .breakOutsideLoop)]
  | .continue line => if inLoop then [] else [(line, .continueOutsideLoop)]
  | .return line value =>
    (if inFunction then [] else [(line, .returnOutsideFunction)]) ++ Expr.straysOpt value
  | .struct _ methods => Function.straysAll methods

def Stmt.straysOpt (inLoop inFunction : Bool) : Option Stmt → List (Nat × ScopeFault)
  | none => []
  | some s => s.strays inLoop inFunction

def Stmt.straysAll (inLoop inFunction : Bool) : List Stmt → List (Nat × ScopeFault)
  | [] => []
  | s :: ss => s.strays inLoop inFunction ++ Stmt.straysAll inLoop inFunction ss

end

/-- The strays of a whole program. -/
def strays (program : List Stmt) : List (Nat × ScopeFault) := Stmt.straysAll false false program

/-! ## The walk reports the first stray -/

namespace Walk

/-- The walk stands in a loop. -/
def inLoop? (w : Walk) : Bool := w.loops != 0

/-- The walk stands in a function. -/
def inFunction? (w : Walk) : Bool := w.function != .none

/-- What the walk over a part with the given strays may come to: it passes if there are none,
    and if it fails because of a stray, it is because of the first. -/
def Reports (strays : List (Nat × ScopeFault)) : Except Error Walk → Prop
  | .ok _ => strays = []
  | .error e => ∃ line fault, e = .scoping line fault ∧
    (fault.IsStray → strays.head? = some (line, fault))

variable {xs ys : List (Nat × ScopeFault)} {r : Except Error Walk}

theorem reports_bind {f : Walk → Except Error Walk} (h : Reports xs r)
    (hf : ∀ w, r = .ok w → Reports ys (f w)) : Reports (xs ++ ys) (r >>= f) := by
  cases r with
  | error e =>
    obtain ⟨line, fault, he, hhead⟩ := h
    refine ⟨line, fault, he, ?_⟩
    intro hs
    rw [List.head?_append, hhead hs]
    rfl
  | ok w =>
    have hxs : xs = [] := h
    rw [hxs]
    exact hf w rfl

/-- What comes after the walk over a part changes nothing. -/
theorem reports_map {f : Walk → Walk} (h : Reports xs r) :
    Reports xs (r >>= fun w => .ok (f w)) := by
  cases r with
  | error e => exact h
  | ok w => exact h

theorem reports_refer (w : Walk) (site : Nat) (name : Name) : Reports [] (w.refer site name) := by
  unfold refer
  split
  · rfl
  · split
    · refine ⟨_, _, rfl, ?_⟩
      rintro (h | h | h) <;> cases h
    · rfl

theorem reports_require {w : Walk} {condition : Bool} {line : Nat} {fault : ScopeFault} :
    Reports (if condition then [] else [(line, fault)]) (w.require condition line fault) := by
  cases condition with
  | true => rfl
  | false => exact ⟨line, fault, rfl, fun _ => rfl⟩

theorem reports_within {w : Walk} {s : Scope} {inside : Walk → Except Error Walk}
    (h : Reports xs (inside (w.enter s))) : Reports xs (w.within s inside) := reports_map h

theorem reports_inLoop {w : Walk} {body : Walk → Except Error Walk}
    (h : Reports xs (body { w with loops := w.loops + 1 })) : Reports xs (w.inLoop body) :=
  reports_map h

theorem reports_declare {w : Walk} {x : String} {value : Walk → Except Error Walk}
    (h : ∀ v : Walk, v.loops = w.loops → v.function = w.function → Reports xs (value v)) :
    Reports xs (w.declare x value) := by
  unfold declare
  split
  · exact reports_map (h _ rfl rfl)
  · have hm := w.grows_mark x false
    exact reports_map (h _ hm.loops hm.function)

theorem inLoop?_of_grows {w w' : Walk} (h : w.Grows w') : w'.inLoop? = w.inLoop? := by
  unfold inLoop?
  rw [h.loops]

theorem inFunction?_of_grows {w w' : Walk} (h : w.Grows w') : w'.inFunction? = w.inFunction? := by
  unfold inFunction?
  rw [h.function]

end Walk

open Walk

mutual

theorem Expr.resolve_reports : ∀ (e : Expr) (w : Walk), Reports e.strays (e.resolve w)
  | .literal _, _ => rfl
  | .group e, w => e.resolve_reports w
  | .unary _ _ e, w => e.resolve_reports w
  | .binary _ _ l r, w => reports_bind (l.resolve_reports w) fun w' _ => r.resolve_reports w'
  | .logical _ l r, w => reports_bind (l.resolve_reports w) fun w' _ => r.resolve_reports w'
  | .ternary c y n, w => reports_bind (c.resolve_reports w) fun w' _ =>
    reports_bind (y.resolve_reports w') fun w' _ => n.resolve_reports w'
  | .variable site name, w => reports_refer w site name
  | .assign site name value, w => by
    have h := reports_bind (value.resolve_reports w) fun w' _ => reports_refer w' site name
    rw [List.append_nil] at h
    exact h
  | .call callee _ arguments, w => reports_bind (callee.resolve_reports w) fun w' _ =>
    Expr.resolveAll_reports arguments w'
  | .get object _, w => object.resolve_reports w
  | .set object _ value, w => reports_bind (value.resolve_reports w) fun w' _ =>
    object.resolve_reports w'
  | .this site line, w => by
    have hreq : Reports [] (w.require w.inStruct line .thisOutsideMethod) := by
      cases hs : w.inStruct with
      | true => rfl
      | false =>
        refine ⟨_, _, rfl, ?_⟩
        rintro (h | h | h) <;> cases h
    exact reports_bind hreq fun w' _ => reports_refer w' site ⟨"this", line⟩
  | .function f, w => by
    unfold Expr.resolve Expr.strays
    exact reports_map (f.resolve_reports rfl)

theorem Expr.resolveAll_reports : ∀ (es : List Expr) (w : Walk),
    Reports (Expr.straysAll es) (Expr.resolveAll es w)
  | [], _ => rfl
  | e :: es, w => reports_bind (e.resolve_reports w) fun w' _ => Expr.resolveAll_reports es w'

theorem Expr.resolveOpt_reports : ∀ (e : Option Expr) (w : Walk),
    Reports (Expr.straysOpt e) (Expr.resolveOpt e w)
  | none, _ => rfl
  | some e, w => e.resolve_reports w

theorem Function.resolve_reports : ∀ (f : Function) {w : Walk}, w.inFunction? = true →
    Reports f.strays (f.resolve w)
  | .mk _ params body _, w, h => by
    have hbody := Stmt.resolveAll_reports body (w.enterBody params)
    have hflag : (w.enterBody params).inFunction? = true := h
    rw [hflag] at hbody
    exact reports_map (reports_within hbody)

theorem Function.resolveMethods_reports : ∀ (fs : List Function) (w : Walk),
    Reports (Function.straysAll fs) (Function.resolveMethods fs w)
  | [], _ => rfl
  | f :: fs, _ => reports_bind (reports_within (reports_map (f.resolve_reports rfl))) fun w' _ =>
    Function.resolveMethods_reports fs w'

theorem Stmt.resolve_reports : ∀ (s : Stmt) (w : Walk),
    Reports (s.strays w.inLoop? w.inFunction?) (s.resolve w)
  | .expression e, w => e.resolve_reports w
  | .print e, w => e.resolve_reports w
  | .let _ value, _ => reports_declare fun v _ _ => Expr.resolveOpt_reports value v
  | .block body, _ => reports_within (Stmt.resolveAll_reports body _)
  | .if condition yes no, w => reports_bind (condition.resolve_reports w) fun w₁ h₁ => by
    have g₁ := Part.resolve_grows (p := .expr condition) h₁
    have hyes := yes.resolve_reports w₁
    rw [inLoop?_of_grows g₁, inFunction?_of_grows g₁] at hyes
    refine reports_bind hyes fun w₂ h₂ => ?_
    have g₂ := g₁.trans (Part.resolve_grows (p := .stmt yes) h₂)
    have hno := Stmt.resolveOpt_reports no w₂
    rw [inLoop?_of_grows g₂, inFunction?_of_grows g₂] at hno
    exact hno
  | .while condition body, w => reports_bind (condition.resolve_reports w) fun w₁ h₁ => by
    have g₁ := Part.resolve_grows (p := .expr condition) h₁
    rw [← inFunction?_of_grows g₁]
    exact reports_inLoop (body.resolve_reports { w₁ with loops := w₁.loops + 1 })
  | .for name value condition step body, w => by
    refine reports_within (reports_bind (reports_declare fun v _ _ =>
      Expr.resolveOpt_reports value v) fun w₁ h₁ => ?_)
    have g₁ : (w.enter .empty).Grows w₁ := Part.resolve_grows (p := .stmt (.let name value)) h₁
    refine reports_bind (Expr.resolveOpt_reports condition w₁) fun w₂ h₂ => ?_
    have g₂ := g₁.trans (Part.resolve_grows (p := .optional condition) h₂)
    refine reports_bind (Expr.resolveOpt_reports step w₂) fun w₃ h₃ => ?_
    have g₃ := g₂.trans (Part.resolve_grows (p := .optional step) h₃)
    have hf : w₃.inFunction? = (w.enter .empty).inFunction? := inFunction?_of_grows g₃
    change Reports (body.strays true (w.enter .empty).inFunction?) _
    rw [← hf]
    exact reports_inLoop (body.resolve_reports { w₃ with loops := w₃.loops + 1 })
  | .break _, _ => reports_require
  | .continue _, _ => reports_require
  | .return _ value, _ => reports_bind reports_require fun w' _ =>
    Expr.resolveOpt_reports value w'
  | .struct _ methods, _ => reports_map (Function.resolveMethods_reports methods _)

theorem Stmt.resolveOpt_reports : ∀ (s : Option Stmt) (w : Walk),
    Reports (Stmt.straysOpt w.inLoop? w.inFunction? s) (Stmt.resolveOpt s w)
  | none, _ => rfl
  | some s, w => s.resolve_reports w

theorem Stmt.resolveAll_reports : ∀ (ss : List Stmt) (w : Walk),
    Reports (Stmt.straysAll w.inLoop? w.inFunction? ss) (Stmt.resolveAll ss w)
  | [], _ => rfl
  | s :: ss, w => reports_bind (s.resolve_reports w) fun w₁ h₁ => by
    have g₁ := Part.resolve_grows (p := .stmt s) h₁
    have hss := Stmt.resolveAll_reports ss w₁
    rw [inLoop?_of_grows g₁, inFunction?_of_grows g₁] at hss
    exact hss

end

theorem Part.function_notMem_pieces {p : Part} {f : Function} {names : List String} :
    (Part.function f, names) ∉ p.pieces := by
  cases p with
  | reference | function | method | rounds | clauses => simp [pieces]
  | expr e | exprs e | optional e | methods e | stmt e | alternative e | stmts e =>
    cases e <;> simp [pieces]

/-- A function is walked over as one. -/
theorem Pass.Visits.inFunction? {p : Pass} {Γ : List Layer} {w : Walk} {f : Function}
    (h : p.Visits Γ w (.function f)) : w.inFunction? = true := by
  cases h with
  | literal | receiver => rfl
  | piece _ hq => exact absurd (hq ▸ List.mem_append_cons_self) Part.function_notMem_pieces

/-- **A program that is accepted has no strays, and a program that is refused because of a stray
    is refused because of its first.** -/
theorem resolve_reports (globals : List String) (program : List Stmt) :
    match resolve globals program with
    | .ok _ => strays program = []
    | .error e => ∃ line fault, e = .scoping line fault ∧
      (fault.IsStray → (strays program).head? = some (line, fault)) := by
  have h := Stmt.resolveAll_reports program { globals := globals }
  unfold resolve
  cases hr : Stmt.resolveAll program { globals := globals } with
  | ok w => rw [hr] at h; exact h
  | error e => rw [hr] at h; exact h

/-! ## How statements without strays complete -/

/-- A statement that does or does not stand in a loop and in a function may complete so. -/
def Completion.Fits (inLoop inFunction : Bool) : Completion → Prop
  | .normal => True
  | .broken _ | .continued _ => inLoop = true
  | .returned _ => inFunction = true

namespace Eval

/-- With some fuel, statements without strays complete as they may where they stand. -/
structure Straight (fuel : Nat) : Prop where
  execute {s : Stmt} {inLoop inFunction : Bool} {m m' : Machine} {c : Completion} :
    s.strays inLoop inFunction = [] → Eval.execute fuel s m = some (.ok c, m') →
      c.Fits inLoop inFunction
  executeAll {ss : List Stmt} {inLoop inFunction : Bool} {m m' : Machine} {c : Completion} :
    Stmt.straysAll inLoop inFunction ss = [] → Eval.executeAll fuel ss m = some (.ok c, m') →
      c.Fits inLoop inFunction
  loop {condition step : Option Expr} {body : Stmt} {inLoop inFunction : Bool} {m m' : Machine}
    {c : Completion} : body.strays true inFunction = [] →
      Eval.loop fuel condition step body m = some (.ok c, m') → c.Fits inLoop inFunction

theorem straight_zero : Straight 0 where
  execute _ h := nomatch h
  executeAll _ h := nomatch h
  loop _ h := nomatch h

namespace Straight

variable {fuel : Nat} (ih : Straight fuel) {inLoop inFunction : Bool} {m m' : Machine}
  {c : Completion}
include ih

theorem execute_succ {s : Stmt} (hs : s.strays inLoop inFunction = [])
    (h : Eval.execute (fuel + 1) s m = some (.ok c, m')) : c.Fits inLoop inFunction := by
  unfold Eval.execute at h
  unfold Stmt.strays at hs
  cases s with
  | expression e | struct name methods =>
    obtain ⟨_, _, -, h⟩ := bind_eq_ok.1 h
    cases h; trivial
  | print e | «let» name value =>
    obtain ⟨_, _, -, h⟩ := bind_eq_ok.1 h
    obtain ⟨_, _, -, h⟩ := bind_eq_ok.1 h
    cases h; trivial
  | block body =>
    obtain ⟨_, _, -, h⟩ := bind_eq_ok.1 h
    obtain ⟨_, _, -, h⟩ := bind_eq_ok.1 h
    obtain ⟨_, h, -⟩ := within_eq.1 h
    exact ih.executeAll hs h
  | «if» condition yes no =>
    obtain ⟨-, hs⟩ := List.append_eq_nil_iff.1 hs
    obtain ⟨hyes, hno⟩ := List.append_eq_nil_iff.1 hs
    obtain ⟨v, _, -, h⟩ := bind_eq_ok.1 h
    split at h
    · exact ih.execute hyes h
    · cases no with
      | none => cases h; trivial
      | some s => exact ih.execute hno h
  | «while» condition body => exact ih.loop (List.append_eq_nil_iff.1 hs).2 h
  | «for» name value condition step body =>
    obtain ⟨-, hs⟩ := List.append_eq_nil_iff.1 hs
    obtain ⟨-, hs⟩ := List.append_eq_nil_iff.1 hs
    obtain ⟨-, hs⟩ := List.append_eq_nil_iff.1 hs
    obtain ⟨_, _, -, h⟩ := bind_eq_ok.1 h
    obtain ⟨_, _, -, h⟩ := bind_eq_ok.1 h
    obtain ⟨_, h, -⟩ := within_eq.1 h
    obtain ⟨_, _, -, h⟩ := bind_eq_ok.1 h
    obtain ⟨_, _, -, h⟩ := bind_eq_ok.1 h
    exact ih.loop hs h
  | «break» line | «continue» line =>
    cases h
    cases inLoop with
    | true => rfl
    | false => cases hs
  | «return» line value =>
    obtain ⟨_, _, -, h⟩ := bind_eq_ok.1 h
    cases h
    cases inFunction with
    | true => rfl
    | false => cases hs

theorem executeAll_succ {ss : List Stmt} (hs : Stmt.straysAll inLoop inFunction ss = [])
    (h : Eval.executeAll (fuel + 1) ss m = some (.ok c, m')) : c.Fits inLoop inFunction := by
  cases ss with
  | nil => cases h; trivial
  | cons s ss =>
    obtain ⟨hfirst, hrest⟩ := List.append_eq_nil_iff.1 hs
    obtain ⟨c₁, _, h₁, h⟩ := bind_eq_ok.1 h
    cases c₁ with
    | normal => exact ih.executeAll hrest h
    | broken | continued | returned => cases h; exact ih.execute hfirst h₁

theorem loop_succ {condition step : Option Expr} {body : Stmt}
    (hs : body.strays true inFunction = [])
    (h : Eval.loop (fuel + 1) condition step body m = some (.ok c, m')) :
    c.Fits inLoop inFunction := by
  unfold Eval.loop at h
  obtain ⟨v, _, -, h⟩ := bind_eq_ok.1 h
  split at h
  · obtain ⟨c₁, _, h₁, h⟩ := bind_eq_ok.1 h
    cases c₁ with
    | broken => cases h; trivial
    | returned v =>
      cases h
      have fits := ih.execute hs h₁
      exact fits
    | normal | continued =>
      obtain ⟨_, _, -, h⟩ := bind_eq_ok.1 h
      exact ih.loop hs h
  · cases h; trivial

end Straight

/-- **Statements without strays complete as they may where they stand.** -/
theorem straight : ∀ fuel, Straight fuel
  | 0 => straight_zero
  | fuel + 1 => ⟨(straight fuel).execute_succ, (straight fuel).executeAll_succ,
    (straight fuel).loop_succ⟩

end Eval

end Scriptling
