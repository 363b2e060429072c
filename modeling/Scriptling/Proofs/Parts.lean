/-
  Parts — what programs are made of, in the order of the walk.

  * `Part.resolve`: the walk over a part, whatever kind it is of;
  * `Part.declares`, `Part.encloses`: the names that a part declares, in the scope that it
    stands in and in scopes of its own;
  * `Stmt.assured`: the names that are bound in the scope around for certain when a part is
    done; the other names that it declares stand where running it can pass them over;
  * `Walk.Closed`: a relation between walks that everything a walk does respects, and so the
    walk over every part (`Part.resolve_closed`).
-/
import Scriptling.Scoping

namespace Scriptling

theorem Except.bind_eq_ok {ε α β : Type} {x : Except ε α} {f : α → Except ε β} {b : β} :
    (x >>= f) = .ok b ↔ ∃ a, x = .ok a ∧ f a = .ok b := by
  cases x with
  | error e =>
    constructor
    · intro h; cases h
    · rintro ⟨_, h, -⟩; cases h
  | ok a =>
    constructor
    · intro h; exact ⟨a, rfl, h⟩
    · rintro ⟨_, h, hf⟩; cases h; exact hf

theorem Except.bind_eq_error {ε α β : Type} {x : Except ε α} {f : α → Except ε β} {e : ε} :
    (x >>= f) = .error e ↔ x = .error e ∨ ∃ a, x = .ok a ∧ f a = .error e := by
  cases x with
  | error e' =>
    constructor
    · intro h; cases h; exact Or.inl rfl
    · rintro (h | ⟨_, h, -⟩)
      · cases h; rfl
      · cases h
  | ok a =>
    constructor
    · intro h; exact Or.inr ⟨a, rfl, h⟩
    · rintro (h | ⟨_, h, hf⟩)
      · cases h
      · cases h; exact hf

/-! ## Names -/

mutual

/-- The names that an expression declares in the scope around it. -/
def Expr.declares : Expr → List String
  | .literal _ => []
  | .group e => e.declares
  | .unary _ _ e => e.declares
  | .binary _ _ l r => l.declares ++ r.declares
  | .logical _ l r => l.declares ++ r.declares
  | .ternary c y n => c.declares ++ (y.declares ++ n.declares)
  | .variable _ _ => []
  | .assign _ _ value => value.declares
  | .call callee _ arguments => callee.declares ++ Expr.declaresAll arguments
  | .get object _ => object.declares
  | .set object _ value => object.declares ++ value.declares
  | .this _ _ => []
  | .function f => f.name.toList.map Name.text

def Expr.declaresAll : List Expr → List String
  | [] => []
  | e :: es => e.declares ++ Expr.declaresAll es

end

def Expr.declaresOpt : Option Expr → List String
  | none => []
  | some e => e.declares

mutual

/-- The names that a statement declares in the scope around it. -/
def Stmt.declares : Stmt → List String
  | .expression e => e.declares
  | .print e => e.declares
  | .let name value => name.text :: Expr.declaresOpt value
  | .block _ => []
  | .if condition yes no => condition.declares ++ (yes.declares ++ Stmt.declaresOpt no)
  | .while condition body => condition.declares ++ body.declares
  | .for _ _ _ _ _ => []
  | .break _ => []
  | .continue _ => []
  | .return _ value => Expr.declaresOpt value
  | .struct name _ => [name.text]

def Stmt.declaresOpt : Option Stmt → List String
  | none => []
  | some s => s.declares

end

def Stmt.declaresAll : List Stmt → List String
  | [] => []
  | s :: ss => s.declares ++ Stmt.declaresAll ss

/-- The names that a `for` declares in the scope of its variable. -/
def declaresInLoop (name : Name) (value condition step : Option Expr) (body : Stmt) :
    List String :=
  name.text :: (Expr.declaresOpt value ++ (Expr.declaresOpt condition ++
    (Expr.declaresOpt step ++ body.declares)))

mutual

/-- The names that an expression declares in scopes inside it. -/
def Expr.encloses : Expr → List String
  | .literal _ => []
  | .group e => e.encloses
  | .unary _ _ e => e.encloses
  | .binary _ _ l r => l.encloses ++ r.encloses
  | .logical _ l r => l.encloses ++ r.encloses
  | .ternary c y n => c.encloses ++ (y.encloses ++ n.encloses)
  | .variable _ _ => []
  | .assign _ _ value => value.encloses
  | .call callee _ arguments => callee.encloses ++ Expr.enclosesAll arguments
  | .get object _ => object.encloses
  | .set object _ value => object.encloses ++ value.encloses
  | .this _ _ => []
  | .function f => f.encloses

def Expr.enclosesAll : List Expr → List String
  | [] => []
  | e :: es => e.encloses ++ Expr.enclosesAll es

def Expr.enclosesOpt : Option Expr → List String
  | none => []
  | some e => e.encloses

/-- The parameters of a function and the names declared in its body. -/
def Function.encloses : Function → List String
  | .mk _ params body _ =>
    params.map Name.text ++ (Stmt.declaresAll body ++ Stmt.enclosesAll body)

def Function.enclosesAll : List Function → List String
  | [] => []
  | f :: fs => f.encloses ++ Function.enclosesAll fs

/-- The names that a statement declares in scopes inside it. -/
def Stmt.encloses : Stmt → List String
  | .expression e => e.encloses
  | .print e => e.encloses
  | .let _ value => Expr.enclosesOpt value
  | .block body => Stmt.declaresAll body ++ Stmt.enclosesAll body
  | .if condition yes no => condition.encloses ++ (yes.encloses ++ Stmt.enclosesOpt no)
  | .while condition body => condition.encloses ++ body.encloses
  | .for name value condition step body =>
    declaresInLoop name value condition step body ++ (Expr.enclosesOpt value ++
      (Expr.enclosesOpt condition ++ (Expr.enclosesOpt step ++ body.encloses)))
  | .break _ => []
  | .continue _ => []
  | .return _ value => Expr.enclosesOpt value
  | .struct _ methods => Function.enclosesAll methods

def Stmt.enclosesOpt : Option Stmt → List String
  | none => []
  | some s => s.encloses

def Stmt.enclosesAll : List Stmt → List String
  | [] => []
  | s :: ss => s.encloses ++ Stmt.enclosesAll ss

end

/-- All names that a program declares: variables, parameters, named functions, structs. -/
def declaredNames (program : List Stmt) : List String :=
  Stmt.declaresAll program ++ Stmt.enclosesAll program

mutual

/-- The names that are bound in the scope around for certain once an expression is evaluated. -/
def Expr.assured : Expr → List String
  | .literal _ => []
  | .group e => e.assured
  | .unary _ _ e => e.assured
  | .binary _ _ l r => l.assured ++ r.assured
  | .logical _ l _ => l.assured
  | .ternary c _ _ => c.assured
  | .variable _ _ => []
  | .assign _ _ value => value.assured
  | .call callee _ arguments => callee.assured ++ Expr.assuredAll arguments
  | .get object _ => object.assured
  | .set object _ value => object.assured ++ value.assured
  | .this _ _ => []
  | .function f => f.name.toList.map Name.text

def Expr.assuredAll : List Expr → List String
  | [] => []
  | e :: es => e.assured ++ Expr.assuredAll es

end

def Expr.assuredOpt : Option Expr → List String
  | none => []
  | some e => e.assured

/-- The names that are bound in the scope around for certain once a statement has completed
    normally. -/
def Stmt.assured : Stmt → List String
  | .expression e => e.assured
  | .print e => e.assured
  | .let name value => name.text :: Expr.assuredOpt value
  | .if condition _ _ => condition.assured
  | .while condition _ => condition.assured
  | .struct name _ => [name.text]
  | _ => []

def Stmt.assuredAll : List Stmt → List String
  | [] => []
  | s :: ss => s.assured ++ Stmt.assuredAll ss

/-! ## Parts -/

/-- What a walk comes to. -/
inductive Part where
  | expr (e : Expr)
  | exprs (es : List Expr)
  | optional (e : Option Expr)
  /-- The name of a variable or `this`, where it is looked up or assigned to. -/
  | reference (site : Nat) (name : Name)
  /-- The parameters and the body of a function. -/
  | function (f : Function)
  /-- A function in the scope of its receiver. -/
  | method (f : Function)
  | methods (fs : List Function)
  | stmt (s : Stmt)
  | alternative (s : Option Stmt)
  | stmts (ss : List Stmt)
  /-- The body of a loop. -/
  | rounds (body : Stmt)
  /-- What stands in the scope of the variable of a `for`. -/
  | clauses (name : Name) (value condition step : Option Expr) (body : Stmt)

namespace Part

/-- The walk over a part. -/
def resolve : Part → Walk → Except Error Walk
  | expr e, w => e.resolve w
  | exprs es, w => Expr.resolveAll es w
  | optional e, w => Expr.resolveOpt e w
  | reference site name, w => w.refer site name
  | function f, w => f.resolve w
  | method f, w => w.within methodScope fun w => w.inFunction .method fun w => f.resolve w
  | methods fs, w => Function.resolveMethods fs w
  | stmt s, w => s.resolve w
  | alternative s, w => Stmt.resolveOpt s w
  | stmts ss, w => Stmt.resolveAll ss w
  | rounds body, w => w.inLoop fun w => body.resolve w
  | clauses name value condition step body, w => do
    let w ← w.declare name.text fun w => Expr.resolveOpt value w
    let w ← Expr.resolveOpt condition w
    let w ← Expr.resolveOpt step w
    w.inLoop fun w => body.resolve w

/-- The references in a part, except for a part that is one. -/
def references : Part → List Reference
  | expr e => e.references
  | exprs es => Expr.referencesAll es
  | optional e => Expr.referencesOpt e
  | reference _ _ => []
  | function f | method f => f.references
  | methods fs => Function.referencesAll fs
  | stmt s => s.references
  | alternative s => Stmt.referencesOpt s
  | stmts ss => Stmt.referencesAll ss
  | rounds body => body.references
  | clauses _ value condition step body =>
    Expr.referencesOpt value ++ Expr.referencesOpt condition ++ Expr.referencesOpt step
      ++ body.references

/-- The sites of a part. -/
def sites : Part → List Nat
  | reference site _ => [site]
  | p => p.references.map Reference.site

/-- The names that a part declares in the scope around it. -/
def declares : Part → List String
  | expr e => e.declares
  | exprs es => Expr.declaresAll es
  | optional e => Expr.declaresOpt e
  | reference _ _ | function _ | method _ | methods _ => []
  | stmt s => s.declares
  | alternative s => Stmt.declaresOpt s
  | stmts ss => Stmt.declaresAll ss
  | rounds body => body.declares
  | clauses name value condition step body => declaresInLoop name value condition step body

/-- The names that a part declares in scopes inside it. -/
def encloses : Part → List String
  | expr e => e.encloses
  | exprs es => Expr.enclosesAll es
  | optional e => Expr.enclosesOpt e
  | reference _ _ => []
  | function f | method f => f.encloses
  | methods fs => Function.enclosesAll fs
  | stmt s => s.encloses
  | alternative s => Stmt.enclosesOpt s
  | stmts ss => Stmt.enclosesAll ss
  | rounds body => body.encloses
  | clauses _ value condition step body =>
    Expr.enclosesOpt value ++ (Expr.enclosesOpt condition ++
      (Expr.enclosesOpt step ++ body.encloses))

/-- The parts that a part is made of, if they all stand in its scope, in the order of the
    walk; each with the names that are assured when it comes to be run. -/
def pieces : Part → List (Part × List String)
  | expr (.group e) | expr (.unary _ _ e) | expr (.get e _) => [(expr e, [])]
  | expr (.binary _ _ l r) | expr (.logical _ l r) => [(expr l, []), (expr r, l.assured)]
  | expr (.ternary c y n) => [(expr c, []), (expr y, c.assured), (expr n, c.assured)]
  | expr (.variable site name) => [(reference site name, [])]
  | expr (.this site line) => [(reference site ⟨"this", line⟩, [])]
  | expr (.assign site name value) => [(expr value, []), (reference site name, value.assured)]
  | expr (.call callee _ arguments) => [(expr callee, []), (exprs arguments, callee.assured)]
  -- the walk takes the value first, but running the assignment takes the object first
  | expr (.set object _ value) => [(expr value, object.assured), (expr object, [])]
  | exprs (e :: es) => [(expr e, []), (exprs es, e.assured)]
  | optional (some e) => [(expr e, [])]
  | methods (f :: fs) => [(method f, []), (methods fs, [])]
  | stmt (.expression e) | stmt (.print e) => [(expr e, [])]
  | stmt (.if c y n) => [(expr c, []), (stmt y, c.assured), (alternative n, c.assured)]
  | stmt (.while c body) => [(optional (some c), []), (rounds body, c.assured)]
  | stmt (.return _ value) => [(optional value, [])]
  | alternative (some s) => [(stmt s, [])]
  | stmts (s :: ss) => [(stmt s, []), (stmts ss, s.assured)]
  -- the body is run before the step for the first time
  | clauses name value c step body =>
    let named := name.text :: Expr.assuredOpt value
    [(stmt (.let name value), []), (optional c, named),
      (optional step, Expr.assuredOpt c ++ named), (rounds body, Expr.assuredOpt c ++ named)]
  | _ => []

/-- The walk over one part after the other. -/
def resolveEach : List Part → Walk → Except Error Walk
  | [], w => .ok w
  | p :: ps, w => do
    let w ← p.resolve w
    resolveEach ps w

end Part

/-! ## Pieces -/

theorem Walk.require_eq_ok {w w' : Walk} {condition : Bool} {line : Nat} {fault : ScopeFault} :
    w.require condition line fault = .ok w' ↔ condition = true ∧ w' = w := by
  cases condition <;> simp [Walk.require, eq_comm]

namespace Part

theorem resolveEach_append {ps qs : List Part} {w w' : Walk} :
    resolveEach (ps ++ qs) w = .ok w' ↔
      ∃ w₁, resolveEach ps w = .ok w₁ ∧ resolveEach qs w₁ = .ok w' := by
  induction ps generalizing w with
  | nil => simp [resolveEach]
  | cons p ps ih =>
    simp only [List.cons_append, resolveEach, Except.bind_eq_ok, ih]
    constructor
    · rintro ⟨w₁, h₁, w₂, h₂, h₃⟩; exact ⟨w₂, ⟨w₁, h₁, h₂⟩, h₃⟩
    · rintro ⟨w₂, ⟨w₁, h₁, h₂⟩, h₃⟩; exact ⟨w₁, h₁, w₂, h₂, h₃⟩

theorem resolveEach_singleton {p : Part} {w : Walk} : resolveEach [p] w = p.resolve w := by
  unfold resolveEach
  cases p.resolve w <;> rfl

/-- **The walk over a part is the walk over its pieces.** -/
theorem resolveEach_pieces {p : Part} {w w' : Walk} (hp : p.pieces ≠ [])
    (h : p.resolve w = .ok w') : resolveEach (p.pieces.map Prod.fst) w = .ok w' := by
  have two {p q : Part} {w w' : Walk} (h : p.resolve w >>= q.resolve = .ok w') :
      resolveEach [p, q] w = .ok w' := by
    obtain ⟨w₁, h₁, h₂⟩ := Except.bind_eq_ok.1 h
    exact Except.bind_eq_ok.2 ⟨w₁, h₁, resolveEach_singleton.trans h₂⟩
  have three {p q r : Part} {w w' : Walk}
      (h : (p.resolve w >>= fun w => q.resolve w >>= r.resolve) = .ok w') :
      resolveEach [p, q, r] w = .ok w' := by
    obtain ⟨w₁, h₁, h₂⟩ := Except.bind_eq_ok.1 h
    exact Except.bind_eq_ok.2 ⟨w₁, h₁, two h₂⟩
  cases p with
  | expr e =>
    cases e with
    | literal | function => exact absurd rfl hp
    | group | unary | get | «variable» => exact resolveEach_singleton.trans h
    | binary | logical | assign | call | set => exact two h
    | ternary => exact three h
    | this site line =>
      obtain ⟨w₁, h₁, h₂⟩ := Except.bind_eq_ok.1 h
      obtain ⟨-, rfl⟩ := Walk.require_eq_ok.1 h₁
      exact resolveEach_singleton.trans h₂
  | exprs es =>
    cases es with
    | nil => exact absurd rfl hp
    | cons => exact two h
  | optional e =>
    cases e with
    | none => exact absurd rfl hp
    | some => exact resolveEach_singleton.trans h
  | methods fs =>
    cases fs with
    | nil => exact absurd rfl hp
    | cons => exact two h
  | stmt s =>
    cases s with
    | «let» | block | «for» | «break» | «continue» | struct => exact absurd rfl hp
    | expression | print => exact resolveEach_singleton.trans h
    | «while» => exact two h
    | «if» => exact three h
    | «return» line value =>
      obtain ⟨w₁, h₁, h₂⟩ := Except.bind_eq_ok.1 h
      obtain ⟨-, rfl⟩ := Walk.require_eq_ok.1 h₁
      exact resolveEach_singleton.trans h₂
  | alternative s =>
    cases s with
    | none => exact absurd rfl hp
    | some => exact resolveEach_singleton.trans h
  | stmts ss =>
    cases ss with
    | nil => exact absurd rfl hp
    | cons => exact two h
  | clauses =>
    obtain ⟨w₁, h₁, h₂⟩ := Except.bind_eq_ok.1 h
    exact Except.bind_eq_ok.2 ⟨w₁, h₁, three h₂⟩
  | reference | function | method | rounds => exact absurd rfl hp

/-- The sites of a part are those of its pieces. -/
theorem sites_pieces {p : Part} (hp : p.pieces ≠ []) :
    (p.pieces.flatMap fun q => q.1.sites).Perm p.sites := by
  have swap (rs ts : List Reference) : (ts.map Reference.site ++ rs.map Reference.site).Perm
      ((rs ++ ts).map Reference.site) := by
    rw [List.map_append]; exact List.perm_append_comm
  cases p with
  | expr e =>
    cases e with
    | set object name value =>
      simpa [pieces, sites, references, Expr.references] using
        swap object.references value.references
    | assign site name value =>
      simp [pieces, sites, references, Expr.references]
    | literal | function => exact absurd rfl hp
    | _ => simp [pieces, sites, references, Expr.references]
  | exprs es => cases es <;> simp [pieces, sites, references, Expr.referencesAll] at hp ⊢
  | optional e => cases e <;> simp [pieces, sites, references, Expr.referencesOpt] at hp ⊢
  | methods fs => cases fs <;> simp [pieces, sites, references, Function.referencesAll] at hp ⊢
  | stmt s =>
    cases s <;> simp [pieces, sites, references, Stmt.references, Expr.referencesOpt] at hp ⊢
  | alternative s => cases s <;> simp [pieces, sites, references, Stmt.referencesOpt] at hp ⊢
  | stmts ss => cases ss <;> simp [pieces, sites, references, Stmt.referencesAll] at hp ⊢
  | clauses => simp [pieces, sites, references, Stmt.references]
  | reference | function | method | rounds => exact absurd rfl hp

/-- A piece declares nothing in the scope around but what the whole declares there. -/
theorem declares_pieces {p : Part} : ∀ q ∈ p.pieces, q.1.declares ⊆ p.declares := by
  cases p with
  | expr e => cases e <;> simp [pieces, declares, Expr.declares]
  | exprs es => cases es <;> simp [pieces, declares, Expr.declaresAll]
  | optional e => cases e <;> simp [pieces, declares, Expr.declaresOpt]
  | methods fs => cases fs <;> simp [pieces, declares]
  | stmt s => cases s <;> simp [pieces, declares, Stmt.declares, Expr.declaresOpt]
  | alternative s => cases s <;> simp [pieces, declares, Stmt.declaresOpt]
  | stmts ss => cases ss <;> simp [pieces, declares, Stmt.declaresAll]
  | clauses name value condition step body =>
    intro q hq x hx
    simp only [pieces, List.mem_cons, List.not_mem_nil, or_false] at hq
    simp only [declares, declaresInLoop, List.mem_cons, List.mem_append]
    rcases hq with rfl | rfl | rfl | rfl
    · exact (List.mem_cons.1 hx).imp_right Or.inl
    · exact Or.inr (Or.inr (Or.inl hx))
    · exact Or.inr (Or.inr (Or.inr (Or.inl hx)))
    · exact Or.inr (Or.inr (Or.inr (Or.inr hx)))
  | reference | function | method | rounds => simp [pieces]

/-- The scopes inside a piece are scopes inside the whole. -/
theorem encloses_pieces {p : Part} : ∀ q ∈ p.pieces, q.1.encloses.Sublist p.encloses := by
  cases p with
  | expr e => cases e <;> simp [pieces, encloses, Expr.encloses]
  | exprs es => cases es <;> simp [pieces, encloses, Expr.enclosesAll]
  | optional e => cases e <;> simp [pieces, encloses, Expr.enclosesOpt]
  | methods fs => cases fs <;> simp [pieces, encloses, Function.enclosesAll]
  | stmt s => cases s <;> simp [pieces, encloses, Stmt.encloses, Expr.enclosesOpt]
  | alternative s => cases s <;> simp [pieces, encloses, Stmt.enclosesOpt]
  | stmts ss => cases ss <;> simp [pieces, encloses, Stmt.enclosesAll]
  | clauses name value condition step body =>
    have inner {a b c : List String} (h : a.Sublist c) : a.Sublist (b ++ c) :=
      h.trans (List.sublist_append_right b c)
    simp only [pieces, encloses, Stmt.encloses, List.forall_mem_cons]
    exact ⟨List.sublist_append_left _ _, inner (List.sublist_append_left _ _),
      inner (inner (List.sublist_append_left _ _)), inner (inner (List.sublist_append_right _ _)),
      List.forall_mem_nil _⟩
  | reference | function | method | rounds => simp [pieces]

end Part

/-! ## Relations between walks -/

/-- Relations between the walk before and the walk after that everything a walk does respects,
    as long as it comes to none but the given sites. -/
structure Walk.Closed (S : Nat → Prop) (R : Walk → Walk → Prop) : Prop where
  refl : ∀ w, R w w
  trans : ∀ {a b c}, R a b → R b c → R a c
  refer : ∀ {w w' : Walk} {site name}, S site → w.refer site name = .ok w' → R w w'
  bind : ∀ (w : Walk) x, R w (w.bind x)
  within : ∀ {w after : Walk} {s : Scope}, R { w with scopes := s :: w.scopes } after →
    R w { after with scopes := after.scopes.tail }
  first : ∀ {w after : Walk} {x}, w.scopes = [] → R { w with pending := some x } after →
    R w { after with pending := none, globals := x :: after.globals }
  declare : ∀ {w after : Walk} {x}, w.scopes ≠ [] → R (w.mark x false) after →
    R w (after.mark x true)
  inLoop : ∀ {w after : Walk}, R { w with loops := w.loops + 1 } after →
    R w { after with loops := after.loops - 1 }
  inFunction : ∀ {w after : Walk} {kind : FunctionKind}, R { w with function := kind } after →
    R w { after with function := w.function }
  inBody : ∀ {w after : Walk}, R { w with loops := 0 } after → R w { after with loops := w.loops }
  inMethods : ∀ {w after : Walk}, R { w with inStruct := true } after →
    R w { after with inStruct := w.inStruct }

namespace Walk.Closed

variable {S : Nat → Prop} {R : Walk → Walk → Prop} (hR : Walk.Closed S R)
include hR

theorem of_within {w w' : Walk} {s : Scope} {inside : Walk → Except Error Walk}
    (hi : ∀ {a b}, inside a = .ok b → R a b) (h : w.within s inside = .ok w') : R w w' := by
  obtain ⟨after, ha, h⟩ := Except.bind_eq_ok.1 h
  cases h
  exact hR.within (hi ha)

theorem of_declare {w w' : Walk} {x : String} {value : Walk → Except Error Walk}
    (hi : ∀ {a b}, value a = .ok b → R a b) (h : w.declare x value = .ok w') : R w w' := by
  unfold Walk.declare at h
  split at h
  · next he =>
    obtain ⟨after, ha, h⟩ := Except.bind_eq_ok.1 h
    cases h
    exact hR.first (List.isEmpty_iff.1 he) (hi ha)
  · next he =>
    obtain ⟨after, ha, h⟩ := Except.bind_eq_ok.1 h
    cases h
    exact hR.declare (fun hn => he (List.isEmpty_iff.2 hn)) (hi ha)

theorem of_inLoop {w w' : Walk} {body : Walk → Except Error Walk}
    (hi : ∀ {a b}, body a = .ok b → R a b) (h : w.inLoop body = .ok w') : R w w' := by
  obtain ⟨after, ha, h⟩ := Except.bind_eq_ok.1 h
  cases h
  exact hR.inLoop (hi ha)

theorem of_inFunction {w w' : Walk} {kind : FunctionKind} {function : Walk → Except Error Walk}
    (hi : ∀ {a b}, function a = .ok b → R a b) (h : w.inFunction kind function = .ok w') :
    R w w' := by
  obtain ⟨after, ha, h⟩ := Except.bind_eq_ok.1 h
  cases h
  exact hR.inFunction (hi ha)

theorem of_inBody {w w' : Walk} {params : List Name} {body : Walk → Except Error Walk}
    (hi : ∀ {a b}, body a = .ok b → R a b) (h : w.inBody params body = .ok w') : R w w' := by
  obtain ⟨after, ha, h⟩ := Except.bind_eq_ok.1 h
  cases h
  exact hR.inBody (hR.of_within hi ha)

theorem of_inMethods {w w' : Walk} {methods : Walk → Except Error Walk}
    (hi : ∀ {a b}, methods a = .ok b → R a b) (h : w.inMethods methods = .ok w') : R w w' := by
  obtain ⟨after, ha, h⟩ := Except.bind_eq_ok.1 h
  cases h
  exact hR.inMethods (hi ha)

end Walk.Closed

/-- The sites of some references are among the given ones. -/
def SitesIn (S : Nat → Prop) (rs : List Reference) : Prop := ∀ r ∈ rs, S r.site

theorem SitesIn.append {S : Nat → Prop} {rs ts : List Reference} :
    SitesIn S (rs ++ ts) ↔ SitesIn S rs ∧ SitesIn S ts := List.forall_mem_append

section
variable {S : Nat → Prop} {R : Walk → Walk → Prop} (hR : Walk.Closed S R)
include hR

mutual

theorem Expr.resolve_closed : ∀ {e : Expr} {w w' : Walk}, SitesIn S e.references →
    e.resolve w = .ok w' → R w w'
  | .literal _, w, w', _, h => by cases h; exact hR.refl w
  | .group e, _, _, hs, h => e.resolve_closed hs h
  | .unary _ _ e, _, _, hs, h => e.resolve_closed hs h
  | .binary _ _ l r, _, _, hs, h => by
    obtain ⟨hl, hr⟩ := SitesIn.append.1 hs
    obtain ⟨_, h₁, h₂⟩ := Except.bind_eq_ok.1 h
    exact hR.trans (l.resolve_closed hl h₁) (r.resolve_closed hr h₂)
  | .logical _ l r, _, _, hs, h => by
    obtain ⟨hl, hr⟩ := SitesIn.append.1 hs
    obtain ⟨_, h₁, h₂⟩ := Except.bind_eq_ok.1 h
    exact hR.trans (l.resolve_closed hl h₁) (r.resolve_closed hr h₂)
  | .ternary c y n, _, _, hs, h => by
    obtain ⟨hs, hn⟩ := SitesIn.append.1 hs
    obtain ⟨hc, hy⟩ := SitesIn.append.1 hs
    obtain ⟨_, h₁, h⟩ := Except.bind_eq_ok.1 h
    obtain ⟨_, h₂, h₃⟩ := Except.bind_eq_ok.1 h
    exact hR.trans (c.resolve_closed hc h₁)
      (hR.trans (y.resolve_closed hy h₂) (n.resolve_closed hn h₃))
  | .variable _ _, _, _, hs, h => hR.refer (hs _ List.mem_cons_self) h
  | .assign _ _ value, _, _, hs, h => by
    obtain ⟨hr, hv⟩ := List.forall_mem_cons.1 hs
    obtain ⟨_, h₁, h₂⟩ := Except.bind_eq_ok.1 h
    exact hR.trans (value.resolve_closed hv h₁) (hR.refer hr h₂)
  | .call callee _ arguments, _, _, hs, h => by
    obtain ⟨hc, ha⟩ := SitesIn.append.1 hs
    obtain ⟨_, h₁, h₂⟩ := Except.bind_eq_ok.1 h
    exact hR.trans (callee.resolve_closed hc h₁) (Expr.resolveAll_closed ha h₂)
  | .get object _, _, _, hs, h => object.resolve_closed hs h
  | .set object _ value, _, _, hs, h => by
    obtain ⟨ho, hv⟩ := SitesIn.append.1 hs
    obtain ⟨_, h₁, h₂⟩ := Except.bind_eq_ok.1 h
    exact hR.trans (value.resolve_closed hv h₁) (object.resolve_closed ho h₂)
  | .this _ _, _, _, hs, h => by
    obtain ⟨_, h₁, h₂⟩ := Except.bind_eq_ok.1 h
    obtain ⟨-, rfl⟩ := Walk.require_eq_ok.1 h₁
    exact hR.refer (hs _ List.mem_cons_self) h₂
  | .function f, w, _, hs, h => by
    unfold Expr.resolve at h
    cases hn : f.name with
    | none => rw [hn] at h; exact hR.of_inFunction (fun h => f.resolve_closed hs h) h
    | some name =>
      rw [hn] at h
      exact hR.trans (hR.bind w name.text) (hR.of_inFunction (fun h => f.resolve_closed hs h) h)

theorem Expr.resolveAll_closed : ∀ {es : List Expr} {w w' : Walk},
    SitesIn S (Expr.referencesAll es) → Expr.resolveAll es w = .ok w' → R w w'
  | [], w, _, _, h => by cases h; exact hR.refl w
  | e :: es, _, _, hs, h => by
    obtain ⟨he, hes⟩ := SitesIn.append.1 hs
    obtain ⟨_, h₁, h₂⟩ := Except.bind_eq_ok.1 h
    exact hR.trans (e.resolve_closed he h₁) (Expr.resolveAll_closed hes h₂)

theorem Expr.resolveOpt_closed : ∀ {e : Option Expr} {w w' : Walk},
    SitesIn S (Expr.referencesOpt e) → Expr.resolveOpt e w = .ok w' → R w w'
  | none, w, _, _, h => by cases h; exact hR.refl w
  | some e, _, _, hs, h => e.resolve_closed hs h

theorem Function.resolve_closed : ∀ {f : Function} {w w' : Walk}, SitesIn S f.references →
    f.resolve w = .ok w' → R w w'
  | .mk _ _ _ _, _, _, hs, h => hR.of_inBody (fun h => Stmt.resolveAll_closed hs h) h

theorem Function.resolveMethods_closed : ∀ {fs : List Function} {w w' : Walk},
    SitesIn S (Function.referencesAll fs) → Function.resolveMethods fs w = .ok w' → R w w'
  | [], w, _, _, h => by cases h; exact hR.refl w
  | f :: fs, _, _, hs, h => by
    obtain ⟨hf, hfs⟩ := SitesIn.append.1 hs
    obtain ⟨_, h₁, h₂⟩ := Except.bind_eq_ok.1 h
    exact hR.trans (hR.of_within (hR.of_inFunction fun h => f.resolve_closed hf h) h₁)
      (Function.resolveMethods_closed hfs h₂)

theorem Stmt.resolve_closed : ∀ {s : Stmt} {w w' : Walk}, SitesIn S s.references →
    s.resolve w = .ok w' → R w w'
  | .expression e, _, _, hs, h => e.resolve_closed hs h
  | .print e, _, _, hs, h => e.resolve_closed hs h
  | .let _ _, _, _, hs, h => hR.of_declare (fun h => Expr.resolveOpt_closed hs h) h
  | .block _, _, _, hs, h => hR.of_within (fun h => Stmt.resolveAll_closed hs h) h
  | .if condition yes _, _, _, hs, h => by
    obtain ⟨hs, hn⟩ := SitesIn.append.1 hs
    obtain ⟨hc, hy⟩ := SitesIn.append.1 hs
    obtain ⟨_, h₁, h⟩ := Except.bind_eq_ok.1 h
    obtain ⟨_, h₂, h₃⟩ := Except.bind_eq_ok.1 h
    exact hR.trans (condition.resolve_closed hc h₁)
      (hR.trans (yes.resolve_closed hy h₂) (Stmt.resolveOpt_closed hn h₃))
  | .while condition body, _, _, hs, h => by
    obtain ⟨hc, hb⟩ := SitesIn.append.1 hs
    obtain ⟨_, h₁, h₂⟩ := Except.bind_eq_ok.1 h
    exact hR.trans (condition.resolve_closed hc h₁)
      (hR.of_inLoop (fun h => body.resolve_closed hb h) h₂)
  | .for _ _ _ _ body, _, _, hs, h => by
    obtain ⟨hs, hb⟩ := SitesIn.append.1 hs
    obtain ⟨hs, ht⟩ := SitesIn.append.1 hs
    obtain ⟨hv, hc⟩ := SitesIn.append.1 hs
    refine hR.of_within (fun h => ?_) h
    obtain ⟨_, h₁, h⟩ := Except.bind_eq_ok.1 h
    obtain ⟨_, h₂, h⟩ := Except.bind_eq_ok.1 h
    obtain ⟨_, h₃, h₄⟩ := Except.bind_eq_ok.1 h
    have before := hR.of_declare (fun h => Expr.resolveOpt_closed hv h) h₁
    have after := hR.of_inLoop (fun h => body.resolve_closed hb h) h₄
    exact hR.trans before (hR.trans (Expr.resolveOpt_closed hc h₂)
      (hR.trans (Expr.resolveOpt_closed ht h₃) after))
  | .break _, w, _, _, h => by obtain ⟨-, rfl⟩ := Walk.require_eq_ok.1 h; exact hR.refl _
  | .continue _, w, _, _, h => by obtain ⟨-, rfl⟩ := Walk.require_eq_ok.1 h; exact hR.refl _
  | .return _ _, _, _, hs, h => by
    obtain ⟨_, h₁, h₂⟩ := Except.bind_eq_ok.1 h
    obtain ⟨-, rfl⟩ := Walk.require_eq_ok.1 h₁
    exact Expr.resolveOpt_closed hs h₂
  | .struct name methods, w, _, hs, h =>
    hR.trans (hR.bind w name.text)
      (hR.of_inMethods (fun h => Function.resolveMethods_closed hs h) h)

theorem Stmt.resolveOpt_closed : ∀ {s : Option Stmt} {w w' : Walk},
    SitesIn S (Stmt.referencesOpt s) → Stmt.resolveOpt s w = .ok w' → R w w'
  | none, w, _, _, h => by cases h; exact hR.refl w
  | some s, _, _, hs, h => s.resolve_closed hs h

theorem Stmt.resolveAll_closed : ∀ {ss : List Stmt} {w w' : Walk},
    SitesIn S (Stmt.referencesAll ss) → Stmt.resolveAll ss w = .ok w' → R w w'
  | [], w, _, _, h => by cases h; exact hR.refl w
  | s :: ss, _, _, hs, h => by
    obtain ⟨hs, hss⟩ := SitesIn.append.1 hs
    obtain ⟨_, h₁, h₂⟩ := Except.bind_eq_ok.1 h
    exact hR.trans (s.resolve_closed hs h₁) (Stmt.resolveAll_closed hss h₂)

end

/-- **What each step of a walk respects, the walk over a part respects.** -/
theorem Part.resolve_closed {p : Part} {w w' : Walk} (hs : ∀ s ∈ p.sites, S s)
    (h : p.resolve w = .ok w') : R w w' := by
  have hr : SitesIn S p.references := fun r hr => hs r.site (by
    cases p with
    | reference => cases hr
    | _ => exact List.mem_map_of_mem hr)
  cases p with
  | expr e => exact e.resolve_closed hR hr h
  | exprs es => exact Expr.resolveAll_closed hR hr h
  | optional e => exact Expr.resolveOpt_closed hR hr h
  | reference site name => exact hR.refer (hs site List.mem_cons_self) h
  | function f => exact f.resolve_closed hR hr h
  | method f => exact hR.of_within (hR.of_inFunction fun h => f.resolve_closed hR hr h) h
  | methods fs => exact Function.resolveMethods_closed hR hr h
  | stmt s => exact s.resolve_closed hR hr h
  | alternative s => exact Stmt.resolveOpt_closed hR hr h
  | stmts ss => exact Stmt.resolveAll_closed hR hr h
  | rounds body => exact hR.of_inLoop (fun h => body.resolve_closed hR hr h) h
  | clauses name value condition step body =>
    -- a `for` walks over its clauses in a scope of its own
    obtain ⟨hr, hb⟩ := SitesIn.append.1 hr
    obtain ⟨hr, ht⟩ := SitesIn.append.1 hr
    obtain ⟨hv, hc⟩ := SitesIn.append.1 hr
    obtain ⟨_, h₁, h⟩ := Except.bind_eq_ok.1 h
    obtain ⟨_, h₂, h⟩ := Except.bind_eq_ok.1 h
    obtain ⟨_, h₃, h₄⟩ := Except.bind_eq_ok.1 h
    have before := hR.of_declare (fun h => Expr.resolveOpt_closed hR hv h) h₁
    have after := hR.of_inLoop (fun h => body.resolve_closed hR hb h) h₄
    exact hR.trans before (hR.trans (Expr.resolveOpt_closed hR hc h₂)
      (hR.trans (Expr.resolveOpt_closed hR ht h₃) after))

end

end Scriptling
