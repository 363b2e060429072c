/-
  Bracketing — what a walk over a part of a program leaves behind.

  * `Part.resolve_grows`: of the open scopes only the innermost one changes, which gains
    names; what is known about the functions, structs and loops around is as before;
  * `Part.resolve_records`: distances are recorded for the sites of the part, and none is lost;
  * `Part.resolve_settles`: the names that the innermost scope gains are those that are declared
    in it, and all of them have their values then.
-/
import Scriptling.Proofs.Parts

namespace Scriptling

theorem Bindings.contains_set {α : Type} (b : Bindings α) (x y : String) (v : α) :
    (b.set x v).contains y = true ↔ y = x ∨ b.contains y = true := by
  unfold Bindings.contains
  rw [Bindings.get?_set]
  by_cases h : y = x <;> simp [h]

@[simp] theorem Bindings.contains_empty {α : Type} (x : String) :
    (Bindings.empty : Bindings α).contains x = false := by
  simp [Bindings.contains]

/-! ## Scopes only gain names -/

/-- Every name of a scope is one of another scope. -/
def Scope.Within (s t : Scope) : Prop := ∀ x, s.contains x = true → t.contains x = true

theorem Scope.Within.refl (s : Scope) : s.Within s := fun _ h => h

theorem Scope.Within.trans {s t u : Scope} (h : s.Within t) (h' : t.Within u) : s.Within u :=
  fun x hx => h' x (h x hx)

theorem Scope.within_set (s : Scope) (x : String) (ready : Bool) : Scope.Within s (s.set x ready) :=
  fun _ h => (Bindings.contains_set ..).2 (Or.inr h)

/-- The open scopes before and after a walk over a part. -/
inductive ScopesGrow : List Scope → List Scope → Prop
  | none : ScopesGrow [] []
  | inner {s t rest} : Scope.Within s t → ScopesGrow (s :: rest) (t :: rest)

namespace ScopesGrow

theorem refl : ∀ ss : List Scope, ScopesGrow ss ss
  | [] => none
  | s :: _ => inner (Scope.Within.refl s)

theorem trans {ss ts us : List Scope} (h : ScopesGrow ss ts) (h' : ScopesGrow ts us) :
    ScopesGrow ss us := by
  cases h with
  | none => exact h'
  | inner hst => cases h' with | inner htu => exact inner (hst.trans htu)

theorem ne_nil {ss ts : List Scope} (h : ScopesGrow ss ts) (hs : ss ≠ []) : ts ≠ [] := by
  cases h with
  | none => exact hs
  | inner => exact List.cons_ne_nil _ _

theorem cons_iff {s : Scope} {ss us : List Scope} :
    ScopesGrow (s :: ss) us ↔ ∃ t, Scope.Within s t ∧ us = t :: ss := by
  constructor
  · rintro (_ | h); exact ⟨_, h, rfl⟩
  · rintro ⟨t, h, rfl⟩; exact inner h

theorem nil_iff {us : List Scope} : ScopesGrow [] us ↔ us = [] := by
  constructor
  · rintro ⟨⟩; rfl
  · rintro rfl; exact none

end ScopesGrow

/-- What every walk over a part does to a walk. -/
structure Walk.Grows (w w' : Walk) : Prop where
  scopes : ScopesGrow w.scopes w'.scopes
  globals : w.globals ⊆ w'.globals
  function : w'.function = w.function
  inStruct : w'.inStruct = w.inStruct
  loops : w'.loops = w.loops

namespace Walk

theorem grows_of_scopes {w : Walk} {ss : List Scope} (h : ScopesGrow w.scopes ss) :
    w.Grows { w with scopes := ss } :=
  ⟨h, List.Subset.refl _, rfl, rfl, rfl⟩

theorem Grows.refl (w : Walk) : w.Grows w :=
  ⟨.refl _, List.Subset.refl _, rfl, rfl, rfl⟩

theorem Grows.trans {a b c : Walk} (h : a.Grows b) (h' : b.Grows c) : a.Grows c :=
  ⟨h.scopes.trans h'.scopes, List.Subset.trans h.globals h'.globals,
    h'.function.trans h.function, h'.inStruct.trans h.inStruct, h'.loops.trans h.loops⟩

theorem grows_mark (w : Walk) (x : String) (ready : Bool) : w.Grows (w.mark x ready) := by
  unfold mark
  split
  · exact .refl w
  · next s rest hs =>
    refine grows_of_scopes ?_
    rw [hs]
    exact .inner (s.within_set x ready)

/-- What a reference does to a walk. -/
theorem refer_eq_ok {w w' : Walk} {site : Nat} {name : Name} (h : w.refer site name = .ok w') :
    w' = { w with
      distances := ((w.distance? name.text).map (site, ·)).toList ++ w.distances } := by
  unfold refer at h
  split at h
  · next d hd => cases h; simp [hd]
  · next hd =>
    split at h
    · cases h
    · cases h; simp [hd]

theorem closed_grows : Closed (fun _ => True) Grows where
  refl := Grows.refl
  trans := Grows.trans
  refer _ h := by rw [refer_eq_ok h]; exact ⟨.refl _, List.Subset.refl _, rfl, rfl, rfl⟩
  bind w x := by
    unfold bind
    split
    · exact ⟨.refl _, List.subset_cons_self _ _, rfl, rfl, rfl⟩
    · exact w.grows_mark x true
  within h := by
    obtain ⟨t, -, ht⟩ := ScopesGrow.cons_iff.1 h.scopes
    exact ⟨by rw [ht]; exact .refl _, h.globals, h.function, h.inStruct, h.loops⟩
  first _ h := ⟨h.scopes, List.subset_cons_of_subset _ h.globals, h.function, h.inStruct, h.loops⟩
  declare {w after x} _ h := ((w.grows_mark x false).trans h).trans (after.grows_mark x true)
  inLoop h := ⟨h.scopes, h.globals, h.function, h.inStruct, Nat.sub_eq_of_eq_add h.loops⟩
  inFunction h := ⟨h.scopes, h.globals, rfl, h.inStruct, h.loops⟩
  inBody h := ⟨h.scopes, h.globals, h.function, h.inStruct, rfl⟩
  inMethods h := ⟨h.scopes, h.globals, h.function, rfl, h.loops⟩

end Walk

/-- **The walk is well bracketed.** -/
theorem Part.resolve_grows {p : Part} {w w' : Walk} (h : p.resolve w = .ok w') : w.Grows w' :=
  Part.resolve_closed Walk.closed_grows (fun _ _ => trivial) h

theorem Part.resolveEach_grows : ∀ {ps : List Part} {w w' : Walk},
    Part.resolveEach ps w = .ok w' → w.Grows w'
  | [], w, _, h => by cases h; exact .refl w
  | _ :: _, _, _, h => by
    obtain ⟨_, h₁, h₂⟩ := Except.bind_eq_ok.1 h
    exact (Part.resolve_grows h₁).trans (Part.resolveEach_grows h₂)

/-! ## Distances are only added -/

/-- The distances recorded by a walk, all of them for the given sites. -/
def Walk.Records (S : Nat → Prop) (w w' : Walk) : Prop :=
  ∃ new, w'.distances = new ++ w.distances ∧ ∀ e ∈ new, S e.1

namespace Walk

theorem Records.refl {S : Nat → Prop} (w : Walk) : w.Records S w :=
  ⟨[], rfl, List.forall_mem_nil _⟩

theorem Records.trans {S : Nat → Prop} {a b c : Walk} (h : a.Records S b) (h' : b.Records S c) :
    a.Records S c := by
  obtain ⟨new, e, hs⟩ := h
  obtain ⟨new', e', hs'⟩ := h'
  exact ⟨new' ++ new, by rw [e', e, List.append_assoc], List.forall_mem_append.2 ⟨hs', hs⟩⟩

theorem Records.imp {S T : Nat → Prop} {w w' : Walk} (h : w.Records S w')
    (hST : ∀ s, S s → T s) : w.Records T w' := by
  obtain ⟨new, e, hs⟩ := h
  exact ⟨new, e, fun r hr => hST _ (hs r hr)⟩

theorem distances_mark (w : Walk) (x : String) (ready : Bool) :
    (w.mark x ready).distances = w.distances := by
  unfold mark; split <;> rfl

theorem distances_bind (w : Walk) (x : String) : (w.bind x).distances = w.distances := by
  unfold bind; split
  · rfl
  · exact w.distances_mark x true

theorem closed_records (S : Nat → Prop) : Closed S (Records S) where
  refl := Records.refl
  trans := Records.trans
  refer {w w' site name} hs h := by
    rw [refer_eq_ok h]
    refine ⟨_, rfl, ?_⟩
    intro e he
    simp only [Option.mem_toList, Option.map_eq_some_iff] at he
    obtain ⟨d, -, rfl⟩ := he
    exact hs
  bind w x := ⟨[], by rw [distances_bind]; rfl, List.forall_mem_nil _⟩
  within h := h
  first _ h := h
  declare {w after x} _ h := by
    obtain ⟨new, e, hs⟩ := h
    exact ⟨new, by rw [distances_mark, e, distances_mark], hs⟩
  inLoop h := h
  inFunction h := h
  inBody h := h
  inMethods h := h

end Walk

/-- **A walk records distances of the sites that it comes to.** -/
theorem Part.resolve_records {p : Part} {w w' : Walk} (h : p.resolve w = .ok w') :
    w.Records (· ∈ p.sites) w' :=
  Part.resolve_closed (Walk.closed_records _) (fun _ hs => hs) h

theorem Part.resolveEach_records : ∀ {ps : List Part} {w w' : Walk},
    Part.resolveEach ps w = .ok w' → w.Records (· ∈ ps.flatMap Part.sites) w'
  | [], w, _, h => by cases h; exact .refl w
  | _ :: _, _, _, h => by
    obtain ⟨_, h₁, h₂⟩ := Except.bind_eq_ok.1 h
    exact ((Part.resolve_records h₁).imp fun _ hs => List.mem_append_left _ hs).trans
      ((Part.resolveEach_records h₂).imp fun _ hs => List.mem_append_right _ hs)

/-! ## The names that a scope gains -/

/-- The innermost scope knows a name. -/
def Walk.Knows (w : Walk) (x : String) : Prop := ∃ s ∈ w.scopes.head?, s.contains x = true

/-- Between two walks, the innermost scope has gained some names and no others. -/
def Walk.Gains (names : List String) (w w' : Walk) : Prop :=
  w.scopes ≠ [] → w'.scopes ≠ [] ∧ ∀ x, w'.Knows x ↔ w.Knows x ∨ x ∈ names

/-- Between two walks, some names have been declared in the innermost scope, and have got their
    values; with the other names it stands as before. -/
def Walk.Settles (names : List String) (w w' : Walk) : Prop :=
  ∀ s rest, w.scopes = s :: rest → ∃ t, w'.scopes = t :: rest ∧
    ∀ x, t.get? x = if x ∈ names then some true else s.get? x

namespace Walk

theorem Settles.gains {w w' : Walk} {names : List String} (h : w.Settles names w') :
    w.Gains names w' := by
  intro hw
  obtain ⟨s, rest, hs⟩ := List.exists_cons_of_ne_nil hw
  obtain ⟨t, ht, hx⟩ := h s rest hs
  refine ⟨by simp [ht], fun x => ?_⟩
  simp only [Knows, hs, ht, List.head?_cons, Option.mem_some_iff, exists_eq_left',
    Bindings.contains, hx]
  split <;> simp_all

theorem settles_of_scopes {w w' : Walk} (h : w'.scopes = w.scopes) : w.Settles [] w' :=
  fun s rest hs => ⟨s, h.trans hs, fun x => by simp⟩

theorem Settles.trans {a b c : Walk} {xs ys : List String} (h : a.Settles xs b)
    (h' : b.Settles ys c) : a.Settles (xs ++ ys) c := by
  intro s rest hs
  obtain ⟨t, ht, hx⟩ := h s rest hs
  obtain ⟨u, hu, hy⟩ := h' t rest ht
  refine ⟨u, hu, fun x => ?_⟩
  rw [hy, hx]
  by_cases hxs : x ∈ xs <;> simp [hxs]

theorem Settles.congr {w w' : Walk} {xs ys : List String} (h : w.Settles xs w')
    (e : ∀ x, x ∈ xs ↔ x ∈ ys) : w.Settles ys w' := by
  intro s rest hs
  obtain ⟨t, ht, hx⟩ := h s rest hs
  exact ⟨t, ht, fun x => by simp only [hx, e]⟩

theorem settles_mark (w : Walk) (x : String) : w.Settles [x] (w.mark x true) := by
  intro s rest hs
  unfold mark
  rw [hs]
  exact ⟨_, rfl, fun y => by simp [Bindings.get?_set]⟩

theorem settles_bind (w : Walk) (x : String) : w.Settles [x] (w.bind x) := by
  intro s rest hs
  unfold bind
  rw [if_neg (by simp [hs])]
  exact w.settles_mark x s rest hs

theorem scopes_within {w w' : Walk} {s : Scope} {inside : Walk → Except Error Walk}
    (hi : ∀ {a b}, inside a = .ok b → a.Grows b) (h : w.within s inside = .ok w') :
    w'.scopes = w.scopes := by
  obtain ⟨after, ha, h⟩ := Except.bind_eq_ok.1 h
  cases h
  obtain ⟨t, -, ht⟩ := ScopesGrow.cons_iff.1 (hi ha).scopes
  exact congrArg List.tail ht

theorem settles_declare {w w' : Walk} {x : String} {names : List String}
    {value : Walk → Except Error Walk} (hi : ∀ {a b}, value a = .ok b → a.Settles names b)
    (h : w.declare x value = .ok w') : w.Settles (x :: names) w' := by
  intro s rest hs
  unfold declare at h
  rw [if_neg (by simp [hs])] at h
  obtain ⟨after, ha, h⟩ := Except.bind_eq_ok.1 h
  cases h
  have begun : (w.mark x false).scopes = s.set x false :: rest := by
    unfold mark
    rw [hs]
  obtain ⟨t, ht, hy⟩ := hi ha _ rest begun
  obtain ⟨u, hu, hz⟩ := after.settles_mark x t rest ht
  refine ⟨u, hu, fun z => ?_⟩
  rw [hz, hy, Bindings.get?_set]
  by_cases hzx : z = x <;> simp [hzx]

end Walk

theorem Function.scopes_resolve {f : Function} {w w' : Walk} (h : f.resolve w = .ok w') :
    w'.scopes = w.scopes := by
  cases f with
  | mk title params body line =>
    obtain ⟨after, ha, h⟩ := Except.bind_eq_ok.1 h
    cases h
    have same := Walk.scopes_within (fun h => Part.resolve_grows (p := .stmts body) h) ha
    exact same

theorem Function.scopes_called {f : Function} {kind : FunctionKind} {w w' : Walk}
    (h : w.inFunction kind f.resolve = .ok w') : w'.scopes = w.scopes := by
  obtain ⟨after, ha, h⟩ := Except.bind_eq_ok.1 h
  cases h
  have same := scopes_resolve ha
  exact same

theorem Function.grows_called {f : Function} {kind : FunctionKind} {w w' : Walk}
    (h : w.inFunction kind f.resolve = .ok w') : w.Grows w' :=
  Walk.closed_grows.of_inFunction (fun h => Part.resolve_grows (p := .function f) h) h

theorem Function.scopes_resolveMethods : ∀ {fs : List Function} {w w' : Walk},
    Function.resolveMethods fs w = .ok w' → w'.scopes = w.scopes
  | [], _, _, h => by cases h; rfl
  | f :: _, _, _, h => by
    obtain ⟨_, h₁, h₂⟩ := Except.bind_eq_ok.1 h
    rw [scopes_resolveMethods h₂]
    exact Walk.scopes_within (fun h => Function.grows_called h) h₁

mutual

theorem Expr.resolve_settles : ∀ {e : Expr} {w w' : Walk}, e.resolve w = .ok w' →
    w.Settles e.declares w'
  | .literal _, _, _, h => by cases h; exact Walk.settles_of_scopes rfl
  | .group e, _, _, h => e.resolve_settles h
  | .unary _ _ e, _, _, h => e.resolve_settles h
  | .binary _ _ l r, _, _, h => by
    obtain ⟨_, h₁, h₂⟩ := Except.bind_eq_ok.1 h
    exact (l.resolve_settles h₁).trans (r.resolve_settles h₂)
  | .logical _ l r, _, _, h => by
    obtain ⟨_, h₁, h₂⟩ := Except.bind_eq_ok.1 h
    exact (l.resolve_settles h₁).trans (r.resolve_settles h₂)
  | .ternary c y n, _, _, h => by
    obtain ⟨_, h₁, h⟩ := Except.bind_eq_ok.1 h
    obtain ⟨_, h₂, h₃⟩ := Except.bind_eq_ok.1 h
    exact (c.resolve_settles h₁).trans ((y.resolve_settles h₂).trans (n.resolve_settles h₃))
  | .variable _ _, _, _, h => by rw [Walk.refer_eq_ok h]; exact Walk.settles_of_scopes rfl
  | .assign _ _ value, _, _, h => by
    obtain ⟨_, h₁, h₂⟩ := Except.bind_eq_ok.1 h
    rw [Walk.refer_eq_ok h₂]
    have settled := value.resolve_settles h₁
    exact settled
  | .call callee _ _, _, _, h => by
    obtain ⟨_, h₁, h₂⟩ := Except.bind_eq_ok.1 h
    exact (callee.resolve_settles h₁).trans (Expr.resolveAll_settles h₂)
  | .get object _, _, _, h => object.resolve_settles h
  | .set object _ value, _, _, h => by
    obtain ⟨_, h₁, h₂⟩ := Except.bind_eq_ok.1 h
    exact ((value.resolve_settles h₁).trans (object.resolve_settles h₂)).congr
      fun x => by simp [Expr.declares, or_comm]
  | .this _ _, _, _, h => by
    obtain ⟨_, h₁, h₂⟩ := Except.bind_eq_ok.1 h
    obtain ⟨-, rfl⟩ := Walk.require_eq_ok.1 h₁
    rw [Walk.refer_eq_ok h₂]
    exact Walk.settles_of_scopes rfl
  | .function f, w, _, h => by
    unfold Expr.resolve at h
    unfold Expr.declares
    cases hn : f.name with
    | none => rw [hn] at h; exact Walk.settles_of_scopes (Function.scopes_called h)
    | some name =>
      rw [hn] at h
      exact (w.settles_bind name.text).trans
        (Walk.settles_of_scopes (Function.scopes_called h))

theorem Expr.resolveAll_settles : ∀ {es : List Expr} {w w' : Walk},
    Expr.resolveAll es w = .ok w' → w.Settles (Expr.declaresAll es) w'
  | [], _, _, h => by cases h; exact Walk.settles_of_scopes rfl
  | e :: es, _, _, h => by
    obtain ⟨_, h₁, h₂⟩ := Except.bind_eq_ok.1 h
    exact (e.resolve_settles h₁).trans (Expr.resolveAll_settles h₂)

end

theorem Expr.resolveOpt_settles : ∀ {e : Option Expr} {w w' : Walk},
    Expr.resolveOpt e w = .ok w' → w.Settles (Expr.declaresOpt e) w'
  | none, _, _, h => by cases h; exact Walk.settles_of_scopes rfl
  | some e, _, _, h => e.resolve_settles h

theorem Walk.settles_inLoop {w w' : Walk} {names : List String} {body : Walk → Except Error Walk}
    (hi : ∀ {a b}, body a = .ok b → a.Settles names b) (h : w.inLoop body = .ok w') :
    w.Settles names w' := by
  obtain ⟨after, ha, h⟩ := Except.bind_eq_ok.1 h
  cases h
  have settled := hi ha
  exact settled

mutual

theorem Stmt.resolve_settles : ∀ {s : Stmt} {w w' : Walk}, s.resolve w = .ok w' →
    w.Settles s.declares w'
  | .expression e, _, _, h => e.resolve_settles h
  | .print e, _, _, h => e.resolve_settles h
  | .let _ _, _, _, h => Walk.settles_declare (fun h => Expr.resolveOpt_settles h) h
  | .block body, _, _, h =>
    Walk.settles_of_scopes
      (Walk.scopes_within (fun h => Part.resolve_grows (p := .stmts body) h) h)
  | .if condition yes _, _, _, h => by
    obtain ⟨_, h₁, h⟩ := Except.bind_eq_ok.1 h
    obtain ⟨_, h₂, h₃⟩ := Except.bind_eq_ok.1 h
    exact (condition.resolve_settles h₁).trans
      ((yes.resolve_settles h₂).trans (Stmt.resolveOpt_settles h₃))
  | .while condition body, _, _, h => by
    obtain ⟨_, h₁, h₂⟩ := Except.bind_eq_ok.1 h
    exact (condition.resolve_settles h₁).trans
      (Walk.settles_inLoop (fun h => body.resolve_settles h) h₂)
  | .for name value condition step body, _, _, h =>
    Walk.settles_of_scopes (Walk.scopes_within
      (fun h => Part.resolve_grows (p := .clauses name value condition step body) h) h)
  | .break _, w, _, h => by
    obtain ⟨-, rfl⟩ := Walk.require_eq_ok.1 h; exact Walk.settles_of_scopes rfl
  | .continue _, w, _, h => by
    obtain ⟨-, rfl⟩ := Walk.require_eq_ok.1 h; exact Walk.settles_of_scopes rfl
  | .return _ _, _, _, h => by
    obtain ⟨_, h₁, h₂⟩ := Except.bind_eq_ok.1 h
    obtain ⟨-, rfl⟩ := Walk.require_eq_ok.1 h₁
    exact Expr.resolveOpt_settles h₂
  | .struct name methods, w, _, h => by
    obtain ⟨after, ha, h⟩ := Except.bind_eq_ok.1 h
    cases h
    have same := Function.scopes_resolveMethods ha
    exact (w.settles_bind name.text).trans (Walk.settles_of_scopes same)

theorem Stmt.resolveOpt_settles : ∀ {s : Option Stmt} {w w' : Walk},
    Stmt.resolveOpt s w = .ok w' → w.Settles (Stmt.declaresOpt s) w'
  | none, _, _, h => by cases h; exact Walk.settles_of_scopes rfl
  | some s, _, _, h => s.resolve_settles h

end

theorem Stmt.resolveAll_settles : ∀ {ss : List Stmt} {w w' : Walk},
    Stmt.resolveAll ss w = .ok w' → w.Settles (Stmt.declaresAll ss) w'
  | [], _, _, h => by cases h; exact Walk.settles_of_scopes rfl
  | s :: _, _, _, h => by
    obtain ⟨_, h₁, h₂⟩ := Except.bind_eq_ok.1 h
    exact (s.resolve_settles h₁).trans (Stmt.resolveAll_settles h₂)

/-- **What a part declares in the scope around it is known there after the walk over it**, with
    its value; nothing else in the scope has changed. -/
theorem Part.resolve_settles {p : Part} {w w' : Walk} (h : p.resolve w = .ok w') :
    w.Settles p.declares w' := by
  cases p with
  | expr e => exact e.resolve_settles h
  | exprs es => exact Expr.resolveAll_settles h
  | optional e => exact Expr.resolveOpt_settles h
  | reference site name => rw [Walk.refer_eq_ok h]; exact Walk.settles_of_scopes rfl
  | function f => exact Walk.settles_of_scopes (Function.scopes_resolve h)
  | method f =>
    exact Walk.settles_of_scopes (Walk.scopes_within (fun h => Function.grows_called h) h)
  | methods fs => exact Walk.settles_of_scopes (Function.scopes_resolveMethods h)
  | stmt s => exact s.resolve_settles h
  | alternative s => exact Stmt.resolveOpt_settles h
  | stmts ss => exact Stmt.resolveAll_settles h
  | rounds body => exact Walk.settles_inLoop (fun h => body.resolve_settles h) h
  | clauses name value condition step body =>
    obtain ⟨_, h₁, h⟩ := Except.bind_eq_ok.1 h
    obtain ⟨_, h₂, h⟩ := Except.bind_eq_ok.1 h
    obtain ⟨_, h₃, h₄⟩ := Except.bind_eq_ok.1 h
    have named := Walk.settles_declare (fun h => Expr.resolveOpt_settles h) h₁
    have rounds := Walk.settles_inLoop (fun h => body.resolve_settles h) h₄
    exact named.trans ((Expr.resolveOpt_settles h₂).trans
      ((Expr.resolveOpt_settles h₃).trans rounds))

theorem Part.resolveEach_settles : ∀ {ps : List Part} {w w' : Walk},
    Part.resolveEach ps w = .ok w' → w.Settles (ps.flatMap Part.declares) w'
  | [], _, _, h => by cases h; exact Walk.settles_of_scopes rfl
  | _ :: _, _, _, h => by
    obtain ⟨_, h₁, h₂⟩ := Except.bind_eq_ok.1 h
    exact (Part.resolve_settles h₁).trans (Part.resolveEach_settles h₂)

end Scriptling
