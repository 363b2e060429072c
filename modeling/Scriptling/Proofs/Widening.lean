/-
  Widening — walks that know more globals.

  What the globals are matters to a walk only where a variable is read in its own first value.

  * `Walk.Wider`: a walk in the same place as another, with more globals;
  * `Part.resolve_widens`: with more globals a part is still accepted, and the same distances
    are recorded;
  * `Part.resolve_announces`: outside of all scopes, what a part declares is global after it;
  * `resolve_append`: so a program can be walked over in two steps.
-/
import Scriptling.Proofs.Bracketing
import Scriptling.Proofs.Nesting

namespace Scriptling

/-! ## More globals -/

/-- A walk is in the same place as another one, with more globals; before, the two have recorded
    the given distances. -/
structure Walk.Wider (a b : List (Nat × Nat)) (w v : Walk) : Prop where
  scopes : v.scopes = w.scopes
  globals : w.globals ⊆ v.globals
  pending : v.pending = w.pending
  function : v.function = w.function
  inStruct : v.inStruct = w.inStruct
  loops : v.loops = w.loops
  distances : ∃ new, w.distances = new ++ a ∧ v.distances = new ++ b

/-- **A step that a walk can take, a walk that knows more globals can take as well.** -/
def Walk.Widens (f : Walk → Except Error Walk) : Prop :=
  ∀ ⦃a b : List (Nat × Nat)⦄ ⦃w v w' : Walk⦄, w.Wider a b v → f w = .ok w' →
    ∃ v', f v = .ok v' ∧ w'.Wider a b v'

namespace Walk

variable {a b : List (Nat × Nat)} {w v : Walk}

theorem Wider.mark (h : w.Wider a b v) (x : String) (ready : Bool) :
    (w.mark x ready).Wider a b (v.mark x ready) := by
  unfold Walk.mark
  rw [h.scopes]
  split
  · exact h
  · exact { h with scopes := rfl }

theorem Wider.bind (h : w.Wider a b v) (x : String) : (w.bind x).Wider a b (v.bind x) := by
  have he : v.scopes.isEmpty = w.scopes.isEmpty := by rw [h.scopes]
  unfold Walk.bind
  rw [he]
  split
  · exact { h with globals := List.cons_subset_cons x h.globals }
  · exact h.mark x true

theorem Widens.same : Widens .ok := fun _ _ _ v _ h hw => by
  cases hw
  exact ⟨v, rfl, h⟩

theorem Widens.bind {f g : Walk → Except Error Walk} (hf : Widens f) (hg : Widens g) :
    Widens fun w => f w >>= g := by
  intro a b w v w' h hw
  obtain ⟨w₁, h₁, h₂⟩ := Except.bind_eq_ok.1 hw
  obtain ⟨v₁, hv₁, h⟩ := hf h h₁
  obtain ⟨v', hv', h⟩ := hg h h₂
  exact ⟨v', Except.bind_eq_ok.2 ⟨v₁, hv₁, hv'⟩, h⟩

theorem Widens.require {c : Walk → Bool} {line : Nat} {fault : ScopeFault}
    (hc : ∀ {a b w v}, Wider a b w v → c v = c w) : Widens fun w => w.require (c w) line fault := by
  intro a b w v w' h hw
  obtain ⟨hw, rfl⟩ := require_eq_ok.1 hw
  exact ⟨v, require_eq_ok.2 ⟨(hc h).trans hw, rfl⟩, h⟩

theorem Widens.refer (site : Nat) (name : Name) : Widens fun w => w.refer site name := by
  intro a b w v w' h hw
  have hp : v.isPending name.text = w.isPending name.text := by unfold isPending; rw [h.scopes]
  have hd : v.distance? name.text = w.distance? name.text := by
    unfold distance?
    rw [hp, h.scopes]
  have ho : v.isOwnInitializer name.text = w.isOwnInitializer name.text := by
    unfold isOwnInitializer
    rw [hp, h.scopes, h.pending]
  unfold Walk.refer at hw ⊢
  dsimp only at hw ⊢
  rw [hd, ho]
  split at hw
  · next d _ =>
    cases hw
    obtain ⟨new, hw, hv⟩ := h.distances
    exact ⟨_, rfl, { h with distances := ⟨(site, d) :: new, by rw [hw]; rfl, by rw [hv]; rfl⟩ }⟩
  · split at hw
    · cases hw
    · next hn =>
      cases hw
      refine ⟨v, if_neg fun hv => hn ?_, h⟩
      -- a name that is no global of the wider walk is none of the other
      simp only [Bool.and_eq_true, Bool.not_eq_true', List.contains_eq_mem,
        decide_eq_false_iff_not] at hv ⊢
      exact ⟨hv.1, fun hg => hv.2 (h.globals hg)⟩

theorem Widens.within {s : Scope} {inside : Walk → Except Error Walk} (hi : Widens inside) :
    Widens fun w => w.within s inside := by
  intro a b w v w' h hw
  obtain ⟨after, ha, hw⟩ := Except.bind_eq_ok.1 hw
  cases hw
  have inner : Wider a b { w with scopes := s :: w.scopes } { v with scopes := s :: v.scopes } :=
    { h with scopes := congrArg (s :: ·) h.scopes }
  obtain ⟨v', hv, h'⟩ := hi inner ha
  exact ⟨_, Except.bind_eq_ok.2 ⟨v', hv, rfl⟩, { h' with scopes := congrArg List.tail h'.scopes }⟩

theorem Widens.declare {x : String} {value : Walk → Except Error Walk} (hi : Widens value) :
    Widens fun w => w.declare x value := by
  intro a b w v w' h hw
  have he : v.scopes.isEmpty = w.scopes.isEmpty := by rw [h.scopes]
  unfold Walk.declare at hw ⊢
  dsimp only at hw ⊢
  rw [he]
  split at hw
  · next he =>
    rw [if_pos he]
    obtain ⟨after, ha, hw⟩ := Except.bind_eq_ok.1 hw
    cases hw
    have inner : Wider a b { w with pending := some x } { v with pending := some x } :=
      { h with pending := rfl }
    obtain ⟨v', hv, h'⟩ := hi inner ha
    exact ⟨_, Except.bind_eq_ok.2 ⟨v', hv, rfl⟩,
      { h' with globals := List.cons_subset_cons x h'.globals, pending := rfl }⟩
  · next he =>
    rw [if_neg he]
    obtain ⟨after, ha, hw⟩ := Except.bind_eq_ok.1 hw
    cases hw
    obtain ⟨v', hv, h'⟩ := hi (h.mark x false) ha
    exact ⟨_, Except.bind_eq_ok.2 ⟨v', hv, rfl⟩, h'.mark x true⟩

theorem Widens.inLoop {body : Walk → Except Error Walk} (hi : Widens body) :
    Widens fun w => w.inLoop body := by
  intro a b w v w' h hw
  obtain ⟨after, ha, hw⟩ := Except.bind_eq_ok.1 hw
  cases hw
  have inner : Wider a b { w with loops := w.loops + 1 } { v with loops := v.loops + 1 } :=
    { h with loops := congrArg (· + 1) h.loops }
  obtain ⟨v', hv, h'⟩ := hi inner ha
  exact ⟨_, Except.bind_eq_ok.2 ⟨v', hv, rfl⟩, { h' with loops := congrArg (· - 1) h'.loops }⟩

theorem Widens.inFunction {kind : FunctionKind} {function : Walk → Except Error Walk}
    (hi : Widens function) : Widens fun w => w.inFunction kind function := by
  intro a b w v w' h hw
  obtain ⟨after, ha, hw⟩ := Except.bind_eq_ok.1 hw
  cases hw
  have inner : Wider a b { w with function := kind } { v with function := kind } :=
    { h with function := rfl }
  obtain ⟨v', hv, h'⟩ := hi inner ha
  exact ⟨_, Except.bind_eq_ok.2 ⟨v', hv, rfl⟩, { h' with function := h.function }⟩

theorem Widens.inBody {params : List Name} {body : Walk → Except Error Walk} (hi : Widens body) :
    Widens fun w => w.inBody params body := by
  intro a b w v w' h hw
  obtain ⟨after, ha, hw⟩ := Except.bind_eq_ok.1 hw
  cases hw
  have inner : Wider a b { w with loops := 0 } { v with loops := 0 } := { h with loops := rfl }
  obtain ⟨v', hv, h'⟩ := hi.within inner ha
  exact ⟨_, Except.bind_eq_ok.2 ⟨v', hv, rfl⟩, { h' with loops := h.loops }⟩

theorem Widens.inMethods {methods : Walk → Except Error Walk} (hi : Widens methods) :
    Widens fun w => w.inMethods methods := by
  intro a b w v w' h hw
  obtain ⟨after, ha, hw⟩ := Except.bind_eq_ok.1 hw
  cases hw
  have inner : Wider a b { w with inStruct := true } { v with inStruct := true } :=
    { h with inStruct := rfl }
  obtain ⟨v', hv, h'⟩ := hi inner ha
  exact ⟨_, Except.bind_eq_ok.2 ⟨v', hv, rfl⟩, { h' with inStruct := h.inStruct }⟩

end Walk

open Walk (Widens)

mutual

theorem Expr.resolve_widens : ∀ e : Expr, Widens e.resolve
  | .literal _ => .same
  | .group e | .unary _ _ e | .get e _ => e.resolve_widens
  | .binary _ _ l r | .logical _ l r => l.resolve_widens.bind r.resolve_widens
  | .ternary c y n => c.resolve_widens.bind (y.resolve_widens.bind n.resolve_widens)
  | .variable site name => .refer site name
  | .assign site name value => value.resolve_widens.bind (.refer site name)
  | .call callee _ arguments => callee.resolve_widens.bind (Expr.resolveAll_widens arguments)
  | .set object _ value => value.resolve_widens.bind object.resolve_widens
  | .this site _ => Widens.bind (.require fun h => h.inStruct) (.refer site _)
  | .function f => by
    intro a b w v w' h hw
    unfold Expr.resolve at hw ⊢
    cases hn : f.name with
    | none => rw [hn] at hw; exact f.resolve_widens.inFunction h hw
    | some name => rw [hn] at hw; exact f.resolve_widens.inFunction (h.bind name.text) hw

theorem Expr.resolveAll_widens : ∀ es : List Expr, Widens (Expr.resolveAll es)
  | [] => .same
  | e :: es => e.resolve_widens.bind (Expr.resolveAll_widens es)

theorem Expr.resolveOpt_widens : ∀ e : Option Expr, Widens (Expr.resolveOpt e)
  | none => .same
  | some e => e.resolve_widens

theorem Function.resolve_widens : ∀ f : Function, Widens f.resolve
  | .mk _ _ body _ => .inBody (Stmt.resolveAll_widens body)

theorem Function.resolveMethods_widens : ∀ fs : List Function, Widens (Function.resolveMethods fs)
  | [] => .same
  | f :: fs => f.resolve_widens.inFunction.within.bind (Function.resolveMethods_widens fs)

theorem Stmt.resolve_widens : ∀ s : Stmt, Widens s.resolve
  | .expression e | .print e => e.resolve_widens
  | .let _ value => .declare (Expr.resolveOpt_widens value)
  | .block body => .within (Stmt.resolveAll_widens body)
  | .if c y n => c.resolve_widens.bind (y.resolve_widens.bind (Stmt.resolveOpt_widens n))
  | .while c body => c.resolve_widens.bind (.inLoop body.resolve_widens)
  | .for _ value c step body =>
    .within ((Widens.declare (Expr.resolveOpt_widens value)).bind ((Expr.resolveOpt_widens c).bind
      ((Expr.resolveOpt_widens step).bind (.inLoop body.resolve_widens))))
  | .break _ | .continue _ => .require fun h => by rw [h.loops]
  | .return _ value => Widens.bind (.require fun h => by rw [h.function]) (Expr.resolveOpt_widens value)
  | .struct name methods => fun _ _ _ _ _ h hw =>
    Widens.inMethods (Function.resolveMethods_widens methods) (h.bind name.text) hw

theorem Stmt.resolveOpt_widens : ∀ s : Option Stmt, Widens (Stmt.resolveOpt s)
  | none => .same
  | some s => s.resolve_widens

theorem Stmt.resolveAll_widens : ∀ ss : List Stmt, Widens (Stmt.resolveAll ss)
  | [] => .same
  | s :: ss => s.resolve_widens.bind (Stmt.resolveAll_widens ss)

end

/-- **With more globals a part is still accepted, and the same distances are recorded.** -/
theorem Part.resolve_widens (p : Part) : Widens p.resolve := by
  cases p with
  | expr e => exact e.resolve_widens
  | exprs es => exact Expr.resolveAll_widens es
  | optional e => exact Expr.resolveOpt_widens e
  | reference site name => exact .refer site name
  | function f => exact f.resolve_widens
  | method f => exact f.resolve_widens.inFunction.within
  | methods fs => exact Function.resolveMethods_widens fs
  | stmt s => exact s.resolve_widens
  | alternative s => exact Stmt.resolveOpt_widens s
  | stmts ss => exact Stmt.resolveAll_widens ss
  | rounds body => exact .inLoop body.resolve_widens
  | clauses _ value c step body =>
    exact (Widens.declare (Expr.resolveOpt_widens value)).bind ((Expr.resolveOpt_widens c).bind
      ((Expr.resolveOpt_widens step).bind (.inLoop body.resolve_widens)))

/-! ## Outside of all scopes -/

namespace Walk

variable {w : Walk} (hw : w.scopes = [])
include hw

theorem bind_global (x : String) : w.bind x = { w with globals := x :: w.globals } := by
  unfold bind
  rw [hw]
  rfl

theorem declare_global {w' : Walk} {x : String} {value : Walk → Except Error Walk}
    (h : w.declare x value = .ok w') : ∃ after, value { w with pending := some x } = .ok after ∧
      w'.globals = x :: after.globals := by
  unfold declare at h
  rw [if_pos (List.isEmpty_iff.2 hw)] at h
  obtain ⟨after, ha, h⟩ := Except.bind_eq_ok.1 h
  cases h
  exact ⟨after, ha, rfl⟩

end Walk

namespace Part

/-- What a part declares in the scope around it is declared by its pieces. -/
theorem exists_declares_piece {p : Part} (hp : p.pieces ≠ []) {x : String} (hx : x ∈ p.declares) :
    ∃ q ∈ p.pieces, x ∈ q.1.declares := by
  cases p with
  | expr e => cases e <;> simp_all [pieces, declares, Expr.declares, or_comm]
  | exprs es => cases es <;> simp_all [pieces, declares, Expr.declaresAll]
  | optional e => cases e <;> simp_all [pieces, declares, Expr.declaresOpt]
  | stmt s => cases s <;> simp_all [pieces, declares, Stmt.declares, Expr.declaresOpt]
  | alternative s => cases s <;> simp_all [pieces, declares, Stmt.declaresOpt]
  | stmts ss => cases ss <;> simp_all [pieces, declares, Stmt.declaresAll]
  | clauses => simp_all [pieces, declares, declaresInLoop, Stmt.declares, or_assoc]
  | rounds => exact absurd rfl hp
  | reference | function | method | methods => cases hx

/-- **Outside of all scopes, what a part declares is global after it.** -/
theorem resolve_announces (p : Part) : ∀ {w w' : Walk}, w.scopes = [] → p.resolve w = .ok w' →
    p.declares ⊆ w'.globals := by
  induction p using wellFounded_inside.induction with
  | _ p ih =>
  intro w w' hw h
  by_cases hp : p.pieces = []
  · cases p with
    | reference | function | method | methods => exact List.nil_subset _
    | expr e =>
      cases e with
      | literal => exact List.nil_subset _
      | function f =>
        simp only [resolve, Expr.resolve] at h
        simp only [declares, Expr.declares]
        cases hn : f.name with
        | none => simp
        | some name =>
          rw [hn] at h
          dsimp only at h
          rw [Walk.bind_global hw] at h
          simpa using (Function.grows_called h).globals List.mem_cons_self
      | _ => exact absurd hp (List.cons_ne_nil _ _)
    | exprs es => cases es <;> simp_all [pieces, declares, Expr.declaresAll]
    | optional e => cases e <;> simp_all [pieces, declares, Expr.declaresOpt]
    | stmt s =>
      cases s with
      | «let» name value =>
        obtain ⟨after, ha, hg⟩ := Walk.declare_global hw h
        rw [hg]
        have inner := ih (.optional value) .value (w := { w with pending := some name.text }) hw ha
        exact List.cons_subset_cons _ inner
      | struct name methods =>
        obtain ⟨after, ha, h⟩ := Except.bind_eq_ok.1 h
        cases h
        rw [Walk.bind_global hw] at ha
        simpa [declares, Stmt.declares] using
          (resolve_grows (p := .methods methods) ha).globals List.mem_cons_self
      | block | «for» | «break» | «continue» => exact List.nil_subset _
      | _ => exact absurd hp (List.cons_ne_nil _ _)
    | alternative s => cases s <;> simp_all [pieces, declares, Stmt.declaresOpt]
    | stmts ss => cases ss <;> simp_all [pieces, declares, Stmt.declaresAll]
    | rounds body =>
      obtain ⟨after, ha, h⟩ := Except.bind_eq_ok.1 h
      cases h
      have inner : body.declares ⊆ after.globals :=
        ih (.stmt body) .round (w := { w with loops := w.loops + 1 }) hw ha
      exact inner
    | clauses => exact absurd hp (List.cons_ne_nil _ _)
  · have each : ∀ {ps : List Part} {v : Walk}, (∀ q ∈ ps, q.Inside p) → v.scopes = [] →
        resolveEach ps v = .ok w' → ∀ q ∈ ps, q.declares ⊆ w'.globals := by
      intro ps
      induction ps with
      | nil => exact fun _ _ _ => List.forall_mem_nil _
      | cons q ps ihps =>
        intro v hin hv h
        obtain ⟨hq, hps⟩ := List.forall_mem_cons.1 hin
        obtain ⟨v₁, h₁, h₂⟩ := Except.bind_eq_ok.1 h
        have hv₁ : v₁.scopes = [] := ScopesGrow.nil_iff.1 (hv ▸ (resolve_grows h₁).scopes)
        refine List.forall_mem_cons.2 ⟨?_, ihps hps hv₁ h₂⟩
        exact List.Subset.trans (ih q hq hv h₁) (resolveEach_grows h₂).globals
    intro x hx
    obtain ⟨q, hq, hx⟩ := exists_declares_piece hp hx
    refine each (fun q hq => ?_) hw (resolveEach_pieces hp h) q.1 (List.mem_map_of_mem hq) hx
    obtain ⟨r, hr, rfl⟩ := List.mem_map.1 hq
    exact .piece hr

end Part

/-! ## Programs in two steps -/

theorem Stmt.resolveAll_append {ss ts : List Stmt} {w w₁ w₂ : Walk}
    (h₁ : Stmt.resolveAll ss w = .ok w₁) (h₂ : Stmt.resolveAll ts w₁ = .ok w₂) :
    Stmt.resolveAll (ss ++ ts) w = .ok w₂ := by
  induction ss generalizing w with
  | nil => cases h₁; exact h₂
  | cons s ss ih =>
    obtain ⟨v, hs, hss⟩ := Except.bind_eq_ok.1 h₁
    exact Except.bind_eq_ok.2 ⟨v, hs, ih hss⟩

/-- Between statements no global has its first value computed. -/
theorem Walk.closed_pending :
    Walk.Closed (fun _ => True) fun w w' => w.pending = none → w'.pending = none where
  refl _ h := h
  trans h h' hw := h' (h hw)
  refer _ h hw := by rw [Walk.refer_eq_ok h]; exact hw
  bind w x h := by
    unfold Walk.bind Walk.mark
    split
    · exact h
    · split <;> exact h
  within h := h
  first _ _ _ := rfl
  declare {w after x} _ h hw := by
    have hmark : (w.mark x false).pending = none := by unfold Walk.mark; split <;> exact hw
    unfold Walk.mark
    split <;> exact h hmark
  inLoop h := h
  inFunction h := h
  inBody h := h
  inMethods h := h

/-- **A program can be walked over in two steps**, the second of which knows no globals but those
    of before and those that the first has declared. -/
theorem resolve_append {g g₁ : List String} {P Q : List Stmt} {ds ds₁ : List (Nat × Nat)}
    (hP : resolve g P = .ok ds) (hQ : resolve g₁ Q = .ok ds₁)
    (hg : ∀ x ∈ g₁, x ∈ g ∨ x ∈ Stmt.declaresAll P) : resolve g (P ++ Q) = .ok (ds₁ ++ ds) := by
  obtain ⟨w, hw, h⟩ := Except.bind_eq_ok.1 hP
  cases h
  obtain ⟨w₁, hw₁, h⟩ := Except.bind_eq_ok.1 hQ
  cases h
  have grown := Part.resolve_grows (p := .stmts P) hw
  have known := Part.resolve_announces (.stmts P) rfl hw
  have pending := Part.resolve_closed (p := .stmts P) Walk.closed_pending (fun _ _ => trivial) hw
  have wider : Walk.Wider [] w.distances { globals := g₁ } w :=
    { scopes := ScopesGrow.nil_iff.1 grown.scopes
      globals := fun x hx => (hg x hx).elim (fun h => grown.globals h) (fun h => known h)
      pending := pending rfl
      function := grown.function
      inStruct := grown.inStruct
      loops := grown.loops
      distances := ⟨[], rfl, rfl⟩ }
  obtain ⟨w₂, hw₂, h⟩ := Part.resolve_widens (.stmts Q) wider hw₁
  obtain ⟨new, hnew, hnew₂⟩ := h.distances
  refine Except.bind_eq_ok.2 ⟨w₂, Stmt.resolveAll_append hw hw₂, ?_⟩
  rw [hnew₂, hnew, List.append_nil]
  rfl

end Scriptling
