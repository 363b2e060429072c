/-
  Stops — where the walk over a rejected program stops.

  * `Part.check`, `Part.inner`: what a part demands before anything else, and what it opens a scope,
    a loop or a declaration for;
  * `Part.Stops`: the walk over a part stops at a part in it, past a number of references;
  * `Part.stops_exists`, `Part.Stops.resolve_eq`, `Part.Stops.unique`: the parts that are rejected
    are those over which the walk stops, and it stops in one place;
  * `acceptance_widens`: with more globals a walk stops in the same place, or later, where with fewer
    globals it has stopped at a variable in its own first value.
-/
import Scriptling.Proofs.Visits
import Scriptling.Proofs.Widening

namespace Scriptling

namespace Part

/-! ## What a walk over a part does -/

/-- What a part demands of the walk before anything else. -/
def check : Part → Walk → Except Error Walk
  | reference site name, w => w.refer site name
  | expr (.this _ line), w => w.require w.inStruct line .thisOutsideMethod
  | stmt (.break line), w => w.require (w.loops != 0) line .breakOutsideLoop
  | stmt (.continue line), w => w.require (w.loops != 0) line .continueOutsideLoop
  | stmt (.return line _), w => w.require (w.function != .none) line .returnOutsideFunction
  | _, w => .ok w

/-- What a part opens a scope, a loop or a declaration for, and how the walk enters it. -/
def inner : Part → Option (Part × (Walk → Walk))
  | expr (.function f) => some (function f, (·.enterLiteral f))
  | function (.mk _ params body _) => some (stmts body, (·.enterBody params))
  | method f => some (function f, Walk.enterMethod)
  | stmt (.let name value) => some (optional value, (·.await name.text))
  | stmt (.block body) => some (stmts body, (·.enter .empty))
  | stmt (.for name value condition step body) =>
    some (clauses name value condition step body, (·.enter .empty))
  | rounds body => some (stmt body, fun w => { w with loops := w.loops + 1 })
  | stmt (.struct name fs) => some (methods fs, fun w => { w.bind name.text with inStruct := true })
  | _ => none

theorem leave_eq_error {α β : Type} {x : Except Error α} {leave : α → β} {e : Error} :
    (x >>= fun after => Except.ok (leave after)) = .error e ↔ x = .error e := by
  cases x with
  | error => exact ⟨fun h => by cases h; rfl, fun h => by cases h; rfl⟩
  | ok => exact ⟨nofun, nofun⟩

section
variable {p q : Part} {enter : Walk → Walk} {w v : Walk}

theorem check_eq (hp : p.pieces ≠ []) (h : p.check w = .ok v) : v = w := by
  unfold check at h
  split at h
  · exact absurd rfl hp
  all_goals first
    | exact (Walk.require_eq_ok.1 h).2
    | cases h; rfl

theorem resolveEach_one (p : Part) : resolveEach [p] = p.resolve :=
  funext fun _ => resolveEach_singleton

theorem resolveEach_cons_cons (p q : Part) (ps : List Part) :
    resolveEach (p :: q :: ps) = fun w => p.resolve w >>= resolveEach (q :: ps) := rfl

/-- **The walk over a part with pieces**: what it demands, and the pieces one after the other. -/
theorem resolve_pieces (hp : p.pieces ≠ []) (w : Walk) :
    p.resolve w = p.check w >>= resolveEach (p.pieces.map Prod.fst) := by
  cases p with
  | reference | function | method | rounds => exact absurd rfl hp
  | expr e | exprs e | optional e | methods e | stmt e | alternative e | stmts e =>
    cases e <;> first
      | exact absurd rfl hp
      | simp only [pieces, List.map_cons, List.map_nil, resolveEach_one, resolveEach_cons_cons]
        rfl
  | clauses =>
    simp only [pieces, List.map_cons, List.map_nil, resolveEach_one, resolveEach_cons_cons]
    rfl

/-- **The walk over a part with something inside** is rejected where the walk over that is. -/
theorem resolve_inner (h : p.inner = some (q, enter)) (w : Walk) {e : Error} :
    p.resolve w = .error e ↔ q.resolve (enter w) = .error e := by
  unfold inner at h
  split at h <;> cases h
  · exact leave_eq_error
  · exact leave_eq_error.trans leave_eq_error
  · exact leave_eq_error.trans leave_eq_error
  · simp only [resolve, Stmt.resolve, Walk.declare, Walk.await]
    split
    · exact leave_eq_error
    · exact leave_eq_error
  · exact leave_eq_error
  · exact leave_eq_error
  · exact leave_eq_error
  · exact leave_eq_error

/-- The walk over a part with nothing in it. -/
theorem resolve_leaf (hp : p.pieces = []) (hi : p.inner = none) (w : Walk) :
    p.resolve w = p.check w := by
  cases p with
  | reference => rfl
  | function f => cases f; cases hi
  | method | rounds => cases hi
  | clauses => exact absurd hp (List.cons_ne_nil _ _)
  | expr e =>
    cases e with
    | literal => rfl
    | function => cases hi
    | _ => exact absurd hp (List.cons_ne_nil _ _)
  | stmt s =>
    cases s with
    | «let» | block | «for» | struct => cases hi
    | «break» | «continue» => rfl
    | _ => exact absurd hp (List.cons_ne_nil _ _)
  | exprs es | methods es | stmts es =>
    cases es with
    | nil => rfl
    | cons => exact absurd hp (List.cons_ne_nil _ _)
  | optional e | alternative e =>
    cases e with
    | none => rfl
    | some => exact absurd hp (List.cons_ne_nil _ _)

theorem inside_of_inner (h : p.inner = some (q, enter)) : q.Inside p := by
  unfold inner at h
  split at h <;> cases h
  exacts [.literal, .body, .receiver, .value, .block, .loop, .round, .methods]

theorem pieces_of_inner (h : p.inner = some (q, enter)) : p.pieces = [] := by
  unfold inner at h
  split at h <;> cases h <;> rfl

theorem check_of_inner (h : p.inner = some (q, enter)) (w : Walk) : p.check w = .ok w := by
  unfold inner at h
  split at h <;> cases h <;> rfl

theorem sites_of_inner (h : p.inner = some (q, enter)) : q.sites = p.sites := by
  unfold inner at h
  split at h <;> cases h <;> rfl

end

/-! ## Where a walk stops -/

/-- **The walk over a part stops at a part in it**, past a number of references, with an error. -/
inductive Stops : Part → Walk → Nat → Part → Error → Prop
  | here {p w e} : p.check w = .error e → Stops p w 0 p e
  | piece {p w w₁ n q e before r names after} : p.pieces = before ++ (r, names) :: after →
      p.check w = .ok w → resolveEach (before.map Prod.fst) w = .ok w₁ → Stops r w₁ n q e →
      Stops p w ((before.flatMap fun r => r.1.sites).length + n) q e
  | inside {p w n q e r enter} : p.inner = some (r, enter) → Stops r (enter w) n q e →
      Stops p w n q e

variable {p q r : Part} {enter : Walk → Walk} {w w₁ v : Walk} {n : Nat} {e : Error}

/-- One part after the other: a walk is rejected where it is rejected over one of them, past the
    others. -/
theorem resolveEach_eq_error {ps : List (Part × List String)} :
    resolveEach (ps.map Prod.fst) w = .error e ↔ ∃ before r names after w₁,
      ps = before ++ (r, names) :: after ∧ resolveEach (before.map Prod.fst) w = .ok w₁ ∧
        r.resolve w₁ = .error e := by
  constructor
  · intro h
    induction ps generalizing w with
    | nil => cases h
    | cons p ps ih =>
      rcases Except.bind_eq_error.1 h with h | ⟨w₁, h₁, h⟩
      · exact ⟨[], p.1, p.2, ps, w, rfl, rfl, h⟩
      · obtain ⟨before, r, names, after, w₂, rfl, hbefore, hr⟩ := ih h
        exact ⟨p :: before, r, names, after, w₂, rfl, Except.bind_eq_ok.2 ⟨w₁, h₁, hbefore⟩, hr⟩
  · rintro ⟨before, r, names, after, w₁, rfl, hbefore, hr⟩
    induction before generalizing w with
    | nil =>
      cases hbefore
      exact Except.bind_eq_error.2 (.inl hr)
    | cons p before ih =>
      obtain ⟨w₂, h₂, hbefore⟩ := Except.bind_eq_ok.1 hbefore
      exact Except.bind_eq_error.2 (.inr ⟨w₂, h₂, ih hbefore⟩)

/-- The piece at which a walk stops is the only one. -/
theorem eq_of_stop {before before' after after' : List (Part × List String)}
    {x x' : Part × List String} {w₁' : Walk} {e' : Error}
    (h : before ++ x :: after = before' ++ x' :: after')
    (hbefore : resolveEach (before.map Prod.fst) w = .ok w₁) (hx : x.1.resolve w₁ = .error e)
    (hbefore' : resolveEach (before'.map Prod.fst) w = .ok w₁')
    (hx' : x'.1.resolve w₁' = .error e') : before = before' ∧ x = x' := by
  induction before generalizing before' w with
  | nil =>
    cases hbefore
    cases before' with
    | nil => exact ⟨rfl, (List.cons.inj h).1⟩
    | cons y before' =>
      cases (List.cons.inj h).1
      cases hbefore'.symm.trans (Except.bind_eq_error.2 (.inl hx))
  | cons y before ih =>
    cases before' with
    | nil =>
      cases hbefore'
      cases (List.cons.inj h).1
      cases hbefore.symm.trans (Except.bind_eq_error.2 (.inl hx'))
    | cons y' before' =>
      obtain ⟨rfl, hrest⟩ := List.cons.inj h
      obtain ⟨w₂, h₂, hbefore⟩ := Except.bind_eq_ok.1 hbefore
      obtain ⟨w₂', h₂', hbefore'⟩ := Except.bind_eq_ok.1 hbefore'
      cases h₂.symm.trans h₂'
      obtain ⟨rfl, rfl⟩ := ih hrest hbefore hbefore'
      exact ⟨rfl, rfl⟩

theorem resolve_of_check (h : p.check w = .error e) : p.resolve w = .error e := by
  by_cases hp : p.pieces = []
  · cases hi : p.inner with
    | none => rw [resolve_leaf hp hi, h]
    | some => rw [check_of_inner hi] at h; cases h
  · rw [resolve_pieces hp, h]
    rfl

namespace Stops

/-- Where the walk over a part stops, the part is rejected. -/
theorem resolve_eq (h : Stops p w n q e) : p.resolve w = .error e := by
  induction h with
  | here hc => exact resolve_of_check hc
  | @piece p w w₁ n q e before r names after hr hc hbefore _ ih =>
    have hp : p.pieces ≠ [] := by rw [hr]; simp
    rw [resolve_pieces hp, hc]
    exact resolveEach_eq_error.2 ⟨before, r, names, after, w₁, hr, hbefore, ih⟩
  | inside hi _ ih => exact (resolve_inner hi _).2 ih

/-- A walk stops in one place. -/
theorem unique {n' : Nat} {q' : Part} {e' : Error} (h : Stops p w n q e)
    (h' : Stops p w n' q' e') : n = n' ∧ q = q' := by
  induction h generalizing n' with
  | here hc =>
    cases h' with
    | here => exact ⟨rfl, rfl⟩
    | piece _ hc' => cases hc.symm.trans hc'
    | inside hi => cases hc.symm.trans (check_of_inner hi _)
  | piece hr hc hbefore h ih =>
    cases h' with
    | here hc' => cases hc.symm.trans hc'
    | inside hi => simp [pieces_of_inner hi] at hr
    | piece hr' _ hbefore' h' =>
      obtain ⟨rfl, hx⟩ :=
        eq_of_stop (hr.symm.trans hr') hbefore h.resolve_eq hbefore' h'.resolve_eq
      cases hx
      cases hbefore.symm.trans hbefore'
      obtain ⟨rfl, rfl⟩ := ih h'
      exact ⟨rfl, rfl⟩
  | inside hi _ ih =>
    cases h' with
    | here hc => cases hc.symm.trans (check_of_inner hi _)
    | piece hr => simp [pieces_of_inner hi] at hr
    | inside hi' h' =>
      cases hi.symm.trans hi'
      exact ih h'

end Stops

/-- **Every rejected part has a place where the walk over it stops.** -/
theorem stops_exists (p : Part) : ∀ {w : Walk} {e : Error}, p.resolve w = .error e →
    ∃ n q, Stops p w n q e := by
  induction p using wellFounded_inside.induction with
  | _ p ih =>
  intro w e h
  by_cases hp : p.pieces = []
  · rcases hi : p.inner with _ | ⟨q, enter⟩
    · exact ⟨0, p, .here (resolve_leaf hp hi w ▸ h)⟩
    · obtain ⟨n, q, hq⟩ := ih q (inside_of_inner hi) ((resolve_inner hi w).1 h)
      exact ⟨n, q, .inside hi hq⟩
  · rw [resolve_pieces hp] at h
    rcases Except.bind_eq_error.1 h with hc | ⟨w', hc, hpieces⟩
    · exact ⟨0, p, .here hc⟩
    · obtain rfl := check_eq hp hc
      obtain ⟨before, r, names, after, w₁, hr, hbefore, hstop⟩ := resolveEach_eq_error.1 hpieces
      have hin : r.Inside p := .piece (hr ▸ List.mem_append_cons_self)
      obtain ⟨n, q, hq⟩ := ih r hin hstop
      exact ⟨_, q, .piece hr hc hbefore hq⟩

end Part

/-! ## More globals -/

namespace Walk.Wider

variable {a b : List (Nat × Nat)} {w v : Walk}

theorem enter (h : w.Wider a b v) (s : Scope) : (w.enter s).Wider a b (v.enter s) :=
  { h with scopes := congrArg (s :: ·) h.scopes }

theorem title (h : w.Wider a b v) (f : Function) : (w.title f).Wider a b (v.title f) := by
  unfold Walk.title
  split
  · exact h.bind _
  · exact h

theorem await (h : w.Wider a b v) (x : String) : (w.await x).Wider a b (v.await x) := by
  have he : v.scopes.isEmpty = w.scopes.isEmpty := by rw [h.scopes]
  unfold Walk.await
  rw [he]
  split
  · exact { h with pending := rfl }
  · exact h.mark x false

end Walk.Wider

namespace Part

variable {p q r : Part} {enter : Walk → Walk} {w v : Walk} {n : Nat} {e : Error}

section
variable {a b : List (Nat × Nat)}

open Walk in
theorem check_widens (p : Part) : Widens p.check := by
  cases p with
  | reference site name => exact .refer site name
  | expr e =>
    cases e with
    | this => exact .require fun h => h.inStruct
    | _ => exact .same
  | stmt s =>
    cases s with
    | «break» | «continue» => exact .require fun h => by rw [h.loops]
    | «return» => exact .require fun h => by rw [h.function]
    | _ => exact .same
  | _ => exact .same

theorem resolveEach_widens : ∀ ps : List Part, Walk.Widens (resolveEach ps)
  | [] => .same
  | p :: ps => p.resolve_widens.bind (resolveEach_widens ps)

/-- If a walk with more globals passes all the pieces, it passes the one that comes next as well. -/
theorem passes_next {before after : List (Part × List String)} {names : List String}
    {w₁ v' : Walk} (hwide : w.Wider a b v) (hw : resolveEach (before.map Prod.fst) w = .ok w₁)
    (hv : resolveEach ((before ++ (r, names) :: after).map Prod.fst) v = .ok v') :
    ∃ v₁ v₂, w₁.Wider a b v₁ ∧ r.resolve v₁ = .ok v₂ := by
  rw [List.map_append, resolveEach_append] at hv
  obtain ⟨v₁, hv₁, hrest⟩ := hv
  obtain ⟨v₂, hv₂, -⟩ := Except.bind_eq_ok.1 hrest
  obtain ⟨v₁', hv₁', hwide⟩ := resolveEach_widens _ hwide hw
  cases hv₁.symm.trans hv₁'
  exact ⟨v₁, v₂, hwide, hv₂⟩

theorem inner_widens (hi : p.inner = some (q, enter)) (h : w.Wider a b v) :
    (enter w).Wider a b (enter v) := by
  unfold inner at hi
  split at hi <;> cases hi
  · exact { h.title _ with function := rfl }
  · have called : Walk.Wider a b { w with loops := 0 } { v with loops := 0 } :=
      { h with loops := rfl }
    exact called.enter _
  · exact { h.enter methodScope with function := rfl }
  · exact h.await _
  · exact h.enter _
  · exact h.enter _
  · exact { h with loops := congrArg (· + 1) h.loops }
  · exact { h.bind _ with inStruct := rfl }

/-- How a part is rejected if it does not get what it demands. -/
def fault? : Part → Option Error
  | reference _ name => some (.scoping name.line (.ownInitializer name.text))
  | expr (.this _ line) => some (.scoping line .thisOutsideMethod)
  | stmt (.break line) => some (.scoping line .breakOutsideLoop)
  | stmt (.continue line) => some (.scoping line .continueOutsideLoop)
  | stmt (.return line _) => some (.scoping line .returnOutsideFunction)
  | _ => none

theorem fault?_of_check (h : p.check w = .error e) : p.fault? = some e := by
  unfold check at h
  split at h
  · unfold Walk.refer at h
    split at h
    · cases h
    · split at h <;> cases h
      rfl
  all_goals first
    | unfold Walk.require at h
      split at h <;> cases h
      rfl
    | cases h

/-- **Only a variable in its own first value is rejected for want of globals.** -/
theorem check_wider (h : w.Wider a b v) (hc : p.check w = .error e) :
    p.check v = .error e ∨ ∃ site name, p = .reference site name := by
  have same {condition : Bool} {line : Nat} {fault : ScopeFault}
      (hw : w.require condition line fault = .error e) :
      v.require condition line fault = .error e := by
    cases condition with
    | true => cases hw
    | false => exact hw
  cases p with
  | reference site name => exact .inr ⟨site, name, rfl⟩
  | expr e =>
    cases e with
    | this => exact .inl (same (h.inStruct ▸ hc))
    | _ => cases hc
  | stmt s =>
    cases s with
    | «break» | «continue» => exact .inl (same (h.loops ▸ hc))
    | «return» => exact .inl (same (h.function ▸ hc))
    | _ => cases hc
  | _ => cases hc

namespace Stops

variable {v' : Walk}

theorem fault?_eq (h : Stops p w n q e) : q.fault? = some e := by
  induction h with
  | here hc => exact fault?_of_check hc
  | piece _ _ _ _ ih | inside _ _ ih => exact ih

/-- **Where a walk stops though a walk with more globals passes**, there is a variable in its own
    first value. -/
theorem of_passed (h : Stops p w n q e) (hwide : w.Wider a b v) (hv : p.resolve v = .ok v') :
    n < p.sites.length ∧ ∃ site name, q = .reference site name := by
  induction h generalizing v v' with
  | here hc =>
    rcases check_wider hwide hc with hc' | ⟨site, name, rfl⟩
    · cases hv.symm.trans (resolve_of_check hc')
    · exact ⟨Nat.zero_lt_one, site, name, rfl⟩
  | @piece p w w₁ n q e before r names after hr hc hbefore _ ih =>
    have hp : p.pieces ≠ [] := by rw [hr]; simp
    obtain ⟨v₁, v₂, hwide, hv₂⟩ := passes_next hwide hbefore (hr ▸ resolveEach_pieces hp hv)
    obtain ⟨hlt, hq⟩ := ih hwide hv₂
    have hlen := (sites_pieces hp).length_eq
    rw [hr, List.flatMap_append, List.flatMap_cons, List.length_append, List.length_append] at hlen
    exact ⟨by dsimp only at hlen; omega, hq⟩
  | @inside p w n q e r enter hi _ ih =>
    rw [← sites_of_inner hi]
    cases hr : r.resolve (enter v) with
    | error => cases hv.symm.trans ((resolve_inner hi v).2 hr)
    | ok v₂ => exact ih (inner_widens hi hwide) hr

/-- **With fewer globals a walk stops in the same place**, or before, at a variable in its own first
    value. -/
theorem narrows (h : Stops p v n q e) (hwide : w.Wider a b v) :
    Stops p w n q e ∨ ∃ m site name, m < n ∧
      Stops p w m (.reference site name) (.scoping name.line (.ownInitializer name.text)) := by
  induction h generalizing w with
  | @here p v e hc =>
    cases hw : p.check w with
    | ok w' =>
      obtain ⟨v', hv, -⟩ := check_widens p hwide hw
      cases hc.symm.trans hv
    | error e' =>
      cases (fault?_of_check hc).symm.trans (fault?_of_check hw)
      exact .inl (.here hw)
  | @piece p v v₁ n q e before r names after hr hc hbefore _ ih =>
    have hp : p.pieces ≠ [] := by rw [hr]; simp
    have hcw : p.check w = .ok w := by
      cases hw : p.check w with
      | ok w' => rw [check_eq hp hw]
      | error e' =>
        rcases check_wider hwide hw with hcv | ⟨site, name, rfl⟩
        · cases hc.symm.trans hcv
        · exact absurd rfl hp
    cases hb : resolveEach (before.map Prod.fst) w with
    | ok w₁ =>
      obtain ⟨v₁', hv₁', hwide⟩ := resolveEach_widens _ hwide hb
      cases hbefore.symm.trans hv₁'
      rcases ih hwide with h | ⟨m, site, name, hm, h⟩
      · exact .inl (.piece hr hcw hb h)
      · exact .inr ⟨_, site, name, Nat.add_lt_add_left hm _, .piece hr hcw hb h⟩
    | error e' =>
      -- the walk with fewer globals stops in a piece that the other one has passed
      obtain ⟨before, r', names', between, w₁, rfl, hpassed, hstop⟩ := resolveEach_eq_error.1 hb
      obtain ⟨m, q', h⟩ := stops_exists r' hstop
      obtain ⟨v₂, v₃, hwide, hv₃⟩ := passes_next hwide hpassed hbefore
      obtain ⟨hm, site, name, rfl⟩ := h.of_passed hwide hv₃
      cases h.fault?_eq
      rw [List.append_assoc] at hr
      refine .inr ⟨_, site, name, ?_, .piece hr hcw hpassed h⟩
      simp only [List.flatMap_append, List.flatMap_cons, List.length_append]
      omega
  | inside hi _ ih =>
    rcases ih (inner_widens hi hwide) with h | ⟨m, site, name, hm, h⟩
    · exact .inl (.inside hi h)
    · exact .inr ⟨m, site, name, hm, .inside hi h⟩

end Stops

end

end Part

theorem resolve_eq_error {G : List String} {program : List Stmt} {e : Error} :
    resolve G program = .error e ↔ (Part.stmts program).resolve { globals := G } = .error e :=
  Part.leave_eq_error

/-- **Known globals only widen what is accepted.**  A program that is accepted with some globals is
    accepted with more of them, and records the same distances.  If it is rejected with more of them,
    it is rejected with fewer: at the same place and with the same error, or at a variable in its own
    first value, which the walk with more globals has passed before it stops. -/
theorem acceptance_widens {G G' : List String} (hG : G ⊆ G') (program : List Stmt) :
    (∀ ds, resolve G program = .ok ds → resolve G' program = .ok ds) ∧
      ∀ e', resolve G' program = .error e' → ∃ n' q' n q e,
        Part.Stops (.stmts program) { globals := G' } n' q' e' ∧
        Part.Stops (.stmts program) { globals := G } n q e ∧ resolve G program = .error e ∧
        (n = n' ∧ q = q' ∧ e = e' ∨ n < n' ∧ ∃ site name, q = .reference site name ∧
          e = .scoping name.line (.ownInitializer name.text)) := by
  have wider : Walk.Wider [] [] { globals := G } { globals := G' } :=
    { scopes := rfl, globals := hG, pending := rfl, function := rfl, inStruct := rfl, loops := rfl
      distances := ⟨[], rfl, rfl⟩ }
  constructor
  · intro ds h
    obtain ⟨w, hw, h⟩ := Except.bind_eq_ok.1 h
    cases h
    obtain ⟨v, hv, hwide⟩ := Part.resolve_widens (.stmts program) wider hw
    obtain ⟨new, hnew, hnew'⟩ := hwide.distances
    refine Except.bind_eq_ok.2 ⟨v, hv, ?_⟩
    rw [hnew, hnew']
    rfl
  · intro e' h
    obtain ⟨n', q', h'⟩ := Part.stops_exists _ (resolve_eq_error.1 h)
    rcases h'.narrows wider with h | ⟨n, site, name, hn, h⟩
    · exact ⟨n', q', n', q', e', h', h, resolve_eq_error.2 h.resolve_eq, .inl ⟨rfl, rfl, rfl⟩⟩
    · exact ⟨n', q', n, _, _, h', h, resolve_eq_error.2 h.resolve_eq, .inr ⟨hn, site, name, rfl, rfl⟩⟩

/-- A variable that is read in its own first value, and a jump out of no loop after it. -/
def stoppingProgram : List Stmt :=
  [.let ⟨"x", 1⟩ (some (.variable 0 ⟨"x", 1⟩)), .break 2]

theorem acceptance_widens_stopping :
    [] ⊆ ["x"] ∧ resolve [] stoppingProgram = .error (.scoping 1 (.ownInitializer "x")) ∧
      resolve ["x"] stoppingProgram = .error (.scoping 2 .breakOutsideLoop) ∧
      ∃ n' q' n q e, Part.Stops (.stmts stoppingProgram) { globals := ["x"] } n' q'
          (.scoping 2 .breakOutsideLoop) ∧
        Part.Stops (.stmts stoppingProgram) { globals := [] } n q e ∧
        resolve [] stoppingProgram = .error e ∧
        (n = n' ∧ q = q' ∧ e = .scoping 2 .breakOutsideLoop ∨
          n < n' ∧ ∃ site name, q = .reference site name ∧
            e = .scoping name.line (.ownInitializer name.text)) := by
  have widened : ([] : List String) ⊆ ["x"] := List.nil_subset _
  exact ⟨widened, rfl, rfl, (acceptance_widens widened stoppingProgram).2 _ rfl⟩

end Scriptling
