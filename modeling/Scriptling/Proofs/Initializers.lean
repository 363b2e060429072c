/-
  Initializers — references in the first value of a variable.

  * `Direct`: a reference in a part, outside of the functions in it, with what the walk comes to
    before it;
  * `Walk.distance?_await`, `Walk.distance?_settled`: what a name means in the first value of a
    variable of this name, and what it would mean just before the declaration;
  * `initializer_reads`: a reference in the first value means what it would mean just before the
    declaration, unless the variable is declared in its scope once more; then the binding that it
    had there is passed over.
-/
import Scriptling.Proofs.Regions

namespace Scriptling

/-! ## Direct references -/

/-- **A reference stands in a part, outside of the functions in it**; the walk over the part comes
    to some other parts before it. -/
inductive Direct : Part → List Part → Nat → Name → Prop
  | here {site name} : Direct (.reference site name) [] site name
  | piece {part before q names after ps site name} :
      part.pieces = before ++ (q, names) :: after → Direct q ps site name →
      Direct part (before.map Prod.fst ++ ps) site name

namespace Direct

variable {part : Part} {ps : List Part} {site : Nat} {name : Name} {w w' : Walk}

/-- The walk over a part comes to the references in it. -/
theorem refers (h : Direct part ps site name) (hw : part.resolve w = .ok w') :
    ∃ a b, Part.resolveEach ps w = .ok a ∧ a.refer site name = .ok b := by
  induction h generalizing w w' with
  | here => exact ⟨w, w', rfl, hw⟩
  | piece hq _ ih =>
    have hall := Part.resolveEach_pieces (by rw [hq]; simp) hw
    rw [hq, List.map_append, Part.resolveEach_append] at hall
    obtain ⟨w₁, h₁, hrest⟩ := hall
    obtain ⟨w₂, h₂, -⟩ := Except.bind_eq_ok.1 hrest
    obtain ⟨a, b, ha, hb⟩ := ih h₂
    exact ⟨a, b, Part.resolveEach_append.2 ⟨w₁, h₁, ha⟩, hb⟩

/-- Its distance is the one that is found when the walk comes to it. -/
theorem lookup_eq {ds : List (Nat × Nat)} {a : Walk} (h : Direct part ps site name)
    (hi : Pass.Isolated ds w part) (hw : part.resolve w = .ok w')
    (ha : Part.resolveEach ps w = .ok a) : ds.lookup site = a.distance? name.text := by
  induction h generalizing w w' with
  | here =>
    cases ha
    exact hi.reference hw
  | piece hq _ ih =>
    have hall := Part.resolveEach_pieces (by rw [hq]; simp) hw
    rw [hq, List.map_append, Part.resolveEach_append] at hall
    obtain ⟨w₁, h₁, hrest⟩ := hall
    obtain ⟨w₂, h₂, -⟩ := Except.bind_eq_ok.1 hrest
    obtain ⟨v, hv, ha⟩ := Part.resolveEach_append.1 ha
    cases h₁.symm.trans hv
    exact ih (hi.piece hq h₁ hw) h₂ ha

end Direct

/-! ## Walks in a scope -/

namespace Walk

variable {w w' : Walk} {s : Scope} {rest : List Scope} {x : String} {names : List String}

/-- **What a name means in a scope**: the scope itself, if it knows the name with its value, and
    else what the name means further out. -/
theorem distance?_cons (hw : w.scopes = s :: rest) (x : String) :
    w.distance? x = if s.get? x = some true then some 0 else (nearest? rest x).map (· + 1) := by
  unfold distance? isPending
  rw [hw]
  have searched : nearest? (s :: rest) x =
      if s.contains x then some 0 else (nearest? rest x).map (· + 1) := List.findIdx?_cons
  rw [searched, Bindings.contains, List.tail_cons]
  dsimp only
  have value : s.get? x = none ∨ s.get? x = some false ∨ s.get? x = some true := by
    rcases s.get? x with _ | _ | _ <;> simp
  rcases value with hv | hv | hv <;> simp [hv]

theorem isOwnInitializer_cons (hw : w.scopes = s :: rest) (x : String) :
    w.isOwnInitializer x = (s.get? x == some false) := by
  unfold isOwnInitializer isPending
  rw [hw]
  simp

/-- Inside of scopes, walking makes no names global. -/
theorem closed_globals : Closed (fun _ => True) fun w w' =>
    w.Grows w' ∧ (w.scopes ≠ [] → w'.globals = w.globals) where
  refl w := ⟨.refl w, fun _ => rfl⟩
  trans {a b c} h h' := by
    refine ⟨h.1.trans h'.1, fun ha => ?_⟩
    rw [h'.2 (h.1.scopes.ne_nil ha), h.2 ha]
  refer hs h := ⟨closed_grows.refer hs h, fun _ => by rw [refer_eq_ok h]⟩
  bind w x := by
    refine ⟨closed_grows.bind w x, fun hw => ?_⟩
    unfold bind mark
    rw [if_neg fun e => hw (List.isEmpty_iff.1 e)]
    split <;> rfl
  within h := ⟨closed_grows.within h.1, fun _ => h.2 (List.cons_ne_nil _ _)⟩
  first hw h := ⟨closed_grows.first hw h.1, fun hne => absurd hw hne⟩
  declare {w after x} hw h := by
    refine ⟨closed_grows.declare hw h.1, fun _ => ?_⟩
    have same (w : Walk) (ready : Bool) : (w.mark x ready).globals = w.globals := by
      unfold mark
      split <;> rfl
    have begun : (w.mark x false).scopes ≠ [] := by
      unfold mark
      split
      · exact hw
      · exact List.cons_ne_nil _ _
    rw [same, h.2 begun, same]
  inLoop h := ⟨closed_grows.inLoop h.1, h.2⟩
  inFunction h := ⟨closed_grows.inFunction h.1, h.2⟩
  inBody h := ⟨closed_grows.inBody h.1, h.2⟩
  inMethods h := ⟨closed_grows.inMethods h.1, h.2⟩

theorem globals_resolveEach {ps : List Part} (hw : w.scopes ≠ [])
    (h : Part.resolveEach ps w = .ok w') : w'.globals = w.globals := by
  induction ps generalizing w with
  | nil =>
    cases h
    rfl
  | cons p ps ih =>
    obtain ⟨w₁, h₁, h₂⟩ := Except.bind_eq_ok.1 h
    obtain ⟨hg, same⟩ := Part.resolve_closed closed_globals (fun _ _ => trivial) h₁
    rw [ih (hg.scopes.ne_nil hw) h₂, same hw]

/-- What a name means once some names have been declared in a scope. -/
theorem distance?_settled (hw : w.scopes = s :: rest) (h : w.Settles names w') (x : String) :
    w'.distance? x = if x ∈ names ∨ s.get? x = some true then some 0
      else (nearest? rest x).map (· + 1) := by
  obtain ⟨t, ht, hx⟩ := h s rest hw
  rw [distance?_cons ht, hx]
  by_cases hn : x ∈ names <;> simp [hn]

/-- What the name of a variable means in its first value, once some names have been declared there:
    the variable is passed over, and so is what the name was bound to in its scope. -/
theorem distance?_await (hw : w.scopes = s :: rest) (h : (w.await x).Settles names w') :
    w'.distance? x = if x ∈ names then some 0 else (nearest? rest x).map (· + 1) := by
  have begun : (w.await x).scopes = s.set x false :: rest := by
    unfold await mark
    simp [hw]
  rw [distance?_settled begun h, Bindings.get?_set]
  simp

/-- When a reference in the first value of a variable is rejected. -/
theorem refer_await {site line : Nat} (hw : w.scopes = s :: rest)
    (h : (w.await x).Settles names w') (hg : w'.globals = w.globals) :
    w'.refer site ⟨x, line⟩ = .error (.scoping line (.ownInitializer x)) ↔
      x ∉ names ∧ nearest? rest x = none ∧ x ∉ w.globals := by
  have begun : (w.await x).scopes = s.set x false :: rest := by
    unfold await mark
    simp [hw]
  obtain ⟨t, ht, hx⟩ := h _ rest begun
  have own : w'.isOwnInitializer x = !decide (x ∈ names) := by
    rw [isOwnInitializer_cons ht, hx, Bindings.get?_set]
    by_cases hn : x ∈ names <;> simp [hn]
  unfold refer
  rw [distance?_await hw h, own, hg]
  by_cases hn : x ∈ names
  · simp [hn]
  · cases nearest? rest x with
    | none => by_cases hx : x ∈ w.globals <;> simp [hn, hx]
    | some d => simp [hn]

end Walk

/-! ## First values -/

/-- The walk over a part records the distances of its sites, and nothing else does. -/
theorem isolated_of_fresh {part : Part} {w w₁ : Walk} {ds : List (Nat × Nat)}
    (hn : part.sites.Nodup) (hnew : ∀ i ∈ part.sites, w.distances.lookup i = none)
    (h₁ : part.resolve w = .ok w₁) (hds : ds = w₁.distances) : Pass.Isolated ds w part := by
  refine ⟨hn, hnew, fun w' hw' i _ => ?_⟩
  cases h₁.symm.trans hw'
  rw [hds]

/-- **What a reference means in the first value of a variable of its name**, inside of a scope: what
    it would mean in the same expression just before the declaration, unless the scope binds the
    name already; then this binding is passed over.  So it is rejected if and only if no scope
    further out binds the name and it is not global.  Where functions in the first value have
    declared the name before, it means what they have declared. -/
theorem initializer_reads {w : Walk} {s : Scope} {rest : List Scope} (hw : w.scopes = s :: rest)
    {x : Name} {e : Expr} (hn : (Part.expr e).sites.Nodup)
    (hnew : ∀ i ∈ (Part.expr e).sites, w.distances.lookup i = none) {ps : List Part}
    {site line : Nat} (h : Direct (.expr e) ps site ⟨x.text, line⟩) :
    (∀ w₁ w₂, (Stmt.let x (some e)).resolve w = .ok w₁ →
      (Stmt.expression e).resolve w = .ok w₂ →
      (w₁.distances.lookup site = w₂.distances.lookup site ↔
        (s.get? x.text = some true → x.text ∈ ps.flatMap Part.declares))) ∧
    ∀ a, Part.resolveEach ps (w.await x.text) = .ok a →
      (a.refer site ⟨x.text, line⟩ = .error (.scoping line (.ownInitializer x.text)) ↔
        x.text ∉ ps.flatMap Part.declares ∧ Walk.nearest? rest x.text = none ∧
          x.text ∉ w.globals) := by
  have awaited : (w.await x.text).scopes ≠ [] ∧ (w.await x.text).globals = w.globals := by
    unfold Walk.await Walk.mark
    simp [hw]
  refine ⟨fun w₁ w₂ h₁ h₂ => ?_, fun a ha => ?_⟩
  · obtain ⟨after, hafter⟩ := Pass.exists_await h₁
    obtain ⟨a, -, ha, -⟩ := h.refers hafter
    obtain ⟨b, -, hb, -⟩ := h.refers h₂
    have inside : w₁.distances.lookup site = a.distance? x.text := by
      refine h.lookup_eq (isolated_of_fresh hn (fun i hi => ?_) hafter
        (Pass.distances_await h₁ hafter)) hafter ha
      rw [w.await_distances, hnew i hi]
    have before : w₂.distances.lookup site = b.distance? x.text :=
      h.lookup_eq (isolated_of_fresh hn hnew h₂ rfl) h₂ hb
    rw [inside, before, Walk.distance?_await hw (Part.resolveEach_settles ha),
      Walk.distance?_settled hw (Part.resolveEach_settles hb)]
    by_cases hdeclared : x.text ∈ ps.flatMap Part.declares
    · simp only [hdeclared, true_or, if_true, implies_true]
    · by_cases hs : s.get? x.text = some true
      · simp only [hdeclared, hs, or_true, if_false, if_true, forall_const, iff_false]
        cases Walk.nearest? rest x.text <;> simp
      · simp only [hdeclared, hs, or_self, if_false, false_implies]
  · exact Walk.refer_await hw (Part.resolveEach_settles ha)
      ((Walk.globals_resolveEach awaited.1 ha).trans awaited.2)

/-- A reference to a variable. -/
def readsA : Expr := .variable 0 ⟨"a", 1⟩

/-- The variable is bound one scope further out. -/
def boundOutside : Walk := { scopes := [.empty, Bindings.empty.set "a" true], globals := [] }

theorem initializer_reads_outside :
    ∃ w₁ w₂, (Stmt.let ⟨"a", 1⟩ (some readsA)).resolve boundOutside = .ok w₁ ∧
      (Stmt.expression readsA).resolve boundOutside = .ok w₂ ∧
      w₁.distances.lookup 0 = w₂.distances.lookup 0 := by
  have only : (Part.expr readsA).pieces = [] ++ (.reference 0 ⟨"a", 1⟩, []) :: [] := rfl
  have direct : Direct (.expr readsA) [] 0 ⟨"a", 1⟩ := .piece only .here
  have sites : (Part.expr readsA).sites.Nodup := by decide
  have fresh : ∀ i ∈ (Part.expr readsA).sites, boundOutside.distances.lookup i = none := by decide
  refine ⟨_, _, rfl, rfl, ?_⟩
  refine ((initializer_reads (x := ⟨"a", 1⟩) rfl sites fresh direct).1 _ _ rfl rfl).2 fun bound => ?_
  simp at bound

/-- The variable is bound in the scope itself. -/
def boundInside : Walk := { scopes := [Bindings.empty.set "a" true], globals := [] }

/-- A variable that is declared once more is not visible in its first value, though it has a value:
    there the name means a binding further out, and if there is none, it is rejected. -/
theorem initializer_misses_redeclared :
    boundInside.Knows "a" ∧
    (∃ w, (Stmt.expression readsA).resolve boundInside = .ok w ∧ w.distances.lookup 0 = some 0) ∧
    (Stmt.let ⟨"a", 1⟩ (some readsA)).resolve boundInside =
      .error (.scoping 1 (.ownInitializer "a")) ∧
    resolve [] (Session.statements 0 "\x7b let a = 1; let a = a + 1; print a; \x7d") =
      .error (.scoping 1 (.ownInitializer "a")) ∧
    resolve [] (Session.statements 0
      "let a = 5; \x7b let a = 1; let a = a + 1; print a; \x7d") = .ok [(1, 0)] := by
  refine ⟨⟨_, rfl, ?_⟩, ⟨_, rfl, rfl⟩, rfl, ?_, ?_⟩
  · exact (Bindings.contains_set ..).2 (.inl rfl)
  · decide +kernel
  · decide +kernel

end Scriptling
