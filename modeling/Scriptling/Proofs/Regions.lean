/-
  Regions — which binding a reference means, by where it stands.

  A scope reaches over a region of a program: a block, a `for`, the parameters and the body of a
  function, or what `this` is known in.

  * `Occurs`: a part occurs in a program, inside certain regions; each region lists the
    declarations in it that come before the part;
  * `Means`: the nearest region that binds a name, except that a variable is not visible in its
    own first value;
  * `distances_lexical`: the distances of a program are those that this gives.
-/
import Scriptling.Proofs.Nesting
import Scriptling.Proofs.Piecewise

namespace Scriptling

/-! ## Regions -/

/-- A declaration of a name in a scope. -/
structure Declaration where
  name : String
  /-- The name is that of a variable, and the point stands in its first value. -/
  unfinished : Bool

/-- The declarations of a scope that come before a point of a program, latest first. -/
abbrev Region := List Declaration

namespace Region

variable {r : Region} {x : String}

/-- The scope binds a name. -/
def Binds (r : Region) (x : String) : Prop := ∃ d ∈ r, d.name = x

/-- The latest declaration of a name is of a variable in whose first value the point stands. -/
def Awaits (r : Region) (x : String) : Prop :=
  ∃ later earlier, r = later ++ ⟨x, true⟩ :: earlier ∧ ∀ d ∈ later, d.name ≠ x

/-- Declarations that are finished. -/
def ofNames (names : List String) : Region := names.map (⟨·, false⟩)

/-- Names are declared in the innermost scope. -/
def declare (names : List String) : List Region → List Region
  | [] => []
  | r :: Γ => (ofNames names ++ r) :: Γ

/-- A variable is declared in the innermost scope, and its first value begins. -/
def begin (x : String) : List Region → List Region
  | [] => []
  | r :: Γ => (⟨x, true⟩ :: r) :: Γ

end Region

/-- **A part occurs in a program, inside certain regions**, the innermost first.  Outside of all
    regions the names are global. -/
inductive Occurs (program : List Stmt) : List Region → Part → Prop
  | program : Occurs program [] (.stmts program)
  /-- What comes earlier in the same scope has declared its names. -/
  | piece {Γ part before q names after} : Occurs program Γ part →
      part.pieces = before ++ (q, names) :: after →
      Occurs program (Region.declare (before.flatMap fun q => q.1.declares) Γ) q
  /-- A function literal declares its name before its body. -/
  | literal {Γ f} : Occurs program Γ (.expr (.function f)) →
      Occurs program (Region.declare (f.name.toList.map Name.text) Γ) (.function f)
  /-- A struct declares its name before its methods. -/
  | methods {Γ name methods} : Occurs program Γ (.stmt (.struct name methods)) →
      Occurs program (Region.declare [name.text] Γ) (.methods methods)
  | value {Γ name value} : Occurs program Γ (.stmt (.let name value)) →
      Occurs program (Region.begin name.text Γ) (.optional value)
  | round {Γ body} : Occurs program Γ (.rounds body) → Occurs program Γ (.stmt body)
  | block {Γ body} : Occurs program Γ (.stmt (.block body)) → Occurs program ([] :: Γ) (.stmts body)
  | loop {Γ name value condition step body} :
      Occurs program Γ (.stmt (.for name value condition step body)) →
      Occurs program ([] :: Γ) (.clauses name value condition step body)
  | body {Γ title params body line} : Occurs program Γ (.function (.mk title params body line)) →
      Occurs program (Region.ofNames (params.map Name.text).reverse :: Γ) (.stmts body)
  /-- A method stands in a scope of its own, in which `this` is declared. -/
  | receiver {Γ f} : Occurs program Γ (.method f) →
      Occurs program (Region.ofNames ["this"] :: Γ) (.function f)

/-- A name can mean the binding in the region so many regions out: the region binds it, and if it
    is the innermost one, the point does not stand in the first value of the variable. -/
def Visible (Γ : List Region) (x : String) (d : Nat) : Prop :=
  ∃ r, Γ[d]? = some r ∧ r.Binds x ∧ (d = 0 → ¬ r.Awaits x)

/-- **A name means the binding in the region so many regions out**: no nearer one is visible. -/
structure Means (Γ : List Region) (x : String) (d : Nat) : Prop where
  visible : Visible Γ x d
  nearest : ∀ i < d, ¬ Visible Γ x i

/-! ## Regions and scopes of the walk -/

/-- A scope of the walk has the declarations of a region. -/
def Region.Describes (r : Region) (s : Scope) : Prop :=
  ∀ x, s.get? x = (r.find? fun d => d.name = x).map fun d => !d.unfinished

namespace Region

variable {r : Region} {s : Scope} {x : String}

theorem Describes.contains (h : r.Describes s) : s.contains x = true ↔ r.Binds x := by
  unfold Bindings.contains Binds
  rw [h, Option.isSome_map, List.find?_isSome]
  simp

theorem Describes.awaits (h : r.Describes s) : s.get? x = some false ↔ r.Awaits x := by
  unfold Awaits
  rw [h, Option.map_eq_some_iff]
  constructor
  · rintro ⟨⟨y, unfinished⟩, hfind, hu⟩
    obtain ⟨hy, later, earlier, rfl, hlater⟩ := List.find?_eq_some_iff_append.1 hfind
    simp only [decide_eq_true_eq] at hy
    simp only [Bool.not_eq_false'] at hu
    subst hy hu
    exact ⟨later, earlier, rfl, by simpa using hlater⟩
  · rintro ⟨later, earlier, rfl, hlater⟩
    refine ⟨⟨x, true⟩, List.find?_eq_some_iff_append.2 ⟨by simp, later, earlier, rfl, ?_⟩, rfl⟩
    simpa using hlater

theorem find?_ofNames (names : List String) (x : String) :
    (ofNames names).find? (fun d => d.name = x) = if x ∈ names then some ⟨x, false⟩ else none := by
  induction names with
  | nil => rfl
  | cons y names ih =>
    have hcons : ofNames (y :: names) = ⟨y, false⟩ :: ofNames names := rfl
    rw [hcons, List.find?_cons]
    by_cases hy : y = x
    · simp [hy]
    · simp [hy, Ne.symm hy, ih]

theorem describes_empty : Describes [] Bindings.empty := fun x => by simp

theorem describes_receiver : (ofNames ["this"]).Describes methodScope := by
  intro x
  unfold methodScope
  rw [find?_ofNames, Bindings.get?_set]
  by_cases hx : x = "this" <;> simp [hx]

theorem describes_params (params : List Name) : (ofNames (params.map Name.text).reverse).Describes
    (params.foldl (fun (s : Scope) (p : Name) => s.set p.text true) .empty) := by
  have get? (ps : List Name) (s : Scope) (x : String) :
      (ps.foldl (fun (s : Scope) (p : Name) => s.set p.text true) s).get? x =
        if x ∈ ps.map Name.text then some true else s.get? x := by
    induction ps generalizing s with
    | nil => simp
    | cons p ps ih =>
      rw [List.foldl_cons, ih, Bindings.get?_set]
      by_cases hx : x = p.text <;> simp [hx]
  intro x
  rw [get?, find?_ofNames]
  by_cases hx : x ∈ params.map Name.text <;> simp_all

end Region

/-- The open scopes of the walk have the declarations of some regions. -/
def Describe (Γ : List Region) (ss : List Scope) : Prop := List.Forall₂ Region.Describes Γ ss

namespace Describe

variable {Γ : List Region} {w w' : Walk} {names : List String} {x : String}

theorem declare (h : Describe Γ w.scopes) (hs : w.Settles names w')
    (hg : ScopesGrow w.scopes w'.scopes) :
    Describe (Region.declare names Γ) w'.scopes := by
  cases hw : w.scopes with
  | nil =>
    rw [hw] at h
    cases h
    rw [hw] at hg
    rw [ScopesGrow.nil_iff.1 hg]
    exact .nil
  | cons s rest =>
    rw [hw] at h
    cases h with
    | @cons r _ Γ _ hr hrest =>
      obtain ⟨t, ht, hx⟩ := hs s rest hw
      rw [ht]
      refine .cons (fun x => ?_) hrest
      rw [hx, hr, List.find?_append, Region.find?_ofNames]
      by_cases hn : x ∈ names <;> simp [hn]

theorem begin (h : Describe Γ w.scopes) (x : String) :
    Describe (Region.begin x Γ) (w.await x).scopes := by
  unfold Walk.await Walk.mark
  cases hw : w.scopes with
  | nil =>
    rw [hw] at h
    cases h
    simpa [hw] using .nil
  | cons s rest =>
    rw [hw] at h
    cases h with
    | @cons r _ Γ _ hr hrest =>
      refine .cons (fun y => ?_) hrest
      rw [Bindings.get?_set, hr, List.find?_cons]
      by_cases hy : y = x
      · simp [hy]
      · simp [hy, Ne.symm hy]

/-- **The distance that the walk finds for a name leads to the binding that the name means.** -/
theorem distance?_iff (h : Describe Γ w.scopes) {d : Nat} :
    w.distance? x = some d ↔ Means Γ x d := by
  have pending : w.isPending x = true ↔ ∃ r, Γ[0]? = some r ∧ r.Awaits x := by
    unfold Walk.isPending
    generalize w.scopes = ss at h
    cases h with
    | nil => simp
    | cons hr _ => simpa using hr.awaits
  have known {i : Nat} (hi : i < w.scopes.length) :
      w.scopes[i].contains x = true ↔ ∃ r, Γ[i]? = some r ∧ r.Binds x := by
    have hΓ : i < Γ.length := by rw [h.length_eq]; exact hi
    have hr : Region.Describes Γ[i] w.scopes[i] := h.get hΓ hi
    rw [hr.contains, List.getElem?_eq_getElem hΓ]
    simp
  rw [Walk.distance?_eq_some_iff]
  constructor
  · rintro ⟨hd, hx, hzero, hbefore⟩
    obtain ⟨r, hr, hbinds⟩ := (known hd).1 hx
    refine ⟨⟨r, hr, hbinds, ?_⟩, ?_⟩
    · rintro rfl hawaits
      exact absurd (pending.2 ⟨r, hr, hawaits⟩) (by simp [hzero rfl])
    · rintro i hi ⟨r, hr, hbinds, hnot⟩
      obtain ⟨rfl, hp⟩ := hbefore i hi ((known (Nat.lt_trans hi hd)).2 ⟨r, hr, hbinds⟩)
      obtain ⟨_, hr', hawaits⟩ := pending.1 hp
      cases hr.symm.trans hr'
      exact hnot rfl hawaits
  · rintro ⟨⟨r, hr, hbinds, hnot⟩, hnearest⟩
    obtain ⟨hΓ, -⟩ := List.getElem?_eq_some_iff.1 hr
    have hd : d < w.scopes.length := by rw [← h.length_eq]; exact hΓ
    refine ⟨hd, (known hd).2 ⟨r, hr, hbinds⟩, ?_, fun i hi hc => ?_⟩
    · rintro rfl
      refine Bool.eq_false_iff.2 fun hp => ?_
      obtain ⟨_, hr', hawaits⟩ := pending.1 hp
      cases hr.symm.trans hr'
      exact hnot rfl hawaits
    · obtain ⟨r', hr', hbinds'⟩ := (known (Nat.lt_trans hi hd)).1 hc
      have hinvisible := hnearest i hi
      by_contra hcontra
      refine hinvisible ⟨r', hr', hbinds', fun hi0 hawaits => hcontra ⟨hi0, ?_⟩⟩
      subst hi0
      exact pending.2 ⟨r', hr', hawaits⟩

theorem enter {r : Region} {s : Scope} (h : Describe Γ w.scopes) (hs : r.Describes s) :
    Describe (r :: Γ) (w.enter s).scopes := .cons hs h

end Describe

namespace Pass

variable {p : Pass} {ds : List (Nat × Nat)}

/-- **The walk over an accepted program comes to every part that occurs in it**, and the scopes
    that are open there have the declarations of the regions around the part. -/
theorem Visits.of_occurs (hp : p.Accepts ds) {Γ : List Region} {part : Part}
    (h : Occurs p.program Γ part) : ∃ L w, p.Visits L w part ∧ Describe Γ w.scopes := by
  induction h with
  | program => exact ⟨[], p.start, .start, .nil⟩
  | @piece Γ part before q names after _ hq ih =>
    obtain ⟨L, w, hv, hd⟩ := ih
    obtain ⟨w', hw', -⟩ := hv.passes hp
    have hall := Part.resolveEach_pieces (by rw [hq]; simp) hw'
    rw [hq, List.map_append, Part.resolveEach_append] at hall
    obtain ⟨w₁, h₁, -⟩ := hall
    have settled := Part.resolveEach_settles h₁
    rw [List.flatMap_map] at settled
    exact ⟨_, w₁, .piece hv hq h₁, hd.declare settled (Part.resolveEach_grows h₁).scopes⟩
  | @literal Γ f _ ih =>
    obtain ⟨L, w, hv, hd⟩ := ih
    refine ⟨_, _, .literal hv, ?_⟩
    change Describe _ (w.title f).scopes
    unfold Walk.title
    cases f.name with
    | none => exact hd.declare (Walk.settles_of_scopes rfl) (.refl _)
    | some name => exact hd.declare (w.settles_bind _) (Walk.closed_grows.bind w _).scopes
  | @methods Γ name methods _ ih =>
    obtain ⟨L, w, hv, hd⟩ := ih
    exact ⟨_, _, .methods hv, hd.declare (w.settles_bind _) (Walk.closed_grows.bind w _).scopes⟩
  | @«value» Γ name value _ ih =>
    obtain ⟨L, w, hv, hd⟩ := ih
    exact ⟨_, _, .value hv, hd.begin _⟩
  | round _ ih =>
    obtain ⟨L, w, hv, hd⟩ := ih
    exact ⟨_, _, .round hv, hd⟩
  | block _ ih =>
    obtain ⟨L, w, hv, hd⟩ := ih
    obtain ⟨w', hw', -⟩ := hv.passes hp
    obtain ⟨after, hafter, -⟩ := Except.bind_eq_ok.1 hw'
    exact ⟨_, _, .block hv hafter, hd.enter Region.describes_empty⟩
  | loop _ ih =>
    obtain ⟨L, w, hv, hd⟩ := ih
    obtain ⟨w', hw', -⟩ := hv.passes hp
    obtain ⟨after, hafter, -⟩ := Except.bind_eq_ok.1 hw'
    exact ⟨_, _, .loop hv hafter, hd.enter Region.describes_empty⟩
  | body _ ih =>
    obtain ⟨L, w, hv, hd⟩ := ih
    obtain ⟨w', hw', -⟩ := hv.passes hp
    obtain ⟨u, hu, -⟩ := Except.bind_eq_ok.1 hw'
    obtain ⟨after, hafter, -⟩ := Except.bind_eq_ok.1 hu
    exact ⟨_, _, .body hv hafter, hd.enter (Region.describes_params _)⟩
  | receiver _ ih =>
    obtain ⟨L, w, hv, hd⟩ := ih
    obtain ⟨w', hw', -⟩ := hv.passes hp
    obtain ⟨after, hafter, -⟩ := exists_receiver hw'
    exact ⟨_, _, .receiver hv hafter, hd.enter Region.describes_receiver⟩

end Pass

/-! ## Every reference occurs -/

namespace Part

/-- A reference in a part that is made of pieces is a piece, or in one. -/
theorem references_of_pieces {p : Part} (hp : p.pieces ≠ []) {r : Reference}
    (hr : r ∈ p.references) :
    ∃ q ∈ p.pieces, q.1 = .reference r.site r.name ∨ r ∈ q.1.references := by
  cases p with
  | expr e => cases e <;> simp [pieces, references, Expr.references] at hp hr ⊢ <;> grind
  | exprs es => cases es <;> simp [pieces, references, Expr.referencesAll] at hp hr ⊢; exact hr
  | optional e => cases e <;> simp [pieces, references, Expr.referencesOpt] at hp hr ⊢; exact hr
  | methods fs =>
    cases fs <;> simp [pieces, references, Function.referencesAll] at hp hr ⊢; exact hr
  | stmt s =>
    cases s <;>
      simp [pieces, references, Stmt.references, Expr.referencesOpt] at hp hr ⊢ <;> exact hr
  | alternative s => cases s <;> simp [pieces, references, Stmt.referencesOpt] at hp hr ⊢; exact hr
  | stmts ss => cases ss <;> simp [pieces, references, Stmt.referencesAll] at hp hr ⊢; exact hr
  | clauses =>
    simp [pieces, references, Stmt.references] at hr ⊢
    exact hr
  | reference | function | method | rounds => exact absurd rfl hp

/-- A reference in a part stands directly inside it, or in what does. -/
theorem exists_inside {p : Part} {r : Reference} (hr : r ∈ p.references) :
    ∃ q : Part, q.Inside p ∧ (q = .reference r.site r.name ∨ r ∈ q.references) := by
  by_cases hp : p.pieces = []
  · cases p with
    | expr e =>
      cases e with
      | literal => cases hr
      | function f => exact ⟨_, .literal, .inr hr⟩
      | _ => cases hp
    | stmt s =>
      cases s with
      | «let» => exact ⟨_, .value, .inr hr⟩
      | block => exact ⟨_, .block, .inr hr⟩
      | «for» => exact ⟨_, .loop, .inr hr⟩
      | struct => exact ⟨_, .methods, .inr hr⟩
      | «break» | «continue» => cases hr
      | _ => cases hp
    | function f => cases f; exact ⟨_, .body, .inr hr⟩
    | method => exact ⟨_, .receiver, .inr hr⟩
    | rounds => exact ⟨_, .round, .inr hr⟩
    | reference => cases hr
    | clauses => cases hp
    | exprs l | methods l | stmts l =>
      cases l with
      | nil => cases hr
      | cons => cases hp
    | optional o | alternative o =>
      cases o with
      | none => cases hr
      | some => cases hp
  · obtain ⟨q, hq, h⟩ := references_of_pieces hp hr
    exact ⟨q.1, .piece hq, h⟩

end Part

namespace Occurs

variable {program : List Stmt} {Γ : List Region} {part : Part}

/-- What stands directly inside a part of a program occurs in it. -/
theorem inside (h : Occurs program Γ part) {q : Part} (hq : q.Inside part) :
    ∃ Γ', Occurs program Γ' q := by
  cases hq with
  | piece hmem =>
    obtain ⟨before, after, he⟩ := List.append_of_mem hmem
    exact ⟨_, .piece h he⟩
  | literal => exact ⟨_, .literal h⟩
  | body => exact ⟨_, .body h⟩
  | receiver => exact ⟨_, .receiver h⟩
  | «value» => exact ⟨_, .value h⟩
  | block => exact ⟨_, .block h⟩
  | loop => exact ⟨_, .loop h⟩
  | round => exact ⟨_, .round h⟩
  | methods => exact ⟨_, .methods h⟩

/-- **Every reference in a part of a program occurs in it.** -/
theorem reference (h : Occurs program Γ part) {r : Reference} (hr : r ∈ part.references) :
    ∃ Γ', Occurs program Γ' (.reference r.site r.name) := by
  induction part using Part.wellFounded_inside.induction generalizing Γ with
  | _ part ih =>
    obtain ⟨q, hq, h'⟩ := Part.exists_inside hr
    obtain ⟨Γ', hΓ'⟩ := h.inside hq
    rcases h' with rfl | hr
    · exact ⟨Γ', hΓ'⟩
    · exact ih q hq hΓ' hr

end Occurs

/-! ## Distances -/

theorem Means.lt_length {Γ : List Region} {x : String} {d : Nat} (h : Means Γ x d) :
    d < Γ.length := by
  obtain ⟨_, hr, -⟩ := h.visible
  exact (List.getElem?_eq_some_iff.1 hr).1

/-- **Distances are lexical.**  The sites of a program that is parsed are all different.  In every
    accepted program with such sites, each reference occurs inside certain regions; there a
    distance is recorded for it if and only if its name means the binding so many regions out,
    which is always fewer than there are regions.  Nothing else is recorded. -/
theorem distances_lexical :
    (∀ source ts first last program, tokens source = .ok ts →
      parse first ts = (.ok program, last) → (Part.stmts program).sites.Nodup) ∧
    ∀ globals program ds, (Part.stmts program).sites.Nodup → resolve globals program = .ok ds →
      (∀ r ∈ Stmt.referencesAll program, ∃ Γ, Occurs program Γ (.reference r.site r.name)) ∧
      (∀ Γ site name, Occurs program Γ (.reference site name) →
        (∀ d, ds.lookup site = some d ↔ Means Γ name.text d) ∧
        ∀ d, ds.lookup site = some d → d < Γ.length) ∧
      ∀ e ∈ ds, e.1 ∈ (Stmt.referencesAll program).map Reference.site := by
  constructor
  · intro source ts first last program hts hparse
    obtain ⟨-, -, hdrawn⟩ := parse_draws (spelled_tokens hts) hparse
    exact (hdrawn program rfl).1.nodup
  · intro globals program ds hn hds
    let p : Pass := ⟨globals, program, 0⟩
    have means {Γ site name} (h : Occurs program Γ (.reference site name)) (d : Nat) :
        ds.lookup site = some d ↔ Means Γ name.text d := by
      obtain ⟨L, w, hv, hd⟩ := Pass.Visits.of_occurs (p := p) hds h
      rw [hv.lookup_eq (p := p) hds hn]
      exact hd.distance?_iff
    refine ⟨fun r hr => Occurs.program.reference hr, fun Γ site name h =>
      ⟨means h, fun d hd => ((means h d).1 hd).lt_length⟩, fun e he => ?_⟩
    obtain ⟨w, hw, hd⟩ := Except.bind_eq_ok.1 hds
    cases hd
    obtain ⟨new, hnew, hs⟩ := Part.resolve_records (p := .stmts program) hw
    rw [List.append_nil] at hnew
    exact hs e (hnew ▸ he)

/-- A variable whose first value is read from a variable of the same name further out. -/
def shadowing : List Stmt :=
  Session.statements 0 "\x7b let a = 1; \x7b let a = a; print a; \x7d \x7d"

theorem distances_lexical_shadowing :
    ∃ ds Γ name, (Part.stmts shadowing).sites.Nodup ∧ resolve [] shadowing = .ok ds ∧
      Occurs shadowing Γ (.reference 0 name) ∧ Means Γ name.text 1 ∧ 1 < Γ.length := by
  have parses : (Session.statements 0 "\x7b let a = 1; \x7b let a = a; print a; \x7d \x7d").isEmpty
      = false := by decide +kernel
  obtain ⟨ts, last, hts, hparse⟩ := Session.exists_of_statements parses
  have hn := distances_lexical.1 _ ts 0 last shadowing hts hparse
  have accepted : (resolve [] shadowing).toOption = some [(1, 0), (0, 1)] := by decide +kernel
  have hds : resolve [] shadowing = .ok [(1, 0), (0, 1)] := by
    cases h : resolve [] shadowing <;> simp_all [Except.toOption]
  have refers : ∃ r ∈ Stmt.referencesAll shadowing, r.site = 0 := by decide +kernel
  obtain ⟨r, hr, hsite⟩ := refers
  obtain ⟨occurs, means, -⟩ := distances_lexical.2 [] shadowing _ hn hds
  obtain ⟨Γ, hΓ⟩ := occurs r hr
  obtain ⟨lookup, below⟩ := means Γ r.site r.name hΓ
  have hd : ([(1, 0), (0, 1)] : List (Nat × Nat)).lookup r.site = some 1 := by rw [hsite]; rfl
  exact ⟨_, Γ, r.name, hn, hds, hsite ▸ hΓ, (lookup 1).1 hd, below 1 hd⟩

end Scriptling
