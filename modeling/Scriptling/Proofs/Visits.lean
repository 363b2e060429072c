/-
  Visits — where the walk over a program comes by.

  * `Pass.Visits`: the walk over a program comes to a part, in some state and with some
    scopes open (`Layer`);
  * `Pass.Visits.passes`: in an accepted program the walk over a part that it comes to
    succeeds, and puts no names into the open scopes but those they end up with;
  * `Pass.Visits.lookup_eq`: the distances of a program are those that the walk finds at its
    references.
-/
import Mathlib.Data.List.Forall2
import Scriptling.Machine
import Scriptling.Proofs.Bracketing

namespace Scriptling

/-! ## Open scopes -/

/-- What is to be said of an open scope at a point of the walk. -/
structure Layer where
  /-- The scope as the walk leaves it. -/
  final : Scope
  /-- Names that are bound for certain when the point is run. -/
  assured : List String
  /-- Variables whose first value is being computed at the point. -/
  awaited : List String

namespace Layer

/-- More names are assured in the innermost scope. -/
def assure (names : List String) : List Layer → List Layer
  | [] => []
  | l :: Γ => { l with assured := names ++ l.assured } :: Γ

/-- The first value of a variable is being computed in the innermost scope. -/
def await (x : String) : List Layer → List Layer
  | [] => []
  | l :: Γ => { l with awaited := x :: l.awaited } :: Γ

/-- The scopes know no names but those that they end up with. -/
def Cover (ss : List Scope) (Γ : List Layer) : Prop :=
  List.Forall₂ (fun s l => Scope.Within s l.final) ss Γ

theorem cover_assure {ss : List Scope} {Γ : List Layer} {names : List String} :
    Cover ss (assure names Γ) ↔ Cover ss Γ := by
  cases Γ with
  | nil => exact Iff.rfl
  | cons l Γ => simp only [Cover, assure, List.forall₂_cons_right_iff]

theorem cover_await {ss : List Scope} {Γ : List Layer} {x : String} :
    Cover ss (await x Γ) ↔ Cover ss Γ := by
  cases Γ with
  | nil => exact Iff.rfl
  | cons l Γ => simp only [Cover, await, List.forall₂_cons_right_iff]

/-- What covers the scopes after a walk over a part covers those before. -/
theorem Cover.of_grow {ss ts : List Scope} {Γ : List Layer} (h : ScopesGrow ss ts)
    (hc : Cover ts Γ) : Cover ss Γ := by
  cases h with
  | none => exact hc
  | inner hst =>
    cases hc with
    | cons ht hrest => exact .cons (hst.trans ht) hrest

end Layer

/-! ## Visits -/

/-- The walk over a program. -/
structure Pass where
  /-- The names that were global before. -/
  globals : List String
  program : List Stmt
  /-- How many frames there were before the program was run. -/
  since : Nat

namespace Walk

/-- The walk inside one more scope. -/
def enter (w : Walk) (s : Scope) : Walk := { w with scopes := s :: w.scopes }

/-- The innermost scope. -/
def innermost (w : Walk) : Scope := w.scopes.headD .empty

/-- The walk over the first value of a variable. -/
def await (w : Walk) (x : String) : Walk :=
  if w.scopes.isEmpty then { w with pending := some x } else w.mark x false

/-- The walk in the scope of the parameters of a function. -/
def enterBody (w : Walk) (params : List Name) : Walk :=
  { w with loops := 0 }.enter (params.foldl (fun (s : Scope) (p : Name) => s.set p.text true) .empty)

/-- The walk in the scope of the receiver of a method. -/
def enterMethod (w : Walk) : Walk := { w.enter methodScope with function := .method }

/-- The walk after the name of a function has been declared. -/
def title (w : Walk) (f : Function) : Walk :=
  match f.name with
  | some name => w.bind name.text
  | none => w

/-- The walk at a function literal, when its name has been declared. -/
def enterLiteral (w : Walk) (f : Function) : Walk := { w.title f with function := .function }

theorem distances_title (w : Walk) (f : Function) : (w.title f).distances = w.distances := by
  unfold title
  split
  · exact w.distances_bind _
  · rfl

theorem await_distances (w : Walk) (x : String) : (w.await x).distances = w.distances := by
  unfold await
  split
  · rfl
  · exact w.distances_mark x false

end Walk

namespace Pass

/-- The walk before a program. -/
def start (p : Pass) : Walk := { globals := p.globals }

/-- The program is accepted, with the given distances. -/
def Accepts (p : Pass) (ds : List (Nat × Nat)) : Prop := resolve p.globals p.program = .ok ds

/-- **The walk over a program comes to a part**, in the given state; the layers say what
    becomes of the scopes that are open there. -/
inductive Visits (p : Pass) : List Layer → Walk → Part → Prop
  | start : Visits p [] p.start (.stmts p.program)
  /-- One piece after the other, in the same scope. -/
  | piece {Γ w w₁ part before q names after} : Visits p Γ w part →
      part.pieces = before ++ (q, names) :: after →
      Part.resolveEach (before.map Prod.fst) w = .ok w₁ → Visits p (Layer.assure names Γ) w₁ q
  /-- A function literal declares its name before its body. -/
  | literal {Γ w f} : Visits p Γ w (.expr (.function f)) →
      Visits p (Layer.assure (f.name.toList.map Name.text) Γ) (w.enterLiteral f) (.function f)
  | body {Γ w after title params body line} :
      Visits p Γ w (.function (.mk title params body line)) →
      Stmt.resolveAll body (w.enterBody params) = .ok after →
      Visits p (⟨after.innermost, params.map Name.text, []⟩ :: Γ) (w.enterBody params) (.stmts body)
  /-- A method stands in the scope of its receiver. -/
  | receiver {Γ w after f} : Visits p Γ w (.method f) →
      f.resolve w.enterMethod = .ok after →
      Visits p (⟨after.innermost, ["this"], []⟩ :: Γ) w.enterMethod (.function f)
  | value {Γ w name value} : Visits p Γ w (.stmt (.let name value)) →
      Visits p (Layer.await name.text Γ) (w.await name.text) (.optional value)
  | block {Γ w after body} : Visits p Γ w (.stmt (.block body)) →
      Stmt.resolveAll body (w.enter .empty) = .ok after →
      Visits p (⟨after.innermost, [], []⟩ :: Γ) (w.enter .empty) (.stmts body)
  | loop {Γ w after name value condition step body} :
      Visits p Γ w (.stmt (.for name value condition step body)) →
      (Part.clauses name value condition step body).resolve (w.enter .empty) = .ok after →
      Visits p (⟨after.innermost, [], []⟩ :: Γ) (w.enter .empty)
        (.clauses name value condition step body)
  | round {Γ w body} : Visits p Γ w (.rounds body) →
      Visits p Γ { w with loops := w.loops + 1 } (.stmt body)
  | methods {Γ w name methods} : Visits p Γ w (.stmt (.struct name methods)) →
      Visits p (Layer.assure [name.text] Γ) { w.bind name.text with inStruct := true }
        (.methods methods)

/-! ## Visits succeed -/

/-- The walk over a part succeeds, and stays within what the layers say. -/
def Passes (Γ : List Layer) (w : Walk) (part : Part) (w' : Walk) : Prop :=
  part.resolve w = .ok w' ∧ Layer.Cover w'.scopes Γ

theorem Passes.before {Γ : List Layer} {w w' : Walk} {part : Part} (h : Passes Γ w part w') :
    Layer.Cover w.scopes Γ := h.2.of_grow (Part.resolve_grows h.1).scopes

/-- A scope of its own that a part is walked in. -/
theorem cover_enter {Γ : List Layer} {w after : Walk} {s : Scope} {assured awaited : List String}
    (hg : ScopesGrow (s :: w.scopes) after.scopes) (hc : Layer.Cover w.scopes Γ) :
    Layer.Cover after.scopes (⟨after.innermost, assured, awaited⟩ :: Γ) := by
  obtain ⟨t, -, ht⟩ := ScopesGrow.cons_iff.1 hg
  unfold Walk.innermost
  rw [ht]
  exact .cons (Scope.Within.refl t) hc

theorem exists_receiver {w w' : Walk} {f : Function} (h : (Part.method f).resolve w = .ok w') :
    ∃ after, f.resolve w.enterMethod = .ok after ∧ w'.distances = after.distances := by
  obtain ⟨u, hu, h⟩ := Except.bind_eq_ok.1 h
  obtain ⟨after, hafter, hu⟩ := Except.bind_eq_ok.1 hu
  cases hu
  cases h
  exact ⟨after, hafter, rfl⟩

theorem exists_await {w w' : Walk} {x : String} {value : Walk → Except Error Walk}
    (h : w.declare x value = .ok w') : ∃ after, value (w.await x) = .ok after := by
  unfold Walk.declare at h
  unfold Walk.await
  split at h
  all_goals
    obtain ⟨after, ha, -⟩ := Except.bind_eq_ok.1 h
    exact ⟨after, by simp_all⟩

/-- A declaration leaves in the innermost scope all that its first value has put there. -/
theorem grow_await {w w' after : Walk} {x : String} {value : Walk → Except Error Walk}
    (h : w.declare x value = .ok w') (ha : value (w.await x) = .ok after) :
    ScopesGrow after.scopes w'.scopes := by
  unfold Walk.declare at h
  unfold Walk.await at ha
  split at h
  · next he =>
    rw [if_pos he] at ha
    rw [ha] at h
    cases h
    exact .refl _
  · next he =>
    rw [if_neg he] at ha
    rw [ha] at h
    cases h
    exact (after.grows_mark x true).scopes

theorem distances_await {w w' after : Walk} {x : String} {value : Walk → Except Error Walk}
    (h : w.declare x value = .ok w') (ha : value (w.await x) = .ok after) :
    w'.distances = after.distances := by
  unfold Walk.declare at h
  unfold Walk.await at ha
  split at h
  · next he =>
    rw [if_pos he] at ha
    rw [ha] at h
    cases h
    rfl
  · next he =>
    rw [if_neg he] at ha
    rw [ha] at h
    cases h
    exact after.distances_mark x true

/-- **In an accepted program, the walk over every part that it comes to succeeds.** -/
theorem Visits.passes {p : Pass} {ds : List (Nat × Nat)} (hp : p.Accepts ds) {Γ : List Layer}
    {w : Walk} {part : Part} (h : p.Visits Γ w part) : ∃ w', Passes Γ w part w' := by
  induction h with
  | start =>
    obtain ⟨w', hw, -⟩ := Except.bind_eq_ok.1 hp
    have hg := Part.resolve_grows (p := .stmts p.program) hw
    refine ⟨w', hw, ?_⟩
    rw [ScopesGrow.nil_iff.1 hg.scopes]
    exact .nil
  | piece _ hq hbefore ih =>
    obtain ⟨w', hw, hc⟩ := ih
    have hall := Part.resolveEach_pieces (by rw [hq]; simp) hw
    rw [hq, List.map_append, Part.resolveEach_append] at hall
    obtain ⟨w₁, h₁, hrest⟩ := hall
    cases hbefore.symm.trans h₁
    obtain ⟨w₂, h₂, hafter⟩ := Except.bind_eq_ok.1 hrest
    exact ⟨w₂, h₂, Layer.cover_assure.2 (hc.of_grow (Part.resolveEach_grows hafter).scopes)⟩
  | @literal Γ w f _ ih =>
    obtain ⟨w', hw, hc⟩ := ih
    obtain ⟨after, hafter, h⟩ := Except.bind_eq_ok.1 hw
    cases h
    exact ⟨after, hafter, Layer.cover_assure.2 hc⟩
  | @body Γ w after title params body line _ hafter ih =>
    obtain ⟨w', hw⟩ := ih
    have hg := Part.resolve_grows (p := .stmts body) hafter
    exact ⟨after, hafter, cover_enter hg.scopes hw.before⟩
  | @receiver Γ w after f _ hafter ih =>
    obtain ⟨w', hw⟩ := ih
    have hg := Part.resolve_grows (p := .function f) hafter
    exact ⟨after, hafter, cover_enter hg.scopes hw.before⟩
  | value _ ih =>
    obtain ⟨w', hw, hc⟩ := ih
    obtain ⟨after, hafter⟩ := exists_await hw
    exact ⟨after, hafter, Layer.cover_await.2 (hc.of_grow (grow_await hw hafter))⟩
  | @block Γ w after body _ hafter ih =>
    obtain ⟨w', hw⟩ := ih
    have hg := Part.resolve_grows (p := .stmts body) hafter
    exact ⟨after, hafter, cover_enter hg.scopes hw.before⟩
  | loop _ hafter ih =>
    obtain ⟨w', hw⟩ := ih
    exact ⟨_, hafter, cover_enter (Part.resolve_grows hafter).scopes hw.before⟩
  | round _ ih =>
    obtain ⟨w', hw, hc⟩ := ih
    obtain ⟨after, hafter, h⟩ := Except.bind_eq_ok.1 hw
    cases h
    exact ⟨after, hafter, hc⟩
  | methods _ ih =>
    obtain ⟨w', hw, hc⟩ := ih
    obtain ⟨after, hafter, h⟩ := Except.bind_eq_ok.1 hw
    cases h
    exact ⟨after, hafter, Layer.cover_assure.2 hc⟩

end Pass

/-! ## Distances are those found at the references -/

/-- **What a distance leads to**: the nearest scope that knows the name; the innermost one is passed
    over while the first value of the variable is being walked over. -/
theorem Walk.distance?_eq_some_iff {w : Walk} {x : String} {d : Nat} :
    w.distance? x = some d ↔ ∃ hd : d < w.scopes.length, w.scopes[d].contains x = true ∧
      (d = 0 → w.isPending x = false) ∧
      ∀ i (hi : i < d), w.scopes[i].contains x = true → i = 0 ∧ w.isPending x = true := by
  unfold Walk.distance? Walk.nearest?
  cases hp : w.isPending x with
  | false =>
    rw [if_neg Bool.false_ne_true, List.findIdx?_eq_some_iff_getElem]
    simp
  | true =>
    have hne : w.scopes ≠ [] := fun h => by simp [Walk.isPending, h] at hp
    obtain ⟨s, rest, hs⟩ := List.exists_cons_of_ne_nil hne
    simp only [if_true, hs, List.tail_cons, Option.map_eq_some_iff,
      List.findIdx?_eq_some_iff_getElem]
    constructor
    · rintro ⟨e, ⟨he, hx, hbefore⟩, rfl⟩
      refine ⟨by simpa using he, by simpa using hx, nofun, fun i hi hc => ?_⟩
      cases i with
      | zero => exact ⟨rfl, trivial⟩
      | succ i => exact absurd hc (hbefore i (Nat.lt_of_succ_lt_succ hi))
    · rintro ⟨hd, hx, hzero, hbefore⟩
      cases d with
      | zero => exact absurd (hzero rfl) nofun
      | succ d =>
        refine ⟨d, ⟨by simpa using hd, by simpa using hx, fun i hi hc => ?_⟩, rfl⟩
        exact absurd (hbefore (i + 1) (Nat.succ_lt_succ hi) (by simpa using hc)).1 nofun

theorem Walk.Records.lookup_eq {S : Nat → Prop} {w w' : Walk} (h : w.Records S w') {s : Nat}
    (hs : ¬ S s) : w'.distances.lookup s = w.distances.lookup s := by
  obtain ⟨new, e, hnew⟩ := h
  have hn : new.lookup s = none := by
    rw [List.lookup_eq_none_iff]
    intro r hr
    have : s ≠ r.1 := fun hsr => hs (hsr ▸ hnew r hr)
    simpa using this
  rw [e, List.lookup_append, hn, Option.none_or]

namespace Pass

/-- Only the walk over the part itself records distances of its sites. -/
structure Isolated (ds : List (Nat × Nat)) (w : Walk) (part : Part) : Prop where
  nodup : part.sites.Nodup
  before : ∀ s ∈ part.sites, w.distances.lookup s = none
  after : ∀ w', part.resolve w = .ok w' → ∀ s ∈ part.sites, ds.lookup s = w'.distances.lookup s

/-- A part that has all sites of another one, and is walked over in its course. -/
theorem Isolated.inner {ds : List (Nat × Nat)} {w v : Walk} {part q : Part}
    (h : Isolated ds w part) (hs : q.sites = part.sites) (hv : v.distances = w.distances)
    (hafter : ∀ v', q.resolve v = .ok v' →
      ∃ w', part.resolve w = .ok w' ∧ w'.distances = v'.distances) : Isolated ds v q where
  nodup := hs ▸ h.nodup
  before s hm := by rw [hv]; exact h.before s (hs ▸ hm)
  after v' hv' s hm := by
    obtain ⟨w', hw', hd⟩ := hafter v' hv'
    rw [← hd]
    exact h.after w' hw' s (hs ▸ hm)

/-- A piece of a part. -/
theorem Isolated.piece {ds : List (Nat × Nat)} {w w₁ : Walk} {part q : Part}
    {names : List String} {before after : List (Part × List String)} (h : Isolated ds w part)
    (hq : part.pieces = before ++ (q, names) :: after)
    (hbefore : Part.resolveEach (before.map Prod.fst) w = .ok w₁) {w' : Walk}
    (hw' : part.resolve w = .ok w') : Isolated ds w₁ q := by
  have hne : part.pieces ≠ [] := by rw [hq]; simp
  have hperm := Part.sites_pieces hne
  rw [hq, List.flatMap_append, List.flatMap_cons] at hperm
  have hnodup := hperm.nodup_iff.2 h.nodup
  obtain ⟨-, hrest, hdisj⟩ := List.nodup_append.1 hnodup
  obtain ⟨hnq, -, hdisj'⟩ := List.nodup_append.1 hrest
  have hsub : ∀ s ∈ q.sites, s ∈ part.sites := fun s hs =>
    hperm.subset (List.mem_append_right _ (List.mem_append_left _ hs))
  have others (ps : List (Part × List String)) :
      (ps.map Prod.fst).flatMap Part.sites = ps.flatMap fun q => q.1.sites := by
    rw [List.flatMap_map]
  refine ⟨hnq, fun s hs => ?_, fun w₂ hw₂ s hs => ?_⟩
  · have hnot : s ∉ (before.map Prod.fst).flatMap Part.sites := fun hb =>
      hdisj s (others before ▸ hb) s (List.mem_append_left _ hs) rfl
    rw [(Part.resolveEach_records hbefore).lookup_eq hnot]
    exact h.before s (hsub s hs)
  · have hall := Part.resolveEach_pieces hne hw'
    rw [hq, List.map_append, Part.resolveEach_append] at hall
    obtain ⟨v₁, hv₁, hrest⟩ := hall
    cases hbefore.symm.trans hv₁
    obtain ⟨v₂, hv₂, hafter⟩ := Except.bind_eq_ok.1 hrest
    cases hw₂.symm.trans hv₂
    have hnot : s ∉ (after.map Prod.fst).flatMap Part.sites := fun ha =>
      hdisj' s hs s (others after ▸ ha) rfl
    rw [h.after w' hw' s (hsub s hs), (Part.resolveEach_records hafter).lookup_eq hnot]

/-- **Each part of an accepted program records the distances of its sites alone.** -/
theorem Visits.isolated {p : Pass} {ds : List (Nat × Nat)} (hp : p.Accepts ds)
    (hn : (Part.stmts p.program).sites.Nodup) {Γ : List Layer} {w : Walk} {part : Part}
    (h : p.Visits Γ w part) : Isolated ds w part := by
  induction h with
  | start =>
    refine ⟨hn, fun _ _ => rfl, ?_⟩
    intro w' hw' _ _
    obtain ⟨v, hv, hd⟩ := Except.bind_eq_ok.1 hp
    cases hd
    cases hw'.symm.trans hv
    rfl
  | piece hv hq hbefore ih =>
    obtain ⟨w', hw', -⟩ := hv.passes hp
    exact ih.piece hq hbefore hw'
  | @literal Γ w f hv ih =>
    obtain ⟨w', hw', -⟩ := hv.passes hp
    refine ih.inner rfl (w.distances_title f) fun v' hv' => ⟨w', hw', ?_⟩
    obtain ⟨t, ht, h'⟩ := Except.bind_eq_ok.1 hw'
    cases h'
    cases ht.symm.trans hv'
    rfl
  | body hv hafter ih =>
    obtain ⟨w', hw', -⟩ := hv.passes hp
    refine ih.inner rfl rfl fun v' hv' => ⟨w', hw', ?_⟩
    obtain ⟨u, hu, h⟩ := Except.bind_eq_ok.1 hw'
    obtain ⟨t, ht, h'⟩ := Except.bind_eq_ok.1 hu
    cases h'
    cases h
    cases ht.symm.trans hv'
    rfl
  | receiver hv hafter ih =>
    obtain ⟨w', hw', -⟩ := hv.passes hp
    refine ih.inner rfl rfl fun v' hv' => ⟨w', hw', ?_⟩
    obtain ⟨t, ht, h'⟩ := exists_receiver hw'
    cases ht.symm.trans hv'
    exact h'
  | @value Γ w name value hv ih =>
    obtain ⟨w', hw', -⟩ := hv.passes hp
    exact ih.inner rfl (w.await_distances _) fun v' hv' => ⟨w', hw', distances_await hw' hv'⟩
  | block hv hafter ih =>
    obtain ⟨w', hw', -⟩ := hv.passes hp
    refine ih.inner rfl rfl fun v' hv' => ⟨w', hw', ?_⟩
    obtain ⟨t, ht, h'⟩ := Except.bind_eq_ok.1 hw'
    cases h'
    cases ht.symm.trans hv'
    rfl
  | loop hv hafter ih =>
    obtain ⟨w', hw', -⟩ := hv.passes hp
    refine ih.inner rfl rfl fun v' hv' => ⟨w', hw', ?_⟩
    obtain ⟨t, ht, h'⟩ := Except.bind_eq_ok.1 hw'
    cases h'
    cases ht.symm.trans hv'
    rfl
  | round hv ih =>
    obtain ⟨w', hw', -⟩ := hv.passes hp
    refine ih.inner rfl rfl fun v' hv' => ⟨w', hw', ?_⟩
    obtain ⟨t, ht, h'⟩ := Except.bind_eq_ok.1 hw'
    cases h'
    cases ht.symm.trans hv'
    rfl
  | @methods Γ w name methods hv ih =>
    obtain ⟨w', hw', -⟩ := hv.passes hp
    refine ih.inner rfl (w.distances_bind _) fun v' hv' => ⟨w', hw', ?_⟩
    obtain ⟨t, ht, h'⟩ := Except.bind_eq_ok.1 hw'
    cases h'
    cases ht.symm.trans hv'
    rfl

/-- The walk over a program comes to no sites but those of the program. -/
theorem Visits.sites_subset {p : Pass} {Γ : List Layer} {w : Walk} {part : Part}
    (h : p.Visits Γ w part) : part.sites ⊆ (Part.stmts p.program).sites := by
  induction h with
  | start => exact List.Subset.refl _
  | @piece Γ w w₁ part before q names after _ hq _ ih =>
    intro s hs
    have hmem : (q, names) ∈ part.pieces := by rw [hq]; simp
    exact ih ((Part.sites_pieces (List.ne_nil_of_mem hmem)).subset
      (List.mem_flatMap.2 ⟨_, hmem, hs⟩))
  | literal _ ih | body _ _ ih | receiver _ _ ih | value _ ih | block _ _ ih | loop _ _ ih
  | round _ ih | methods _ ih => exact ih

/-- At a reference, the distance found there is recorded. -/
theorem Isolated.reference {ds : List (Nat × Nat)} {w w' : Walk} {site : Nat} {name : Name}
    (h : Isolated ds w (.reference site name)) (hw' : w.refer site name = .ok w') :
    ds.lookup site = w.distance? name.text := by
  have hs : site ∈ (Part.reference site name).sites := List.mem_cons_self
  rw [h.after w' hw' site hs, Walk.refer_eq_ok hw', List.lookup_append, h.before site hs,
    Option.or_none]
  cases w.distance? name.text <;> simp

/-- **A program has recorded, at each of its references, the distance found there.** -/
theorem Visits.lookup_eq {p : Pass} {ds : List (Nat × Nat)} (hp : p.Accepts ds)
    (hn : (Part.stmts p.program).sites.Nodup) {Γ : List Layer} {w : Walk} {site : Nat}
    {name : Name} (h : p.Visits Γ w (.reference site name)) :
    ds.lookup site = w.distance? name.text := by
  obtain ⟨w', hw', -⟩ := h.passes hp
  exact (h.isolated hp hn).reference hw'

end Pass

theorem Distances.get?_recordAll (t : Distances) (ds : List (Nat × Nat)) (s : Nat) :
    (t.recordAll ds).get? s = (ds.lookup s).or (t.get? s) := by
  induction ds with
  | nil => rfl
  | cons e ds ih =>
    have hcons : t.recordAll (e :: ds) = (t.recordAll ds).record e.1 e.2 := rfl
    rw [hcons, Distances.get?_record, ih, List.lookup_cons]
    by_cases h : s = e.1
    · simp [h]
    · simp [h, beq_eq_false_iff_ne.2 h]

end Scriptling
