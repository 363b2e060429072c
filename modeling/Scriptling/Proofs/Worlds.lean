/-
  Worlds — what a running program can rely on.

  A world says of each frame which names it may bind, which it binds and of which variables
  the declaration has begun, and which programs have been walked over.  While programs run,
  worlds only grow.

  * `World.Holds`: a frame is as an open scope of the walk has it;
  * `World.Runs`: what may be run in a scope, because the walk came to it with matching
    scopes;
  * `World.Allows`: the values whose functions may be called; all of this is kept when the
    world grows (`World.Sub`);
  * `World.Placed.piece` and its companions: from a part to what it runs.
-/
import Scriptling.Proofs.Reach
import Scriptling.Proofs.Sites
import Scriptling.Proofs.Strays

namespace Scriptling

/-- What can happen in a session. -/
structure Mode where
  /-- The host has registered functions. -/
  hosted : Prop
  /-- Programs are run that have not been resolved. -/
  raw : Prop

/-- What a running program can rely on. -/
structure World where
  /-- The walks over accepted programs. -/
  passes : Pass → Prop
  /-- How many frames there are. -/
  size : Nat
  /-- The names that a frame may come to bind. -/
  admits : Nat → String → Prop
  /-- The names that a frame binds. -/
  bound : Nat → String → Prop
  /-- The variables of a frame whose declarations have begun. -/
  begun : Nat → String → Prop
  /-- The sites of programs that have not been resolved. -/
  unresolved : Nat → Prop

namespace World

/-! ## Growing worlds -/

/-- What is kept from one step of a session to the next: everything but the names that the
    frame of the globals may come to bind. -/
structure Sub (W V : World) : Prop where
  passes : ∀ p, W.passes p → V.passes p
  size : W.size ≤ V.size
  admits : ∀ F x, 0 < F → F < W.size → (V.admits F x ↔ W.admits F x)
  bound : ∀ F x, W.bound F x → V.bound F x
  begun : ∀ F x, W.begun F x → V.begun F x
  unresolved : ∀ s, W.unresolved s → V.unresolved s

/-- What is kept while a program runs. -/
structure Le (mode : Mode) (W V : World) : Prop extends Sub W V where
  globals : ∀ x, V.admits 0 x ↔ W.admits 0 x
  same : ¬ mode.hosted → ∀ p, V.passes p → W.passes p

variable {mode : Mode} {W V U : World} {scope : Chain}

theorem Sub.refl (W : World) : W.Sub W :=
  ⟨fun _ h => h, Nat.le_refl _, fun _ _ _ _ => Iff.rfl, fun _ _ h => h, fun _ _ h => h,
    fun _ h => h⟩

theorem Sub.trans (h : W.Sub V) (h' : V.Sub U) : W.Sub U where
  passes p hp := h'.passes p (h.passes p hp)
  size := Nat.le_trans h.size h'.size
  admits F x hF hs := (h'.admits F x hF (Nat.lt_of_lt_of_le hs h.size)).trans (h.admits F x hF hs)
  bound F x hb := h'.bound F x (h.bound F x hb)
  begun F x hb := h'.begun F x (h.begun F x hb)
  unresolved s hs := h'.unresolved s (h.unresolved s hs)

theorem Le.refl (mode : Mode) (W : World) : Le mode W W :=
  ⟨.refl W, fun _ => Iff.rfl, fun _ _ h => h⟩

theorem Le.trans (h : Le mode W V) (h' : Le mode V U) : Le mode W U :=
  ⟨h.toSub.trans h'.toSub, fun x => (h'.globals x).trans (h.globals x),
    fun hm p hp => h.same hm p (h'.same hm p hp)⟩

theorem Le.admits_iff (h : Le mode W V) {F : Nat} (hF : F < W.size) (x : String) :
    V.admits F x ↔ W.admits F x := by
  rcases Nat.eq_zero_or_pos F with rfl | hpos
  · exact h.globals x
  · exact h.admits F x hpos hF

/-! ## Frames and scopes -/

/-- A frame is as an open scope of the walk over a program has it. -/
structure Holds (W : World) (p : Pass) (F : Nat) (l : Layer) : Prop where
  since : p.since ≤ F
  pos : 0 < F
  size : F < W.size
  admits : ∀ x, W.admits F x → l.final.contains x = true
  assured : ∀ x ∈ l.assured, W.bound F x
  awaited : ∀ x ∈ l.awaited, W.begun F x

theorem Holds.mono (h : W.Sub V) {p : Pass} {F : Nat} {l : Layer} (hh : W.Holds p F l) :
    V.Holds p F l where
  since := hh.since
  pos := hh.pos
  size := Nat.lt_of_lt_of_le hh.size h.size
  admits x hx := hh.admits x ((h.admits F x hh.pos hh.size).1 hx)
  assured x hx := h.bound F x (hh.assured x hx)
  awaited x hx := h.begun F x (hh.awaited x hx)

/-- The scope has frames, and they exist. -/
def Sees (W : World) (scope : Chain) : Prop := scope ≠ [] ∧ ∀ F ∈ scope, F < W.size

theorem Sees.mono (h : W.Sub V) (hs : W.Sees scope) : V.Sees scope :=
  ⟨hs.1, fun F hF => Nat.lt_of_lt_of_le (hs.2 F hF) h.size⟩

/-- The frames of a scope match the open scopes of the walk.  Where the host may interfere the
    scope can be deeper. -/
structure Fits (mode : Mode) (W : World) (p : Pass) (scope : Chain) (Γ : List Layer) : Prop where
  depth : Γ.length < scope.length
  places : ∀ F ∈ scope, F < W.size
  exact : ¬ mode.hosted → ∃ places, scope = places ++ globalScope ∧
    List.Forall₂ (W.Holds p) places Γ

theorem Fits.mono (h : W.Sub V) {p : Pass} {Γ : List Layer} (hf : W.Fits mode p scope Γ) :
    V.Fits mode p scope Γ where
  depth := hf.depth
  places F hF := Nat.lt_of_lt_of_le (hf.places F hF) h.size
  exact hm := by
    obtain ⟨places, hs, hl⟩ := hf.exact hm
    exact ⟨places, hs, hl.imp fun _ _ hh => hh.mono h⟩

theorem Fits.sees {p : Pass} {Γ : List Layer} (hf : W.Fits mode p scope Γ) : W.Sees scope :=
  ⟨fun h => by simpa [h] using hf.depth, hf.places⟩

/-- The innermost frame of the scope may bind the names. -/
def Admits (W : World) (scope : Chain) (names : List String) : Prop :=
  ∀ x ∈ names, ∃ F ∈ scope.head?, W.admits F x

/-- The innermost frame of the scope binds the names. -/
def Binds (W : World) (scope : Chain) (names : List String) : Prop :=
  ∀ x ∈ names, ∃ F ∈ scope.head?, W.bound F x

theorem Binds.mono (h : W.Sub V) {names : List String} (hb : W.Binds scope names) :
    V.Binds scope names := fun x hx => by
  obtain ⟨F, hF, hx⟩ := hb x hx
  exact ⟨F, hF, h.bound F x hx⟩

theorem binds_nil (W : World) (scope : Chain) : W.Binds scope [] := List.forall_mem_nil _

theorem binds_append {names names' : List String} :
    W.Binds scope (names ++ names') ↔ W.Binds scope names ∧ W.Binds scope names' :=
  List.forall_mem_append

theorem binds_cons {x : String} {names : List String} :
    W.Binds scope (x :: names) ↔ W.Binds scope [x] ∧ W.Binds scope names := by
  rw [← binds_append, List.singleton_append]

theorem Fits.assure {p : Pass} {Γ : List Layer} {names : List String}
    (hf : W.Fits mode p scope Γ) (hb : W.Binds scope names) :
    W.Fits mode p scope (Layer.assure names Γ) where
  depth := by cases Γ <;> exact hf.depth
  places := hf.places
  exact hm := by
    obtain ⟨places, rfl, hl⟩ := hf.exact hm
    refine ⟨places, rfl, ?_⟩
    cases hl with
    | nil => exact .nil
    | cons hh hrest =>
      refine .cons { hh with assured := fun x hx => ?_ } hrest
      rcases List.mem_append.1 hx with hx | hx
      · obtain ⟨F, hF, hx⟩ := hb x hx
        cases hF
        exact hx
      · exact hh.assured x hx

theorem Fits.await {p : Pass} {Γ : List Layer} {x : String} (hf : W.Fits mode p scope Γ)
    (hb : ∀ F ∈ scope.head?, W.begun F x) : W.Fits mode p scope (Layer.await x Γ) where
  depth := by cases Γ <;> exact hf.depth
  places := hf.places
  exact hm := by
    obtain ⟨places, rfl, hl⟩ := hf.exact hm
    refine ⟨places, rfl, ?_⟩
    cases hl with
    | nil => exact .nil
    | cons hh hrest =>
      refine .cons { hh with awaited := fun y hy => ?_ } hrest
      rcases List.mem_cons.1 hy with rfl | hy
      · exact hb _ rfl
      · exact hh.awaited y hy

/-! ## What may be run, and what may be called -/

/-- **A part may be run in a scope**: the walk over an accepted program came to it with scopes
    that match, or it is from a program that has not been resolved. -/
inductive Runs (mode : Mode) (W : World) (scope : Chain) (part : Part) : Prop
  | resolved {p : Pass} {Γ : List Layer} {w : Walk} : W.passes p → p.Visits Γ w part →
      W.Fits mode p scope Γ → Runs mode W scope part
  | raw : mode.raw → W.Sees scope → (∀ s ∈ part.sites, W.unresolved s) → Runs mode W scope part

theorem Runs.mono (h : W.Sub V) {part : Part} (hr : W.Runs mode scope part) :
    V.Runs mode scope part := by
  cases hr with
  | resolved hp hv hf => exact .resolved (h.passes _ hp) hv (hf.mono h)
  | raw hm hs hu => exact .raw hm (hs.mono h) fun s hm => h.unresolved s (hu s hm)

theorem Runs.sees {part : Part} (hr : W.Runs mode scope part) : W.Sees scope := by
  cases hr with
  | resolved _ _ hf => exact hf.sees
  | raw _ hs _ => exact hs

/-- The methods of a struct may be called. -/
def AllowsMethods (mode : Mode) (W : World) (t : Template) : Prop :=
  ∀ x c, t.methods.get? x = some c → W.Runs mode c.scope (.method c.function)

/-- **The functions in a value may be called.** -/
def Allows (mode : Mode) (W : World) : Value → Prop
  | .callable (.closure c) => W.Runs mode c.scope (.function c.function)
  | .callable (.struct t) | .object t _ => W.AllowsMethods mode t
  | .callable (.native _) => mode.hosted
  | .number _ | .string _ | .bool _ | .null => True

theorem Allows.mono (h : W.Sub V) {v : Value} (hv : W.Allows mode v) : V.Allows mode v := by
  cases v with
  | number | string | bool | null => trivial
  | object t place => exact fun x c hc => (hv x c hc).mono h
  | callable c =>
    cases c with
    | closure c => exact Runs.mono h hv
    | struct t => exact fun x c hc => (hv x c hc).mono h
    | native n => exact hv

theorem allows_plain {v : Value} (hv : v.IsPlain) : W.Allows mode v := by
  cases v with
  | number | string | bool | null => trivial
  | object | callable => exact hv.elim

/-- A part may be run in a scope that may bind the names it declares. -/
structure Placed (mode : Mode) (W : World) (scope : Chain) (part : Part) : Prop where
  runs : W.Runs mode scope part
  admits : ¬ mode.hosted → W.Admits scope part.declares

theorem Placed.mono (h : Le mode W V) {part : Part} (hp : W.Placed mode scope part) :
    V.Placed mode scope part where
  runs := hp.runs.mono h.toSub
  admits hm x hx := by
    obtain ⟨F, hF, ha⟩ := hp.admits hm x hx
    exact ⟨F, hF, (h.admits_iff (hp.runs.sees.2 F (List.mem_of_mem_head? hF)) x).2 ha⟩

/-! ## From parts to what they run -/

/-- The walks have been over accepted programs, when there were no more frames than now. -/
def Proper (W : World) : Prop :=
  ∀ p, W.passes p → p.since ≤ W.size ∧ ∃ ds, p.Accepts ds

/-- A new frame, which binds some of the names that it admits. -/
def push (W : World) (names : List String) (xs : String → Prop) : World where
  passes := W.passes
  size := W.size + 1
  admits F x := if F = W.size then x ∈ names else W.admits F x
  bound F x := W.bound F x ∨ (F = W.size ∧ xs x)
  begun := W.begun
  unresolved := W.unresolved

/-- A name is bound in a frame. -/
def bind (W : World) (F : Nat) (x : String) : World :=
  { W with bound := fun G y => W.bound G y ∨ (G = F ∧ y = x) }

/-- The declaration of a variable begins. -/
def begin (W : World) (F : Nat) (x : String) : World :=
  { W with begun := fun G y => W.begun G y ∨ (G = F ∧ y = x) }

/-- One more program has been walked over. -/
def accept (W : World) (p : Pass) : World := { W with passes := fun q => q = p ∨ W.passes q }

/-- The sites of one more program are not resolved. -/
def leave (W : World) (sites : List Nat) : World :=
  { W with unresolved := fun s => s ∈ sites ∨ W.unresolved s }

/-- The frame of the globals may come to bind other names. -/
def reseat (W : World) (globals : String → Prop) : World :=
  { W with admits := fun F x => if F = 0 then globals x else W.admits F x }

theorem le_push (mode : Mode) (W : World) (names : List String) (xs : String → Prop)
    (h : 0 < W.size) : Le mode W (W.push names xs) where
  passes _ h := h
  size := Nat.le_succ _
  admits F x _ hF := by rw [push]; simp [Nat.ne_of_lt hF]
  bound _ _ h := Or.inl h
  begun _ _ h := h
  unresolved _ h := h
  globals x := by rw [push]; simp [Nat.ne_of_lt h]
  same _ _ h := h

theorem le_bind (mode : Mode) (W : World) (F : Nat) (x : String) : Le mode W (W.bind F x) where
  passes _ h := h
  size := Nat.le_refl _
  admits _ _ _ _ := Iff.rfl
  bound _ _ h := Or.inl h
  begun _ _ h := h
  unresolved _ h := h
  globals _ := Iff.rfl
  same _ _ h := h

theorem le_begin (mode : Mode) (W : World) (F : Nat) (x : String) : Le mode W (W.begin F x) where
  passes _ h := h
  size := Nat.le_refl _
  admits _ _ _ _ := Iff.rfl
  bound _ _ h := h
  begun _ _ h := Or.inl h
  unresolved _ h := h
  globals _ := Iff.rfl
  same _ _ h := h

theorem sub_accept (W : World) (p : Pass) : W.Sub (W.accept p) :=
  { Sub.refl W with passes := fun _ h => Or.inr h }

theorem le_accept (hm : mode.hosted) (W : World) (p : Pass) : Le mode W (W.accept p) :=
  ⟨sub_accept W p, fun _ => Iff.rfl, fun h => absurd hm h⟩

theorem sub_leave (W : World) (sites : List Nat) : W.Sub (W.leave sites) :=
  { Sub.refl W with unresolved := fun _ h => Or.inr h }

theorem sub_reseat (W : World) (globals : String → Prop) : W.Sub (W.reseat globals) :=
  { Sub.refl W with admits := fun F x hF _ => by simp [reseat, Nat.ne_of_gt hF] }

theorem Sees.pos (hs : W.Sees scope) : 0 < W.size := by
  obtain ⟨F, hF⟩ := List.exists_mem_of_ne_nil _ hs.1
  exact Nat.zero_lt_of_lt (hs.2 F hF)

theorem Sees.push (hs : W.Sees scope) (names : List String) (xs : String → Prop) :
    (W.push names xs).Sees (W.size :: scope) := by
  refine ⟨List.cons_ne_nil _ _, ?_⟩
  intro F hF
  rcases List.mem_cons.1 hF with rfl | hF
  · exact Nat.lt_succ_self _
  · exact Nat.lt_succ_of_lt (hs.2 F hF)

theorem admits_push (W : World) (scope : Chain) (names : List String) (xs : String → Prop) :
    (W.push names xs).Admits (W.size :: scope) names := fun x hx =>
  ⟨W.size, rfl, by rw [World.push]; simpa using hx⟩

/-- A scope of its own for what the walk comes to next. -/
theorem Fits.enter {p : Pass} {Γ : List Layer} {names assured : List String} {final : Scope}
    {xs : String → Prop} (hf : W.Fits mode p scope Γ) (hp : p.since ≤ W.size)
    (hn : ∀ x ∈ names, final.contains x = true) (ha : ¬ mode.hosted → ∀ x ∈ assured, xs x) :
    (W.push names xs).Fits mode p (W.size :: scope) (⟨final, assured, []⟩ :: Γ) where
  depth := Nat.succ_lt_succ hf.depth
  places := (hf.sees.push names xs).2
  exact hm := by
    obtain ⟨places, rfl, hl⟩ := hf.exact hm
    have grown := (le_push mode W names xs hf.sees.pos).toSub
    refine ⟨W.size :: places, rfl, .cons ?_ (hl.imp fun _ _ hh => hh.mono grown)⟩
    refine ⟨hp, hf.sees.pos, Nat.lt_succ_self _, fun x hx => ?_, fun x hx => ?_, by simp⟩
    · rw [World.push] at hx
      exact hn x (by simpa using hx)
    · exact Or.inr ⟨rfl, ha hm x hx⟩

end World

theorem Walk.contains_innermost {w : Walk} {x : String} (h : w.Knows x) :
    w.innermost.contains x = true := by
  obtain ⟨s, hs, hx⟩ := h
  unfold Walk.innermost
  rw [List.headD_eq_head?_getD, hs]
  exact hx

/-- A scope that has been entered ends up with the names that are declared in it. -/
theorem Walk.Gains.contains {w after : Walk} {names : List String} {x : String}
    (h : w.Gains names after) (hw : w.scopes ≠ []) (hx : w.Knows x ∨ x ∈ names) :
    after.innermost.contains x = true :=
  Walk.contains_innermost (((h hw).2 x).2 hx)

theorem contains_foldl_params (params : List Name) (s : Scope) (x : String) :
    (params.foldl (fun (s : Scope) (p : Name) => s.set p.text true) s).contains x = true ↔
      x ∈ params.map Name.text ∨ s.contains x = true := by
  induction params generalizing s with
  | nil => simp
  | cons p params ih =>
    rw [List.foldl_cons, ih, Bindings.contains_set, List.map_cons, List.mem_cons]
    tauto

theorem Walk.knows_enterBody (w : Walk) (params : List Name) (x : String) :
    (w.enterBody params).Knows x ↔ x ∈ params.map Name.text := by
  unfold Walk.Knows Walk.enterBody Walk.enter
  simp [contains_foldl_params, Bindings.contains_empty]

namespace World

variable {mode : Mode} {W : World} {scope : Chain}

/-- **A piece may be run where the whole may, once the names that it counts on are bound.** -/
theorem Placed.piece (hW : W.Proper) {part q : Part} {names : List String}
    (h : W.Placed mode scope part) (hq : (q, names) ∈ part.pieces) (hb : W.Binds scope names) :
    W.Placed mode scope q where
  runs := by
    have hne : part.pieces ≠ [] := List.ne_nil_of_mem hq
    cases h.runs with
    | resolved hp hv hf =>
      obtain ⟨-, ds, hds⟩ := hW _ hp
      obtain ⟨w', hw', -⟩ := hv.passes hds
      obtain ⟨before, after, he⟩ := List.append_of_mem hq
      have hall := Part.resolveEach_pieces hne hw'
      rw [he, List.map_append, Part.resolveEach_append] at hall
      obtain ⟨w₁, h₁, -⟩ := hall
      exact .resolved hp (.piece hv he h₁) (hf.assure hb)
    | raw hm hs hu =>
      refine .raw hm hs fun s hsq => hu s ?_
      exact (Part.sites_pieces hne).subset (List.mem_flatMap.2 ⟨_, hq, hsq⟩)
  admits hm x hx := h.admits hm x (Part.declares_pieces _ hq hx)

/-- The function of a literal, once its name is bound. -/
theorem Runs.literal {f : Function} (h : W.Runs mode scope (.expr (.function f)))
    (hb : W.Binds scope (f.name.toList.map Name.text)) : W.Runs mode scope (.function f) := by
  cases h with
  | resolved hp hv hf => exact .resolved hp (.literal hv) (hf.assure hb)
  | raw hm hs hu => exact .raw hm hs hu

/-- The first value of a variable, while it is awaited. -/
theorem Placed.value {name : Name} {value : Option Expr}
    (h : W.Placed mode scope (.stmt (.let name value)))
    (hb : ∀ F ∈ scope.head?, W.begun F name.text) : W.Placed mode scope (.optional value) where
  runs := by
    cases h.runs with
    | resolved hp hv hf => exact .resolved hp (.value hv) (hf.await hb)
    | raw hm hs hu => exact .raw hm hs hu
  admits hm x hx := h.admits hm x (List.mem_cons_of_mem _ hx)

theorem Placed.block (hW : W.Proper) {body : List Stmt}
    (h : W.Placed mode scope (.stmt (.block body))) (xs : String → Prop) :
    (W.push (Stmt.declaresAll body) xs).Placed mode (W.size :: scope) (.stmts body) where
  runs := by
    cases h.runs with
    | resolved hp hv hf =>
      obtain ⟨hsince, ds, hds⟩ := hW _ hp
      obtain ⟨w', hw', -⟩ := hv.passes hds
      obtain ⟨after, hafter, -⟩ := Except.bind_eq_ok.1 hw'
      refine .resolved hp (.block hv hafter) (hf.enter hsince (fun x hx => ?_) (by simp))
      have settled := Part.resolve_settles (p := .stmts body) hafter
      exact settled.gains.contains (List.cons_ne_nil _ _) (Or.inr hx)
    | raw hm hs hu => exact .raw hm (hs.push _ _) hu
  admits _ := admits_push W scope _ _

theorem Placed.clauses (hW : W.Proper) {name : Name} {value condition step : Option Expr}
    {body : Stmt} (h : W.Placed mode scope (.stmt (.for name value condition step body)))
    (xs : String → Prop) :
    (W.push (declaresInLoop name value condition step body) xs).Placed mode (W.size :: scope)
      (.clauses name value condition step body) where
  runs := by
    cases h.runs with
    | resolved hp hv hf =>
      obtain ⟨hsince, ds, hds⟩ := hW _ hp
      obtain ⟨w', hw', -⟩ := hv.passes hds
      obtain ⟨after, hafter, -⟩ := Except.bind_eq_ok.1 hw'
      refine .resolved hp (.loop hv hafter) (hf.enter hsince (fun x hx => ?_) (by simp))
      have gained : (Walk.enter _ .empty).Gains
        (declaresInLoop name value condition step body) after :=
        (Part.resolve_settles (p := .clauses name value condition step body) hafter).gains
      exact gained.contains (List.cons_ne_nil _ _) (Or.inr hx)
    | raw hm hs hu => exact .raw hm (hs.push _ _) hu
  admits _ := admits_push W scope _ _

theorem Placed.round {body : Stmt} (h : W.Placed mode scope (.rounds body)) :
    W.Placed mode scope (.stmt body) where
  runs := by
    cases h.runs with
    | resolved hp hv hf => exact .resolved hp (.round hv) hf
    | raw hm hs hu => exact .raw hm hs hu
  admits := h.admits

/-- The methods of a struct, once its name is bound. -/
theorem Placed.methods {name : Name} {methods : List Function}
    (h : W.Placed mode scope (.stmt (.struct name methods))) (hb : W.Binds scope [name.text]) :
    W.Placed mode scope (.methods methods) where
  runs := by
    cases h.runs with
    | resolved hp hv hf => exact .resolved hp (.methods hv) (hf.assure hb)
    | raw hm hs hu => exact .raw hm hs hu
  admits _ := List.forall_mem_nil _

/-- Each of the methods of a struct. -/
theorem Placed.method (hW : W.Proper) : ∀ {fs : List Function},
    W.Placed mode scope (.methods fs) → ∀ f ∈ fs, W.Runs mode scope (.method f)
  | [], _, _, hf => nomatch hf
  | g :: fs, h, f, hf => by
    rcases List.mem_cons.1 hf with rfl | hf
    · exact (h.piece hW List.mem_cons_self (binds_nil W scope)).runs
    · exact (h.piece hW (List.mem_cons_of_mem _ List.mem_cons_self) (binds_nil W scope)).method hW
        f hf

/-- A method, bound to its receiver. -/
theorem Runs.receiver (hW : W.Proper) {f : Function} (h : W.Runs mode scope (.method f))
    {xs : String → Prop} (hthis : xs "this") :
    (W.push ["this"] xs).Runs mode (W.size :: scope) (.function f) := by
  cases h with
  | resolved hp hv hf =>
    obtain ⟨hsince, ds, hds⟩ := hW _ hp
    obtain ⟨w', hw', -⟩ := hv.passes hds
    obtain ⟨after, hafter, -⟩ := Pass.exists_receiver hw'
    refine .resolved hp (.receiver hv hafter) (hf.enter hsince (fun x hx => ?_) fun _ x hx => ?_)
    · have same := Function.scopes_resolve hafter
      rw [List.mem_singleton.1 hx, Walk.innermost, same]
      exact (Bindings.contains_set ..).2 (Or.inl rfl)
    · rw [List.mem_singleton.1 hx]
      exact hthis
  | raw hm hs hu => exact .raw hm (hs.push _ _) hu

/-- The body of a function, once its parameters are bound. -/
theorem Runs.body (hW : W.Proper) {f : Function} (h : W.Runs mode scope (.function f))
    {xs : String → Prop} (hx : ¬ mode.hosted → ∀ x ∈ f.params.map Name.text, xs x) :
    (W.push (f.params.map Name.text ++ Stmt.declaresAll f.body) xs).Placed mode
      (W.size :: scope) (.stmts f.body) where
  runs := by
    obtain ⟨title, params, body, line⟩ := f
    cases h with
    | resolved hp hv hf =>
      obtain ⟨hsince, ds, hds⟩ := hW _ hp
      obtain ⟨w', hw', -⟩ := hv.passes hds
      obtain ⟨u, hu, -⟩ := Except.bind_eq_ok.1 hw'
      obtain ⟨after, hafter, -⟩ := Except.bind_eq_ok.1 hu
      refine .resolved hp (.body hv hafter) (hf.enter hsince (fun x hx => ?_) hx)
      have settled := Part.resolve_settles (p := .stmts body) hafter
      refine settled.gains.contains (List.cons_ne_nil _ _) ?_
      exact (List.mem_append.1 hx).imp_left (Walk.knows_enterBody _ _ _).2
    | raw hm hs hu => exact .raw hm (hs.push _ _) hu
  admits _ x hx := by
    obtain ⟨F, hF, ha⟩ := admits_push W scope
      (f.params.map Name.text ++ Stmt.declaresAll f.body) xs x (List.mem_append_right _ hx)
    exact ⟨F, hF, ha⟩

end World

end Scriptling
