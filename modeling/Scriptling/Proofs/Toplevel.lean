/-
  Toplevel — where a program text binds its names.

  * `Machine.Binds`: a frame binds some names; later machines bind them still;
  * `Eval.Assures`: a computation that succeeds has bound some names in the innermost frame of the
    scope that it was started in; this composes (`Assures.bind`);
  * `Eval.assuring`: so what is run binds the names that it assures (`Stmt.assured`);
  * `Machine.Spares`: of the frames of before, only the innermost one binds more names;
  * `run_binds_here`: a program text binds its names in the frame that is the innermost one where it
    is run, wherever that is.
-/
import Scriptling.Proofs.Steps

namespace Scriptling

/-! ## Names that are bound -/

namespace Machine

/-- A frame binds some names. -/
def Binds (m : Machine) (F : Nat) (names : List String) : Prop :=
  ∀ x ∈ names, (m.frames.frame F).contains x = true

/-- What is bound stays bound. -/
structure Stays (m m' : Machine) : Prop where
  size : m.frames.frames.size ≤ m'.frames.frames.size
  bound : ∀ F x, (m.frames.frame F).contains x = true → (m'.frames.frame F).contains x = true

variable {m m' m₁ : Machine} {F : Nat} {names : List String}

theorem Stays.of_frames (h : m'.frames = m.frames) : m.Stays m' :=
  ⟨Nat.le_of_eq (by rw [h]), fun F x hx => by rwa [h]⟩

theorem Stays.refl (m : Machine) : m.Stays m := .of_frames rfl

theorem Stays.trans (h : m.Stays m₁) (h' : m₁.Stays m') : m.Stays m' :=
  ⟨Nat.le_trans h.size h'.size, fun F x hx => h'.bound F x (h.bound F x hx)⟩

theorem Stays.binds (h : m.Stays m') (hb : m.Binds F names) : m'.Binds F names :=
  fun x hx => h.bound F x (hb x hx)

end Machine

/-- A frame that is not there binds nothing. -/
theorem Frames.contains_of_size_le {fs : Frames Value} {F : Nat} (h : fs.frames.size ≤ F)
    (x : String) : (fs.frame F).contains x = false := by
  unfold Frames.frame
  rw [Array.getElem?_eq_none h]
  exact Bindings.contains_empty x

namespace Machine

theorem stays_set (m : Machine) (F : Nat) (x : String) (v : Value) :
    m.Stays { m with frames := m.frames.set F x v } := by
  refine ⟨Nat.le_of_eq Array.size_modify.symm, fun G y hy => ?_⟩
  rw [Frames.frame_set]
  split
  · exact (Bindings.contains_set ..).2 (.inr hy)
  · exact hy

theorem stays_child (m : Machine) (base scope : Chain) (b : Bindings Value) :
    m.Stays { m with scope := scope, frames := (m.frames.child base b).2 } := by
  refine ⟨by simp [Frames.child], fun F x hx => ?_⟩
  rw [Frames.frame_child]
  split
  · next hF =>
    rw [hF, Frames.contains_of_size_le (Nat.le_refl _)] at hx
    cases hx
  · exact hx

theorem closed_stays : Closed Stays where
  refl := .refl
  trans := .trans
  identity _ _ := .of_frames rfl
  frame m base b := m.stays_child base m.scope b
  inside {m m₁ scope frames} hnew h := by
    obtain ⟨base, b, hchild⟩ := hnew
    cases hchild
    exact ((m.stays_child base _ b).trans h).trans (.of_frames rfl)
  define m x v := by
    unfold Frames.define
    split
    · exact .refl m
    · exact m.stays_set _ x v
  write _ v := stays_set _ _ _ v
  print _ _ := .of_frames rfl
  object _ := .of_frames rfl
  field _ _ _ _ := .of_frames rfl
  hear _ _ := .of_frames rfl
  tick _ := .of_frames rfl
  parse h := by
    obtain ⟨_, -, rfl, -⟩ := Eval.parseText_eq h
    exact .of_frames rfl
  load h := by
    obtain ⟨_, _, rfl⟩ := Eval.load_eq_with h
    exact .of_frames rfl

/-- What is bound is bound on every later machine. -/
theorem Later.stays {m m' : Machine} (h : m.Later m') : m.Stays m' :=
  h.respects closed_stays fun m base b => m.stays_child base _ b

end Machine

/-! ## Computations that bind names -/

/-- The names that a statement has bound in the scope around it, by how it has completed. -/
def Stmt.assuredBy (s : Stmt) : Completion → List String
  | .normal => s.assured
  | _ => []

theorem Stmt.assuredBy_subset (s : Stmt) (c : Completion) : s.assuredBy c ⊆ s.assured := by
  cases c with
  | normal => exact List.Subset.refl _
  | broken | continued | returned => exact List.nil_subset _

namespace Eval

variable {α β : Type} {F : Nat}

/-- **A computation that succeeds has bound some names in the innermost frame of its scope**, which
    are given by its result. -/
structure Assures (F : Nat) (names : α → List String) (act : Eval α) : Prop where
  respects : ∀ {R}, Machine.Closed R → Respects R act
  binds : ∀ m a m', m.scope.head? = some F → F < m.frames.frames.size →
    act m = some (.ok a, m') → m'.Binds F (names a)

namespace Assures

/-! ### Composition -/

theorem mono {names names' : α → List String} {act : Eval α} (h : Assures F names act)
    (hn : ∀ a, names' a ⊆ names a) : Assures F names' act where
  respects := h.respects
  binds m a m' hF hsize hr x hx := h.binds m a m' hF hsize hr x (hn a hx)

/-- Nothing has to be bound. -/
theorem none {act : Eval α} (h : ∀ {R}, Machine.Closed R → Respects R act) :
    Assures F (fun _ => []) act where
  respects := h
  binds _ _ _ _ _ _ := List.forall_mem_nil _

theorem throw {names : α → List String} (e : Error) :
    Assures F names (MonadExcept.throw e : Eval α) where
  respects hR := .throw hR e
  binds _ _ _ _ _ h := nomatch h

theorem exhausted {names : α → List String} : Assures F names (Eval.exhausted : Eval α) where
  respects _ := .exhausted
  binds _ _ _ _ _ h := nomatch h

/-- What has been bound first is bound in the end. -/
theorem bind {first : α → List String} {rest : α → β → List String} {names : β → List String}
    {act : Eval α} {f : α → Eval β} (h : Assures F first act) (hf : ∀ a, Assures F (rest a) (f a))
    (hn : ∀ a b, names b ⊆ first a ++ rest a b) : Assures F names (act >>= f) where
  respects hR := .bind hR (h.respects hR) fun a => (hf a).respects hR
  binds m b m' hF hsize hr x hx := by
    obtain ⟨a, m₁, h₁, h₂⟩ := bind_eq_ok.1 hr
    have scope : m₁.scope = m.scope := h.respects Machine.closed_scope _ _ _ h₁
    have before : m.Stays m₁ := h.respects Machine.closed_stays _ _ _ h₁
    have after : m₁.Stays m' := (hf a).respects Machine.closed_stays _ _ _ h₂
    rcases List.mem_append.1 (hn a b hx) with hx | hx
    · exact after.bound F x (h.binds _ _ _ hF hsize h₁ x hx)
    · exact (hf a).binds _ _ _ (scope ▸ hF) (Nat.lt_of_lt_of_le hsize before.size) h₂ x hx

/-- What comes after a computation may bind anything. -/
theorem before {names : α → List String} {act : Eval α} {f : α → Eval β} {all : β → List String}
    (h : Assures F names act) (hf : ∀ {R}, Machine.Closed R → ∀ a, Respects R (f a))
    (hn : ∀ a b, all b ⊆ names a) : Assures F all (act >>= f) :=
  h.bind (fun a => none fun hR => hf hR a) fun a b => by
    rw [List.append_nil]
    exact hn a b

/-- What comes before a computation may bind anything. -/
theorem after {names : β → List String} {act : Eval α} {f : α → Eval β}
    (h : ∀ {R}, Machine.Closed R → Respects R act) (hf : ∀ a, Assures F names (f a)) :
    Assures F names (act >>= f) :=
  (none h).bind hf fun _ _ => List.Subset.refl _

/-! ### Declarations -/

theorem define (x : String) (v : Value) : Assures F (fun _ => [x]) (Eval.define x v) where
  respects hR := .define hR x v
  binds m a m' hF hsize hr := by
    obtain ⟨base, hscope⟩ : ∃ base, m.scope = F :: base := by
      cases hs : m.scope with
      | nil => simp [hs] at hF
      | cons G base =>
        rw [hs] at hF
        cases hF
        exact ⟨base, rfl⟩
    have defined : m' = { m with frames := m.frames.set F x v } := by
      have step : Eval.define x v m =
          some (.ok (), { m with frames := m.frames.define m.scope x v }) := rfl
      rw [step, hscope] at hr
      cases hr
      rw [Frames.define, hscope]
    rw [defined]
    intro y hy
    rw [List.mem_singleton.1 hy, Frames.frame_set, if_pos ⟨rfl, hsize⟩]
    exact (Bindings.contains_set ..).2 (.inl rfl)

theorem declareStruct (name : Name) (methods : List Function) :
    Assures F (fun _ => [name.text]) (Eval.declareStruct name methods) :=
  (define name.text .null).before (fun hR _ =>
    .bind hR ((logic_respects hR).closures methods _) fun _ =>
      .bind hR (logic_respects hR).freshIdentity fun _ => .assign hR _ _)
    fun _ _ => List.Subset.refl _

end Assures

/-! ## What is run -/

/-- What is run with some fuel binds the names that it assures. -/
structure Assuring (F k : Nat) : Prop where
  evaluate e : Assures F (fun _ => e.assured) (Eval.evaluate k e)
  evaluateAll es : Assures F (fun _ => Expr.assuredAll es) (Eval.evaluateAll k es)
  evaluateOpt e : Assures F (fun _ => Expr.assuredOpt e) (Eval.evaluateOpt k e)
  loop condition step body :
    Assures F (fun _ => Expr.assuredOpt condition) (Eval.loop k condition step body)
  execute s : Assures F s.assuredBy (Eval.execute k s)
  interpret ss : Assures F (fun _ => Stmt.assuredAll ss) (Eval.interpret k ss)

theorem assuring_zero : Assuring F 0 where
  evaluate _ := .exhausted
  evaluateAll _ := .exhausted
  evaluateOpt _ := .exhausted
  loop _ _ _ := .exhausted
  execute _ := .exhausted
  interpret _ := .exhausted

namespace Assuring

variable {k : Nat} (ih : Assuring F k)
include ih

theorem evaluate_succ (e : Expr) : Assures F (fun _ => e.assured) (Eval.evaluate (k + 1) e) := by
  have kept {R} (hR : Machine.Closed R) := Eval.respects hR k
  unfold Eval.evaluate
  cases e with
  | literal value => exact .none fun hR => .pure hR _
  | group e => exact ih.evaluate e
  | unary op line e =>
    exact (ih.evaluate e).before (fun hR _ => .ofExcept hR _) fun _ _ => List.Subset.refl _
  | binary op line l r =>
    exact (ih.evaluate l).bind (fun _ => (ih.evaluate r).before (fun hR _ => .ofExcept hR _)
      fun _ _ => List.Subset.refl _) fun _ _ => List.Subset.refl _
  | logical op l r =>
    refine (ih.evaluate l).before (fun hR a => ?_) fun _ _ => List.Subset.refl _
    split
    · exact .pure hR a
    · exact (kept hR).evaluate r
  | ternary c y n =>
    refine (ih.evaluate c).before (fun hR v => ?_) fun _ _ => List.Subset.refl _
    split
    · exact (kept hR).evaluate y
    · exact (kept hR).evaluate n
  | «variable» site name => exact .none fun hR => .read hR site name
  | this site line => exact .none fun hR => .read hR site _
  | assign site name value =>
    exact (ih.evaluate value).before (fun hR v => .bind hR (.write hR site name v) fun _ =>
      .pure hR v) fun _ _ => List.Subset.refl _
  | call callee line arguments =>
    refine (ih.evaluate callee).bind (fun f => (ih.evaluateAll arguments).before (fun hR args => ?_)
      fun _ _ => List.Subset.refl _) fun _ _ => List.Subset.refl _
    split
    · split
      · exact (kept hR).call _ args
      · exact .throw hR _
    · exact .throw hR _
  | get object name =>
    refine (ih.evaluate object).before (fun hR o => ?_) fun _ _ => List.Subset.refl _
    split
    · exact (logic_respects hR).property _ _ _
    · exact .throw hR _
  | set object name value =>
    refine (ih.evaluate object).bind (fun o => ?_)
      fun _ _ => List.Subset.refl (object.assured ++ value.assured)
    split
    · exact (ih.evaluate value).before (fun hR v =>
        .bind hR ((logic_respects hR).setField _ _ v) fun _ => .pure hR v)
        fun _ _ => List.Subset.refl _
    · exact .throw _
  | function f =>
    refine .after (fun hR => (logic_respects hR).makeClosure f) fun c => ?_
    unfold Expr.assured
    cases f.name with
    | none => exact .none fun hR => .pure hR _
    | some name =>
      exact (Assures.define name.text _).before (fun hR _ => .pure hR _)
        fun _ _ => List.Subset.refl _

theorem evaluateAll_succ (es : List Expr) :
    Assures F (fun _ => Expr.assuredAll es) (Eval.evaluateAll (k + 1) es) := by
  cases es with
  | nil => exact .none fun hR => .pure hR _
  | cons e es =>
    exact (ih.evaluate e).bind (fun _ => (ih.evaluateAll es).before (fun hR _ => .pure hR _)
      fun _ _ => List.Subset.refl _) fun _ _ => List.Subset.refl _

theorem evaluateOpt_succ (e : Option Expr) :
    Assures F (fun _ => Expr.assuredOpt e) (Eval.evaluateOpt (k + 1) e) := by
  cases e with
  | none => exact .none fun hR => .pure hR _
  | some e =>
    exact (ih.evaluate e).before (fun hR _ => .pure hR _) fun _ _ => List.Subset.refl _

theorem loop_succ (condition step : Option Expr) (body : Stmt) :
    Assures F (fun _ => Expr.assuredOpt condition) (Eval.loop (k + 1) condition step body) := by
  have kept {R} (hR : Machine.Closed R) := Eval.respects hR k
  unfold Eval.loop
  refine (ih.evaluateOpt condition).before (fun hR v => ?_) fun _ _ => List.Subset.refl _
  split
  · refine .bind hR ((kept hR).execute body) fun c => ?_
    split
    · exact .pure hR _
    · exact .pure hR _
    · exact .bind hR ((kept hR).evaluateOpt step) fun _ => (kept hR).loop condition step body
  · exact .pure hR _

theorem execute_succ (s : Stmt) : Assures F s.assuredBy (Eval.execute (k + 1) s) := by
  have kept {R} (hR : Machine.Closed R) := Eval.respects hR k
  have free (hs : s.assured = []) : Assures F s.assuredBy (Eval.execute (k + 1) s) :=
    (Assures.none fun hR => (Eval.respects hR (k + 1)).execute s).mono fun c =>
      hs ▸ s.assuredBy_subset c
  cases s with
  | expression e =>
    exact (ih.evaluate e).before (fun hR _ => .pure hR _) fun _ => Stmt.assuredBy_subset _
  | print e =>
    exact (ih.evaluate e).before (fun hR _ => .bind hR (.print hR _) fun _ => .pure hR _)
      fun _ => Stmt.assuredBy_subset _
  | «let» name value =>
    refine (ih.evaluateOpt value).bind (fun v => (Assures.define name.text _).before
      (fun hR _ => .pure hR _) fun _ _ => List.Subset.refl _) fun _ c x hx => ?_
    rcases List.mem_cons.1 (Stmt.assuredBy_subset _ c hx) with rfl | hx
    · exact List.mem_append_right _ List.mem_cons_self
    · exact List.mem_append_left _ hx
  | «if» condition yes no =>
    refine (ih.evaluate condition).before (fun hR v => ?_) fun _ => Stmt.assuredBy_subset _
    split
    · exact (kept hR).execute yes
    · split
      · exact (kept hR).execute _
      · exact .pure hR _
  | «while» condition body =>
    exact (ih.loop (some condition) none body).mono (Stmt.assuredBy_subset _)
  | struct name methods =>
    exact (Assures.declareStruct name methods).before (fun hR _ => .pure hR _)
      fun _ => Stmt.assuredBy_subset _
  | block | «for» | «break» | «continue» | «return» => exact free rfl

theorem interpret_succ (ss : List Stmt) :
    Assures F (fun _ => Stmt.assuredAll ss) (Eval.interpret (k + 1) ss) := by
  have kept {R} (hR : Machine.Closed R) := Eval.respects hR k
  cases ss with
  | nil => exact .none fun hR => .flush hR
  | cons s ss =>
    -- a statement that has not completed normally ends the program
    have goesOn (c : Completion) : Assures F (fun _ => (match c with
          | .normal => Stmt.assuredAll ss
          | _ => Stmt.assuredAll (s :: ss)))
        (Eval.settle c >>= fun _ => Eval.interpret k ss) := by
      cases c with
      | normal => exact .after (fun hR => .pure hR _) fun _ => ih.interpret ss
      | broken | continued | returned =>
        exact (Assures.throw _).bind (fun _ => .none fun hR => (kept hR).interpret ss)
          fun _ _ => List.subset_append_left _ _
    refine (ih.execute s).bind goesOn fun c _ => ?_
    cases c with
    | normal => exact List.Subset.refl _
    | broken | continued | returned => exact List.Subset.refl _

theorem succ : Assuring F (k + 1) where
  evaluate := ih.evaluate_succ
  evaluateAll := ih.evaluateAll_succ
  evaluateOpt := ih.evaluateOpt_succ
  loop := ih.loop_succ
  execute := ih.execute_succ
  interpret := ih.interpret_succ

end Assuring

/-- **What is run binds the names that it assures**, in the innermost frame of its scope. -/
theorem assuring (F : Nat) : ∀ k, Assuring F k
  | 0 => assuring_zero
  | k + 1 => (assuring F k).succ

end Eval

/-! ## Frames that bind no more names -/

/-- **Of the frames that a machine had, only one binds more names on another machine**, on which
    that frame is the innermost one, or a newer one is. -/
structure Machine.Spares (before : Machine) (F : Nat) (m : Machine) : Prop where
  size : before.frames.frames.size ≤ m.frames.frames.size
  innermost : ∀ G, m.scope.head? = some G → G = F ∨ before.frames.frames.size ≤ G
  bound : ∀ G < before.frames.frames.size, G ≠ F → ∀ x,
    (m.frames.frame G).contains x = (before.frames.frame G).contains x

namespace Machine

variable {before m : Machine} {F : Nat}

theorem Spares.of_frames {m' : Machine} (h : before.Spares F m) (hf : m'.frames = m.frames)
    (hs : m'.scope = m.scope) : before.Spares F m' :=
  ⟨hf ▸ h.size, hs ▸ h.innermost, hf ▸ h.bound⟩

theorem Spares.set (h : before.Spares F m) {G : Nat} {x : String}
    (hG : (m.frames.frame G).contains x = true ∨ m.scope.head? = some G) (v : Value) :
    before.Spares F { m with frames := m.frames.set G x v } where
  size := Nat.le_trans h.size (Nat.le_of_eq Array.size_modify.symm)
  innermost := h.innermost
  bound H hH hne y := by
    rw [← h.bound H hH hne, Frames.frame_set]
    split
    · next he =>
      obtain ⟨rfl, -⟩ := he
      rcases hG with hx | hG
      · rw [Bool.eq_iff_iff, Bindings.contains_set]
        exact ⟨fun hy => hy.elim (fun e => e ▸ hx) id, .inr⟩
      · rcases h.innermost _ hG with rfl | hG
        · exact absurd rfl hne
        · omega
    · rfl

theorem Spares.enter (h : before.Spares F m) (base : Chain) (b : Bindings Value) :
    before.Spares F { m with
      scope := m.frames.frames.size :: base, frames := (m.frames.child base b).2 } where
  size := Nat.le_trans h.size (m.stays_child base _ b).size
  innermost G hG := by
    cases hG
    exact .inr h.size
  bound G hG hne x := by
    rw [← h.bound G hG hne, Frames.frame_child, if_neg]
    exact Nat.ne_of_lt (Nat.lt_of_lt_of_le hG h.size)

theorem closed_spares (before : Machine) (F : Nat) :
    Closed fun m m' => before.Spares F m → before.Spares F m' where
  refl _ h := h
  trans h h' hm := h' (h hm)
  identity _ _ h := h.of_frames rfl rfl
  frame m base b h := ⟨(h.enter base b).size, h.innermost, (h.enter base b).bound⟩
  inside {m m₁ scope frames} hnew hin h := by
    obtain ⟨base, b, hchild⟩ := hnew
    cases hchild
    have left := hin (h.enter base b)
    exact ⟨left.size, h.innermost, left.bound⟩
  define m x v h := by
    unfold Frames.define
    split
    · exact h
    · next hs => exact h.set (.inr (by rw [hs]; rfl)) v
  write hx v h := h.set (.inl hx) v
  print _ _ h := h.of_frames rfl rfl
  object _ h := h.of_frames rfl rfl
  field _ _ _ _ h := h.of_frames rfl rfl
  hear _ _ h := h.of_frames rfl rfl
  tick _ h := h.of_frames rfl rfl
  parse hp h := by
    obtain ⟨_, -, rfl, -⟩ := Eval.parseText_eq hp
    exact h.of_frames rfl rfl
  load hl h := by
    obtain ⟨_, _, rfl⟩ := Eval.load_eq_with hl
    exact h.of_frames rfl rfl

/-- Later machines spare the frames that are spared. -/
theorem Spares.later {m' : Machine} (h : before.Spares F m) (hl : m.Later m') :
    before.Spares F m' :=
  hl.respects (closed_spares before F) (fun _ base b h => h.enter base b) h

end Machine

/-! ## Program texts -/

namespace Machine

/-- A frame binds some names, and if it is that of the globals, the references to globals find
    them there. -/
structure Offers (m : Machine) (F : Nat) (names : List String) : Prop where
  binds : m.Binds F names
  found : F = globalFrame → ∀ site name, Name.text name ∈ names → m.distances.get? site = none →
    m.binder site name = .ok globalFrame

theorem Binds.offers {m : Machine} {F : Nat} {names : List String} (h : m.Binds F names) :
    m.Offers F names where
  binds := h
  found hF site name hx hd := by
    subst hF
    unfold binder Frames.find
    rw [hd]
    simp [globalScope, h _ hx]

theorem Spares.refl {m : Machine} {F : Nat} (hF : m.scope.head? = some F) : m.Spares F m where
  size := Nat.le_refl _
  innermost _ hG := .inl (Option.some.inj (hG.symm.trans hF))
  bound _ _ _ _ := rfl

end Machine

/-- **A program text binds its names where it is run**: in the innermost frame `F` of the scope of
    the function that runs it, which need not be the frame of the globals.
    * When the program has run through, all names that it assures are bound in `F`.
    * So are, from then on, those that a statement or an expression assures that is run in that
      scope; references to globals find them, if `F` is the frame of the globals.
    * No other frame of before comes to bind more names, not even that of the globals. -/
theorem run_binds_here {m m₀ : Machine} {source : String} {program : List Stmt} {F : Nat}
    (hF : m.scope.head? = some F) (hsize : F < m.frames.frames.size)
    (hload : Eval.load source m = some (.ok program, m₀)) (k : Nat) :
    (∀ m', Eval.interpret k program m₀ = some (.ok (), m') →
      m'.Offers F (Stmt.assuredAll program)) ∧
    (∀ j s m₁ m₂ m₃, Reaches ⟨k, .program program, m₀⟩ ⟨j, .stmt s, m₁⟩ → m₁.scope = m.scope →
      Eval.execute j s m₁ = some (.ok .normal, m₂) → m₂.Later m₃ → m₃.Offers F s.assured) ∧
    (∀ j e m₁ v m₂ m₃, Reaches ⟨k, .program program, m₀⟩ ⟨j, .expr e, m₁⟩ → m₁.scope = m.scope →
      Eval.evaluate j e m₁ = some (.ok v, m₂) → m₂.Later m₃ → m₃.Offers F e.assured) ∧
    ∀ q, Reaches ⟨k, .program program, m₀⟩ q → ∀ G < m.frames.frames.size, G ≠ F → ∀ x,
      (q.machine.frames.frame G).contains x = (m.frames.frame G).contains x := by
  obtain ⟨hframes, hscope⟩ : m₀.frames = m.frames ∧ m₀.scope = m.scope := by
    obtain ⟨_, _, rfl⟩ := Eval.load_eq_with hload
    exact ⟨rfl, rfl⟩
  have here {q : Point} (h : Reaches ⟨k, .program program, m₀⟩ q) (hs : q.machine.scope = m.scope) :
      q.machine.scope.head? = some F ∧ F < q.machine.frames.frames.size := by
    have stays : m₀.Stays q.machine := (Machine.Later.reaches h).stays
    exact ⟨hs ▸ hF, Nat.lt_of_lt_of_le (hframes ▸ hsize) stays.size⟩
  refine ⟨fun m' hr => ?_, fun j s m₁ m₂ m₃ hq hs hr hl => ?_, fun j e m₁ v m₂ m₃ hq hs hr hl => ?_,
    fun q hq G hG hne x => ?_⟩
  · have bound := ((Eval.assuring F k).interpret program).binds m₀ () m' (hscope ▸ hF)
      (hframes ▸ hsize) hr
    exact bound.offers
  · obtain ⟨hF₁, hsize₁⟩ := here hq hs
    exact (hl.stays.binds (((Eval.assuring F j).execute s).binds m₁ _ m₂ hF₁ hsize₁ hr)).offers
  · obtain ⟨hF₁, hsize₁⟩ := here hq hs
    exact (hl.stays.binds (((Eval.assuring F j).evaluate e).binds m₁ v m₂ hF₁ hsize₁ hr)).offers
  · have spared : m.Spares F m₀ := (Machine.Spares.refl hF).of_frames hframes hscope
    exact (spared.later (.reaches hq)).bound G hG hne x

/-- A machine in a block. -/
def inBlock : Machine :=
  let m := Session.start hostLibrary relay {} 0
  { m with scope := m.frames.frames.size :: m.scope, frames := (m.frames.child m.scope .empty).2 }

/-- The statements of an accepted text, and the machine that has loaded them. -/
def loaded? (source : String) (m : Machine) : Option (List Stmt × Machine) :=
  match Eval.load source m with
  | some (.ok program, m₀) => some (program, m₀)
  | _ => none

theorem load_of_loaded? {source : String} {m m₀ : Machine} {program : List Stmt}
    (h : loaded? source m = some (program, m₀)) :
    Eval.load source m = some (.ok program, m₀) := by
  unfold loaded? at h
  split at h
  · next hl => cases h; exact hl
  · cases h

theorem run_binds_here_block :
    ∃ program m₀ m', Eval.load "let x = 1;" inBlock = some (.ok program, m₀) ∧
      Eval.interpret 9 program m₀ = some (.ok (), m') ∧
      m'.Offers 1 (Stmt.assuredAll program) ∧ "x" ∈ Stmt.assuredAll program := by
  have checked : (loaded? "let x = 1;" inBlock).any (fun l =>
      Session.isDone (Eval.interpret 9 l.1 l.2) && decide ("x" ∈ Stmt.assuredAll l.1)) = true := by
    decide +kernel
  obtain ⟨⟨program, m₀⟩, hl, hchecked⟩ := (Option.any_eq_true _ _).1 checked
  obtain ⟨hdone, hx⟩ := Bool.and_eq_true_iff.1 hchecked
  obtain ⟨m', hr⟩ := Session.exists_of_isDone hdone
  have hload := load_of_loaded? hl
  exact ⟨program, m₀, m', hload, hr, (run_binds_here rfl (by decide) hload 9).1 m' hr,
    of_decide_eq_true hx⟩

/-- A text that a function runs in a block: it binds its name in the block, and misses it then among
    the globals. -/
def nestingProgram : String := "\x7b nested(\"let x = 1; print x;\"); \x7d"

theorem run_binds_in_block :
    ∃ m', Eval.run 30 nestingProgram (Session.start hostLibrary relay {} 0) =
        some (.error (.runtime 1 (.undefinedVariable "x")), m') ∧
      (m'.frames.frame 1).contains "x" = true ∧
      (m'.frames.frame globalFrame).contains "x" = false := by
  have checked : (Eval.run 30 nestingProgram (Session.start hostLibrary relay {} 0)).map
      (fun r => (r.1, (r.2.frames.frame 1).contains "x",
        (r.2.frames.frame globalFrame).contains "x")) =
      some (.error (.runtime 1 (.undefinedVariable "x")), true, false) := by decide +kernel
  obtain ⟨⟨r, m'⟩, hr, he⟩ := Option.map_eq_some_iff.1 checked
  simp only [Prod.mk.injEq] at he
  obtain ⟨rfl, hblock, hglobal⟩ := he
  exact ⟨m', hr, hblock, hglobal⟩

end Scriptling
