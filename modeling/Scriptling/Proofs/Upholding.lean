/-
  Upholding — computations that leave each `this` its receiver.

  * `History.Holds`: only what may be called is to be found on a machine;
  * `History.Keeps`: what a computation leaves of a machine;
  * `Eval.Upholds`: a computation keeps a machine, and its result is of a kind; one rule for
    each way to compose computations, and one for each elementary step.
-/
import Scriptling.Proofs.Histories

namespace Scriptling

open Eval

namespace History

variable {H H' : History} {m m₁ m₂ : Machine}

/-! ## Machines -/

/-- **Only what may be called is to be found on a machine.** -/
structure Holds (H : History) (m : Machine) : Prop extends m.Holds (H.kind m) where
  host : m.host.Honest

/-- What a computation leaves of a machine. -/
structure Keeps (H : History) (m m' : Machine) : Prop where
  retains : m.Retains m'
  scope : m'.scope = m.scope
  holds : H.Holds m'

theorem Holds.mono (hH : ∀ c, H c → H' c) (h : H.Holds m) : H'.Holds m where
  toHolds := h.toHolds.mono (kind_le hH (.refl m))
  host := h.host

/-- The scope may be any other. -/
theorem Holds.enter (h : H.Holds m) (scope : Chain) : H.Holds { m with scope := scope } := by
  have hr : m.Retains { m with scope := scope } := .of_eq rfl rfl rfl
  have hm : m.Holds (H.kind { m with scope := scope }) :=
    h.toHolds.mono (kind_le (fun _ h => h) hr)
  exact { hm with host := h.host }

/-- What is of the kind of before is of the kind of after. -/
theorem Holds.keeps (h : H.Holds m) (hr : m.Retains m₁) (hs : m₁.scope = m.scope)
    (hm : m₁.Holds (H.kind m)) (hh : m₁.host = m.host) : H.Keeps m m₁ where
  retains := hr
  scope := hs
  holds :=
    { toHolds := hm.mono (kind_le (fun _ h => h) hr)
      host := by rw [hh]; exact h.host }

theorem Keeps.refl (h : H.Holds m) : H.Keeps m m := ⟨.refl m, rfl, h⟩

theorem Keeps.trans (h : H.Keeps m m₁) (h' : H.Keeps m₁ m₂) : H.Keeps m m₂ :=
  ⟨h.retains.trans h'.retains, h'.scope.trans h.scope, h'.holds⟩

theorem Keeps.kind_le (h : H.Keeps m m₁) : (H.kind m).Le (H.kind m₁) :=
  History.kind_le (fun _ h => h) h.retains

theorem Keeps.runs (h : H.Keeps m m₁) {p : Part} (hp : H.Runs m m.scope p) :
    H.Runs m₁ m₁.scope p := by
  rw [h.scope]
  exact hp.mono (fun _ h => h) h.retains

/-- A name is bound in the innermost frame. -/
theorem Holds.define (h : H.Holds m) {x : String} {v : Value} (hx : x ≠ "this")
    (hv : (H.kind m).Admits v) :
    H.Keeps m { m with frames := m.frames.define m.scope x v } := by
  refine h.keeps (.define m v hx) rfl ?_ rfl
  unfold Frames.define
  split
  · exact h.toHolds
  · exact h.toHolds.set hv

/-- A name is bound in a frame. -/
theorem Holds.set (h : H.Holds m) (F : Nat) {x : String} {v : Value} (hx : x ≠ "this")
    (hv : (H.kind m).Admits v) : H.Keeps m { m with frames := m.frames.set F x v } :=
  h.keeps (.set m F v hx) rfl (h.toHolds.set hv) rfl

/-- There is a new frame. -/
theorem Holds.push (h : H.Holds m) {b : Bindings Value}
    (hb : ∀ x v, b.get? x = some v → (H.kind m).Admits v) (base : Chain) :
    H.Keeps m { m with frames := (m.frames.child base b).2 } :=
  h.keeps (.push m base b) rfl (h.toHolds.push hb base) rfl

/-- Something comes to the knowledge of the host. -/
theorem Holds.hear (h : H.Holds m) {event : HostEvent}
    (he : event.Shows (H.kind m).Admits fun _ => True) : H.Keeps m (m.hear event) :=
  h.keeps (.of_eq rfl rfl rfl) rfl (h.toHolds.hear he) rfl

/-- A change of output, time or identities. -/
theorem Holds.other (h : H.Holds m) (hf : m₁.frames = m.frames) (hs : m₁.scope = m.scope)
    (ho : m₁.objects = m.objects) (hn : m₁.nextSite = m.nextSite)
    (hd : m₁.distances = m.distances) (hh : m₁.host = m.host) (hheard : m₁.heard = m.heard) :
    H.Keeps m m₁ := by
  refine h.keeps (.of_eq hf hn hd) hs ⟨?_, ?_, ?_⟩ hh
  · rw [hf]; exact h.frames
  · rw [ho]; exact h.objects
  · rw [hheard]; exact h.heard

/-- What the host does next is of the kind of what it has heard. -/
theorem Holds.move (h : H.Holds m) : (m.host m.heard).Uses (H.kind m).Admits fun _ => True :=
  h.host (H.kind m).Admits (fun _ => True) (fun _ => Kind.admits_plain) (fun _ => trivial)
    (fun _ _ _ => trivial) m.heard h.heard

end History

/-- **A program text is loaded**, and the program may be run: none of its own `this` stands
    outside of methods, and those of its methods have their distances. -/
theorem History.Holds.load {H : History} {m m₁ : Machine} {source : String}
    {r : Except Error (List Stmt)} (h : H.Holds m) (hl : Eval.load source m = some (r, m₁)) :
    H.Keeps m m₁ ∧ ∀ program, r = .ok program → H.Runs m₁ m₁.scope (.stmts program) := by
  obtain ⟨site, hle, ⟨e, rfl, -, rfl⟩ | ⟨program, ds, rfl, hr, hd, -, hm₁⟩⟩ := Eval.load_eq hl
  · have hk : m.Retains { m with nextSite := site } := .skip m hle
    exact ⟨h.keeps hk rfl { h.toHolds with } rfl, nofun⟩
  · have hk : m.Retains m₁ := hm₁ ▸ .load hd hr
    have hspares := Eval.spares_of_load hl
    have hp : (Pass.of m program).Accepts ds := hr
    refine ⟨h.keeps hk (by rw [hm₁]) ?_ (by rw [hm₁]), fun _ he => ?_⟩
    · rw [hm₁]
      exact { h.toHolds with }
    cases he
    refine ⟨⟨hspares, fun f hf site line n hu => ?_⟩, fun site line n hu => ?_⟩
    · obtain ⟨Γ, w, hv⟩ := Pass.Visits.start.nested hp hf
      have hn : "this" ∉ declaredNames program := fun hx => hspares.named _ hx rfl
      have hlookup := hv.lookup_this hp hd.nodup hn hu
      have hsite : site ∈ (Part.stmts program).sites := by
        obtain ⟨Γ₁, w₁, hv₁, -⟩ := hv.inside hp .receiver
        obtain ⟨Γ₂, w₂, hv₂, -⟩ := hv₁.uses hp hu
        exact hv₂.sites_subset List.mem_cons_self
      rw [hm₁]
      refine ⟨(hd.bounds site hsite).2, ?_⟩
      rw [Distances.get?_recordAll, hlookup, Option.some_or]
    · exact absurd hu (hp.not_uses site line n)

/-! ## Computations -/

namespace Eval

variable {α β : Type} {H : History} {m m₁ : Machine}

/-- **A computation keeps a machine**, and its result is of a kind. -/
def Upholds (H : History) (act : Eval α) (m : Machine) (Q : Kind → α → Prop) : Prop :=
  ∀ r m', act m = some (r, m') → H.Keeps m m' ∧ ∀ a, r = .ok a → Q (H.kind m') a

namespace Upholds

variable {act : Eval α} {Q : Kind → α → Prop}

theorem pure (h : H.Holds m) {a : α} (ha : Q (H.kind m) a) : Upholds H (Pure.pure a) m Q := by
  intro r m' hr
  cases hr
  exact ⟨.refl h, fun _ he => by cases he; exact ha⟩

theorem throw (h : H.Holds m) (e : Error) : Upholds H (throw e : Eval α) m Q := by
  intro r m' hr
  cases hr
  exact ⟨.refl h, nofun⟩

theorem fail (h : H.Holds m) (line : Nat) (fault : RuntimeFault) :
    Upholds H (Eval.fail line fault : Eval α) m Q := .throw h _

theorem ofExcept (h : H.Holds m) {r : Except Error α} (hr : ∀ a, r = .ok a → Q (H.kind m) a) :
    Upholds H (Eval.ofExcept r) m Q := by
  cases r with
  | ok a => exact .pure h (hr a rfl)
  | error e => exact .throw h e

theorem exhausted : Upholds H (Eval.exhausted : Eval α) m Q := fun _ _ hr => nomatch hr

theorem bind {f : α → Eval β} {R : Kind → β → Prop} (h : Upholds H act m Q)
    (hf : ∀ a m₁, act m = some (.ok a, m₁) → H.Keeps m m₁ → Q (H.kind m₁) a →
      Upholds H (f a) m₁ R) : Upholds H (act >>= f) m R := by
  intro r m' hr
  rw [bind_apply] at hr
  rcases hact : act m with _ | ⟨_ | a, m₁⟩
  · rw [hact] at hr; cases hr
  · rw [hact] at hr
    cases hr
    exact ⟨(h _ _ hact).1, nofun⟩
  · rw [hact] at hr
    obtain ⟨hk, ha⟩ := h _ _ hact
    obtain ⟨hk', hb⟩ := hf a m₁ hact hk (ha a rfl) r m' hr
    exact ⟨hk.trans hk', hb⟩

/-- A computation after one whose errors are caught. -/
theorem attempt {f : Except Error α → Eval β} {R : Kind → β → Prop} (h : Upholds H act m Q)
    (hf : ∀ r m₁, act m = some (r, m₁) → H.Keeps m m₁ → (∀ a, r = .ok a → Q (H.kind m₁) a) →
      Upholds H (f r) m₁ R) : Upholds H (Eval.attempt act >>= f) m R := by
  intro r m' hr
  obtain ⟨r₁, m₁, hact, hr⟩ := attempt_bind_eq.1 hr
  obtain ⟨hk, ha⟩ := h _ _ hact
  obtain ⟨hk', hb⟩ := hf r₁ m₁ hact hk ha r m' hr
  exact ⟨hk.trans hk', hb⟩

/-- A computation whose outcome is known. -/
theorem of_eq {r : Except Error α} (ha : act m = some (r, m₁)) (hk : H.Keeps m m₁)
    (hQ : ∀ a, r = .ok a → Q (H.kind m₁) a) : Upholds H act m Q := by
  intro r' m' hr
  cases ha.symm.trans hr
  exact ⟨hk, hQ⟩

/-- A computation after one whose outcome is known. -/
theorem step {f : α → Eval β} {a : α} {R : Kind → β → Prop} (ha : act m = some (.ok a, m₁))
    (hk : H.Keeps m m₁) (h : Upholds H (f a) m₁ R) : Upholds H (act >>= f) m R := by
  intro r m' hr
  have hrest : f a m₁ = some (r, m') := by rwa [bind_apply, ha] at hr
  obtain ⟨hk', hb⟩ := h r m' hrest
  exact ⟨hk.trans hk', hb⟩

/-- A computation in a new scope. -/
theorem inside (hm : H.Holds m) (hQ : ∀ K L a, K.Le L → Q K a → Q L a) {base : Chain}
    {b : Bindings Value} (hb : ∀ x v, b.get? x = some v → (H.kind m).Admits v)
    (h : ∀ scope m₁, newScope base b m = some (.ok scope, m₁) →
      Upholds H act { m₁ with scope := scope } Q) :
    Upholds H (newScope base b >>= fun scope => Eval.within scope act) m Q := by
  refine .step rfl (hm.push hb base) ?_
  intro r m' hr
  obtain ⟨m₁, hact, rfl⟩ := within_eq.1 hr
  obtain ⟨hk, ha⟩ := h _ _ rfl _ _ hact
  have hback : m₁.Retains { m₁ with scope := m.scope } := .of_eq rfl rfl rfl
  refine ⟨⟨.trans ?_ (hk.retains.trans hback), rfl, hk.holds.enter _⟩, fun a hr => ?_⟩
  · exact .of_eq rfl rfl rfl
  · exact hQ _ _ a (History.kind_le (fun _ h => h) hback) (ha a hr)

/-- The outcome of a computation that succeeds. -/
theorem after {a : α} (h : Upholds H act m Q) (ha : act m = some (.ok a, m₁)) :
    H.Keeps m m₁ ∧ Q (H.kind m₁) a := ⟨(h _ _ ha).1, (h _ _ ha).2 a rfl⟩

/-! ### Elementary steps -/

theorem define (hm : H.Holds m) {x : String} {v : Value} (hx : x ≠ "this")
    (hv : (H.kind m).Admits v) : Upholds H (Eval.define x v) m fun _ _ => True :=
  .of_eq rfl (hm.define hx hv) fun _ _ => trivial

theorem read (hm : H.Holds m) (site : Nat) (name : Name) :
    Upholds H (Eval.read site name) m Kind.Admits := by
  refine .step rfl (.refl hm) (.ofExcept hm fun v hv => ?_)
  obtain ⟨F, -, hF⟩ := Except.bind_eq_ok.1 hv
  unfold Frames.value at hF
  split at hF
  · next hu => cases hF; exact hm.frames F name.text _ hu
  · cases hF

theorem write (hm : H.Holds m) (site : Nat) {name : Name} {v : Value} (hx : name.text ≠ "this")
    (hv : (H.kind m).Admits v) : Upholds H (Eval.write site name v) m fun _ _ => True := by
  refine .step rfl (.refl hm) ?_
  cases hb : m.binder site name with
  | error e => exact .of_eq (r := .error e) rfl (.refl hm) nofun
  | ok F => exact .of_eq (r := .ok ()) rfl (hm.set F hx hv) fun _ _ => trivial

theorem assign (hm : H.Holds m) {name : Name} {v : Value} (hx : name.text ≠ "this")
    (hv : (H.kind m).Admits v) : Upholds H (Eval.assign name v) m fun _ _ => True := by
  have assigned := assign_apply name v m
  split at assigned
  · next F hF => exact .of_eq assigned (hm.set F hx hv) fun _ _ => trivial
  · exact .of_eq assigned (.refl hm) nofun

theorem print (hm : H.Holds m) (text : String) :
    Upholds H (Eval.print text) m fun _ _ => True := by
  have written : H.Keeps m { m with sink := (m.sink.write (text ++ "\n")).1 } :=
    hm.other rfl rfl rfl rfl rfl rfl rfl
  refine .step (a := (m.sink.write (text ++ "\n")).2) rfl written ?_
  cases (m.sink.write (text ++ "\n")).2 with
  | true => exact .pure written.holds trivial
  | false => exact .throw written.holds _

theorem flush (hm : H.Holds m) : Upholds H Eval.flush m fun _ _ => True := by
  refine .step rfl (.refl hm) ?_
  split
  · exact .throw hm _
  · exact .pure hm trivial

theorem makeClosure (hm : H.Holds m) (f : Function) :
    Upholds H (Eval.makeClosure f) m fun _ c => c.function = f ∧ c.scope = m.scope :=
  .of_eq (r := .ok ⟨m.nextIdentity, f, m.scope⟩) rfl (hm.other rfl rfl rfl rfl rfl rfl rfl)
    fun _ ha => by cases ha; exact ⟨rfl, rfl⟩

theorem instantiate (hm : H.Holds m) {t : Template} (ht : (H.kind m).AdmitsMethods t) :
    Upholds H (Eval.instantiate t) m Kind.Admits := by
  have hk : H.Keeps m { m with objects := m.objects.push .empty } :=
    hm.keeps (.of_eq rfl rfl rfl) rfl hm.toHolds.pushObject rfl
  refine .of_eq (r := .ok (.object t m.objects.size)) rfl hk fun _ ha => ?_
  cases ha
  exact hk.kind_le.admits (v := .object t m.objects.size) ht

theorem setField (hm : H.Holds m) {place : Nat} {x : String} {v : Value}
    (hv : (H.kind m).Admits v) : Upholds H (Eval.setField place x v) m fun _ _ => True :=
  .of_eq rfl (hm.keeps (.of_eq rfl rfl rfl) rfl (hm.toHolds.setField hv) rfl) fun _ _ => trivial

/-- **A property of an instance is read**: if it is a method, it is bound to the instance. -/
theorem property {k : Nat} {e : Expr} {name : Name} {m₀ : Machine} {t : Template} {place : Nat}
    (hm : H.Holds m) (hc : H ⟨k + 1, .expr (.get e name), m₀⟩)
    (he : evaluate k e m₀ = some (.ok (.object t place), m))
    (ht : (H.kind m).Admits (.object t place)) :
    Upholds H (Eval.property t place name) m Kind.Admits := by
  refine .step rfl (.refl hm) ?_
  dsimp only
  split
  · next v hv => exact .pure hm (hm.objects place name.text v hv)
  · next hfield =>
    split
    · next method hmethod =>
      let bound : Closure :=
        ⟨m.nextIdentity, method.function, m.frames.frames.size :: method.scope⟩
      let b : Bindings Value := Bindings.empty.set "this" (.object t place)
      let after : Machine :=
        { m with frames := (m.frames.child method.scope b).2, nextIdentity := m.nextIdentity + 1 }
      have hbind : bindMethod method (.object t place) m =
          some (.ok (.callable (.closure bound)), after) := rfl
      have hpush := hm.push (fun _ _ => Kind.admits_receiver ht) method.scope
      have hk : H.Keeps m after := hpush.trans (hpush.holds.other rfl rfl rfl rfl rfl rfl rfl)
      refine .of_eq hbind hk fun _ ha => ?_
      cases ha
      have hready : History.Ready after (.method method.function) :=
        .mono hk.retains (ht name.text method hmethod)
      refine ⟨hready.inside .receiver, Or.inl ⟨.object t place, ?_⟩⟩
      refine ⟨.intro hc he hfield hmethod hbind, hready.methods _ .refl, ?_⟩
      refine ⟨m.frames.frames.size, method.scope, rfl, ?_⟩
      have hframe : after.frames.frame m.frames.frames.size = b := by
        rw [Frames.frame_child, if_pos rfl]
      rw [hframe, Bindings.get?_set, if_pos rfl]
    · exact .fail hm _ _

theorem closures {fs : List Function} {table : Bindings Closure} (hm : H.Holds m)
    (ht : ∀ x c, table.get? x = some c → (H.kind m).method c)
    (hfs : ∀ f ∈ fs, History.Ready m (.method f)) :
    Upholds H
      (fs.foldlM (fun table f => do return table.set f.title (← Eval.makeClosure f)) table) m
      fun K table => ∀ x c, table.get? x = some c → K.method c := by
  induction fs generalizing table m with
  | nil => exact .pure hm ht
  | cons f fs ih =>
    obtain ⟨hf, hfs⟩ := List.forall_mem_cons.1 hfs
    rw [List.foldlM_cons]
    refine .bind (Q := fun K table => ∀ x c, table.get? x = some c → K.method c)
      ((makeClosure hm f).bind fun c m₁ _ hk hc => .pure hk.holds fun x d hd => ?_)
      fun table m₁ _ hk ht => ih hk.holds ht fun g hg => (hfs g hg).mono hk.retains
    rw [Bindings.get?_set] at hd
    split at hd
    · cases hd
      have hready : History.Ready m₁ (.method c.function) := by
        rw [hc.1]
        exact hf.mono hk.retains
      exact hready
    · exact hk.kind_le.method d (ht x d hd)

theorem declareStruct {name : Name} {methods : List Function} (hm : H.Holds m)
    (hs : History.Ready m (.stmt (.struct name methods))) :
    Upholds H (Eval.declareStruct name methods) m fun _ _ => True := by
  have hname : name.text ≠ "this" := hs.spares.named _ List.mem_cons_self
  have hmethods : ∀ f ∈ methods, History.Ready m (.method f) := by
    have hall : History.Ready m (.methods methods) := hs.inside .methods
    clear hs
    induction methods with
    | nil => exact List.forall_mem_nil _
    | cons f fs ih =>
      exact List.forall_mem_cons.2
        ⟨hall.inside (.piece (.head _)), ih (hall.inside (.piece (.tail _ (.head _))))⟩
  refine (define (v := .null) hm hname trivial).bind fun _ m₁ _ hk _ => ?_
  refine (closures hk.holds (fun x c hc => by simp at hc)
    fun f hf => (hmethods f hf).mono hk.retains).bind fun table m₂ _ hk₂ ht => ?_
  have hsame : H.Keeps m₂ { m₂ with nextIdentity := m₂.nextIdentity + 1 } :=
    hk₂.holds.other rfl rfl rfl rfl rfl rfl rfl
  refine .step (a := m₂.nextIdentity) rfl hsame (assign hsame.holds hname ?_)
  exact fun x c hc => hsame.kind_le.method c (ht x c hc)

theorem load (hm : H.Holds m) (source : String) :
    Upholds H (Eval.load source) m fun _ _ => True :=
  fun _ _ h => ⟨(hm.load h).1, fun _ _ => trivial⟩

end Upholds

end Eval

end Scriptling
