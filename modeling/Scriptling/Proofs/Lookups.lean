/-
  Lookups — what is found at a distance, and what is found by name.

  * `Session.LooksUp.access`: a reference of a program is looked up in scopes that match those which
    the walk had there;
  * `Session.lookups_agree`: if no name is declared twice, both ways to look up a name come to
    the same;
  * `Session.reference_finds`: a distance leads to a binding, unless the binding is still being
    computed or stands where the program may have passed it over.
-/
import Scriptling.Proofs.Scopes
import Scriptling.Proofs.Shadows

namespace Scriptling

open World Eval

/-! ## Distances and frames -/

/-- When both ways to look up a name come to the same frame. -/
theorem Frames.find_eq_findAt {fs : Frames Value} {scope : Chain} {d F : Nat} {name : Name}
    (hF : scope[d]? = some F)
    (hbefore : ∀ {i G}, i < d → scope[i]? = some G → (fs.frame G).contains name.text ≠ true)
    (hafter : (fs.frame F).contains name.text ≠ true → ∀ {i G}, d < i → scope[i]? = some G →
      (fs.frame G).contains name.text ≠ true) :
    fs.find scope name = fs.findAt scope d name := by
  obtain ⟨hd, rfl⟩ := List.getElem?_eq_some_iff.1 hF
  unfold Frames.find Frames.findAt
  rw [hF]
  by_cases hc : (fs.frame scope[d]).contains name.text = true
  · have hfind : scope.find? (fun i => (fs.frame i).contains name.text) = some scope[d] := by
      refine List.find?_eq_some_iff_append.2 ⟨hc, scope.take d, scope.drop (d + 1), ?_, ?_⟩
      · rw [List.getElem_cons_drop, List.take_append_drop]
      · intro G hG
        obtain ⟨i, hi, rfl⟩ := List.mem_take_iff_getElem.1 hG
        have hlt : i < d := by omega
        have hnot := hbefore hlt (List.getElem?_eq_getElem (by omega))
        simpa using hnot
    rw [hfind]
    simp [hc]
  · have hfind : scope.find? (fun i => (fs.frame i).contains name.text) = none := by
      refine List.find?_eq_none.2 fun G hG => ?_
      obtain ⟨i, hi, rfl⟩ := List.mem_iff_getElem.1 hG
      rcases Nat.lt_trichotomy i d with hlt | rfl | hlt
      · exact hbefore hlt (List.getElem?_eq_getElem hi)
      · exact hc
      · exact hafter hc hlt (List.getElem?_eq_getElem hi)
    rw [hfind]
    simp [hc]

theorem fault?_read {m : Machine} {site d : Nat} {name : Name} {e : Error}
    (hd : m.distances.get? site = some d) (he : m.frames.findAt m.scope d name = .error e) :
    (Eval.read site name).fault? m = some e := by
  have hbinder : m.binder site name = .error e := by
    unfold Machine.binder
    rw [hd]
    exact he
  have hread : Eval.read site name m =
      Eval.ofExcept (m.binder site name >>= fun i => m.frames.value i name) m := rfl
  unfold Eval.fault?
  rw [hread, hbinder]
  rfl

/-! ## References of programs -/

namespace Session

/-- **A run of a program looks up a reference at a distance.**  The machine has come through
    any steps of a session without host functions.  The reference is one of the program, unless
    it is clear that it must be because no other program has been resolved. -/
structure LooksUp (ps : List Pass) (m : Machine) (source : String) (program : List Stmt)
    (k : Nat) (c : Point) (site : Nat) (name : Name) (d : Nat) : Prop where
  session : ∃ host sink time, Reached (fun _ => True) (start [] host sink time) ps m
  loaded : ∃ m₁, Eval.load source m = some (.ok program, m₁)
  reached : Reaches ⟨k, .text source, m⟩ c
  job : c.job.part? = some (.reference site name)
  own : ps = [] ∨ site ∈ (Part.stmts program).sites
  recorded : c.machine.distances.get? site = some d

/-- What is known where a reference is looked up: the walk has come to it, with scopes that
    match the frames at some places. -/
structure Access (m : Machine) (source : String) (program : List Stmt) (k : Nat) (c : Point)
    (site : Nat) (name : Name) (d : Nat) (V : World) (places : Chain) (Γ : List Layer) (w : Walk) :
    Prop where
  accepted : ∃ ds, (Pass.of m program).Accepts ds
  visits : (Pass.of m program).Visits Γ w (.reference site name)
  distance : w.distance? name.text = some d
  scope : c.machine.scope = places ++ globalScope
  holds : List.Forall₂ (V.Holds (Pass.of m program)) places Γ
  bound : ∀ F x, V.bound F x ↔ (c.machine.frames.frame F).contains x = true
  admitted : ∀ F x, V.bound F x → V.admits F x
  begun : ∀ F x, (Pass.of m program).since ≤ F → V.begun F x →
    V.bound F x ∨ Awaits (F, x) ⟨k, .text source, m⟩ c
  globals : ∀ x, V.admits globalFrame x → x ∈ m.globalNames ∨ x ∈ Stmt.declaresAll program
  this : "this" ∉ declaredNames program

variable {ps : List Pass} {m : Machine} {source : String} {program : List Stmt} {k : Nat}
  {c : Point} {site : Nat} {name : Name} {d : Nat}

theorem LooksUp.access (h : LooksUp ps m source program k c site name d) :
    ∃ V places Γ w, Access m source program k c site name d V places Γ w := by
  obtain ⟨host, sink, time, hm⟩ := h.session
  obtain ⟨m₁, hl⟩ := h.loaded
  have hrests : Rests ⟨False, True⟩ ps m :=
    hm.rests (fun _ _ => Or.inr trivial) (.start [] sink time (Or.inl rfl) False.elim)
  obtain ⟨W, pending, hW⟩ := hrests.load hl
  obtain ⟨others, ⟨V, hV, hma, hs⟩, hothers⟩ := hW.reaches hl h.reached h.job
  have hd := h.recorded
  cases hs.runs h.job with
  | raw _ _ hu =>
    rw [(hma.unresolved site (hu site List.mem_cons_self)).2] at hd
    cases hd
  | @resolved p Γ w hpass hv hf =>
    have hpW := hV.same not_false p hpass
    have hp : p = Pass.of m program := by
      rcases h.own with rfl | hsite
      · exact List.mem_singleton.1 (hW.passes not_false p hpW)
      · refine (hW.apart p hpW).resolve_right fun hnot => ?_
        exact hnot site (hv.sites_subset List.mem_cons_self) hsite
    subst hp
    obtain ⟨places, hscope, hholds⟩ := hf.exact not_false
    rw [hma.recorded _ _ _ _ _ hpass hv] at hd
    refine ⟨V, places, Γ, w, (hma.proper _ hpass).2, hv, hd, hscope, hholds, hma.bound,
      hma.admitted not_false, fun F x hF hb => ?_, fun x hx => ?_, fun hthis => ?_⟩
    · refine (hma.begun not_false F x hb).imp_right fun hmem => (hothers _ hmem).resolve_left ?_
      exact fun hold => Nat.not_le_of_lt (hW.older not_false _ hold) hF
    · exact (hW.globals x).1 ((hV.globals x).1 hx)
    · exact absurd (hW.named "this" hthis) (by decide)

variable {V : World} {places : Chain} {Γ : List Layer} {w : Walk}

/-- The frame that a distance leads to, and the open scope that it matches. -/
theorem Access.target (h : Access m source program k c site name d V places Γ w) :
    ∃ F l, c.machine.scope[d]? = some F ∧ Γ[d]? = some l ∧ V.Holds (Pass.of m program) F l ∧
      l.final.contains name.text = true := by
  obtain ⟨ds, hds⟩ := h.accepted
  obtain ⟨hd, hx, -⟩ := Walk.distance?_eq_some_iff.1 h.distance
  obtain ⟨w', hw'⟩ := h.visits.passes hds
  have hΓ : d < Γ.length := h.visits.length_eq hds ▸ hd
  have hp : d < places.length := h.holds.length_eq ▸ hΓ
  refine ⟨places[d], Γ[d], ?_, List.getElem?_eq_getElem hΓ, h.holds.get hp hΓ, ?_⟩
  · rw [h.scope, List.getElem?_append_left hp]
    exact List.getElem?_eq_getElem hp
  · exact hw'.before.get hd hΓ _ hx

/-- A frame of the scope that binds the name: it matches an open scope with the name, or it is
    the frame of the globals. -/
theorem Access.holder (h : Access m source program k c site name d V places Γ w) {i F : Nat}
    (hF : c.machine.scope[i]? = some F)
    (hx : (c.machine.frames.frame F).contains name.text = true) :
    (∃ l, Γ[i]? = some l ∧ l.final.contains name.text = true) ∨ Γ.length ≤ i ∧
      (name.text ∈ m.globalNames ∨ name.text ∈ Stmt.declaresAll program) := by
  have hadmits := h.admitted F name.text ((h.bound F name.text).2 hx)
  rw [h.scope] at hF
  by_cases hi : i < places.length
  · have hΓ : i < Γ.length := h.holds.length_eq ▸ hi
    rw [List.getElem?_append_left hi, List.getElem?_eq_getElem hi] at hF
    cases hF
    exact Or.inl ⟨Γ[i], List.getElem?_eq_getElem hΓ, (h.holds.get hi hΓ).admits _ hadmits⟩
  · rw [List.getElem?_append_right (Nat.le_of_not_lt hi)] at hF
    have hzero : F = globalFrame := List.mem_singleton.1 (List.mem_of_getElem? hF)
    subst hzero
    exact Or.inr ⟨h.holds.length_eq ▸ Nat.le_of_not_lt hi, h.globals name.text hadmits⟩

/-- `this` is bound at its distance, and nowhere before. -/
theorem Access.find_this (h : Access m source program k c site name d V places Γ w)
    (hthis : name.text = "this") :
    c.machine.frames.find c.machine.scope name =
      c.machine.frames.findAt c.machine.scope d name := by
  obtain ⟨ds, hds⟩ := h.accepted
  obtain ⟨w', hw'⟩ := h.visits.passes hds
  obtain ⟨hd, -, -, hnearest⟩ := Walk.distance?_eq_some_iff.1 h.distance
  obtain ⟨F, l, hF, hl, hholds, hx⟩ := h.target
  obtain ⟨hr, hhead⟩ := h.visits.receivers h.this
  have receiver {i : Nat} {l : Layer} (hl : Γ[i]? = some l)
      (hx : l.final.contains name.text = true) :
      ∃ hi : i < w.scopes.length, w.scopes[i].contains name.text = true ∧
        name.text ∈ l.assured := by
    obtain ⟨hi, rfl⟩ := List.getElem?_eq_some_iff.1 hl
    have hi' : i < w.scopes.length := hr.length_eq ▸ hi
    rw [hthis] at hx ⊢
    exact ⟨hi', hr.get hi' hi hx⟩
  refine Frames.find_eq_findAt hF (fun {i G} hi hG hc => ?_) fun hnot => ?_
  · rcases h.holder hG hc with ⟨l', hl', hx'⟩ | hglobal
    · obtain ⟨hi', hknown, -⟩ := receiver hl' hx'
      obtain ⟨hzero, -⟩ := hnearest i hi hknown
      subst hzero
      rcases hhead with ⟨f, hf⟩ | hhead
      · cases hf
      · refine hhead l'.final ?_ (hthis ▸ hx')
        rw [List.head?_eq_getElem?, List.getElem?_map, hl']
        rfl
    · obtain ⟨hlt, -⟩ := List.getElem?_eq_some_iff.1 hl
      exact absurd hglobal.1 (Nat.not_le_of_lt (Nat.lt_trans hi hlt))
  · exact absurd ((h.bound F _).1 (hholds.assured _ (receiver hl hx).choose_spec.2)) hnot

/-- A name that is declared in one place only is bound at its distance or not at all. -/
theorem Access.find_declared (h : Access m source program k c site name d V places Γ w)
    (hn : (declaredNames program).Nodup) (hg : ∀ x ∈ declaredNames program, x ∉ m.globalNames)
    (hthis : name.text ≠ "this") :
    c.machine.frames.find c.machine.scope name =
      c.machine.frames.findAt c.machine.scope d name := by
  obtain ⟨F, l, hF, hl, -, hx⟩ := h.target
  obtain ⟨hdeclared, hnot, hapart⟩ := h.visits.apart hn hthis hl hx
  have alone {i G : Nat} (hi : i ≠ d) (hG : c.machine.scope[i]? = some G) :
      (c.machine.frames.frame G).contains name.text ≠ true := fun hc => by
    rcases h.holder hG hc with ⟨l', hl', hx'⟩ | ⟨-, hglobal | hglobal⟩
    · exact hi (hapart hl' hx').symm
    · exact hg _ hdeclared hglobal
    · exact hnot hglobal
  exact Frames.find_eq_findAt hF (fun hi hG => alone (Nat.ne_of_lt hi) hG)
    fun _ {_ _} hi hG => alone (Nat.ne_of_gt hi) hG

/-- **If no name is declared twice and none is global already, looking up a reference at its
    distance comes to the same as looking up its name**, and so does assigning to it. -/
theorem lookups_agree (h : LooksUp ps m source program k c site name d)
    (hn : (declaredNames program).Nodup)
    (hg : ∀ x ∈ declaredNames program, x ∉ m.globalNames) :
    c.machine.frames.getAt c.machine.scope d name =
      c.machine.frames.get c.machine.scope name ∧
    ∀ v, c.machine.frames.assignAt c.machine.scope d name v =
      c.machine.frames.assign c.machine.scope name v := by
  obtain ⟨V, places, Γ, w, ha⟩ := h.access
  have hfind : c.machine.frames.find c.machine.scope name =
      c.machine.frames.findAt c.machine.scope d name := by
    by_cases hthis : name.text = "this"
    · exact ha.find_this hthis
    · exact ha.find_declared hn hg hthis
  unfold Frames.getAt Frames.get Frames.assignAt Frames.assign
  rw [hfind]
  exact ⟨rfl, fun _ => rfl⟩

theorem looksUp_local : ∃ program c site name,
    LooksUp [] (start [] relay {} 0) localProgram program 7 c site name 0 ∧
    declaredNames program = ["a"] ∧ (start [] relay {} 0).globalNames = [] := by
  obtain ⟨n, x, l, site, m₁, hl, hd, hn, -⟩ := load_localProgram
  obtain ⟨m', hc, hm'⟩ := reaches_local 0 site n x l m₁
  refine ⟨_, _, site, x, ⟨⟨relay, {}, 0, .start⟩, ⟨m₁, hl⟩, .head (.run hl) hc, rfl, Or.inl rfl,
    hm' ▸ hd⟩, ?_, by decide +kernel⟩
  rw [← hn]
  rfl

theorem lookups_agree_local : ∃ program c site name,
    LooksUp [] (start [] relay {} 0) localProgram program 7 c site name 0 ∧
    c.machine.frames.getAt c.machine.scope 0 name =
      c.machine.frames.get c.machine.scope name ∧
    ∀ v, c.machine.frames.assignAt c.machine.scope 0 name v =
      c.machine.frames.assign c.machine.scope name v := by
  obtain ⟨program, c, site, name, h, hnames, hglobals⟩ := looksUp_local
  refine ⟨program, c, site, name, h, lookups_agree h ?_ fun x _ => ?_⟩
  · rw [hnames]
    exact List.nodup_singleton _
  · rw [hglobals]
    exact List.not_mem_nil

/-- **A reference finds a binding at its distance**, unless the first value of the binding is
    still being computed, or all declarations of the name that the walk has come by in the scope
    stand where the program may have passed them over. -/
theorem reference_finds (h : LooksUp ps m source program k c site name d) :
    (∃ F, c.machine.frames.findAt c.machine.scope d name = .ok F) ∨
    (∃ F, c.machine.scope[d]? = some F ∧ Awaits (F, name.text) ⟨k, .text source, m⟩ c) ∨
    ∃ Γ w l, (Pass.of m program).Visits Γ w (.reference site name) ∧ Γ[d]? = some l ∧
      name.text ∉ l.assured ∧ name.text ∉ l.awaited := by
  obtain ⟨V, places, Γ, w, ha⟩ := h.access
  obtain ⟨F, l, hF, hl, hholds, -⟩ := ha.target
  have found (hb : V.bound F name.text) :
      ∃ F, c.machine.frames.findAt c.machine.scope d name = .ok F := by
    refine ⟨F, ?_⟩
    unfold Frames.findAt
    rw [hF]
    simp [(ha.bound F name.text).1 hb]
  by_cases hassured : name.text ∈ l.assured
  · exact Or.inl (found (hholds.assured _ hassured))
  · by_cases hawaited : name.text ∈ l.awaited
    · rcases ha.begun F name.text hholds.since (hholds.awaited _ hawaited) with hb | hb
      · exact Or.inl (found hb)
      · exact Or.inr (Or.inl ⟨F, hF, hb⟩)
    · exact Or.inr (Or.inr ⟨Γ, w, l, ha.visits, hl, hassured, hawaited⟩)

theorem reference_finds_local : ∃ program c site name,
    LooksUp [] (start [] relay {} 0) localProgram program 7 c site name 0 ∧
    ((∃ F, c.machine.frames.findAt c.machine.scope 0 name = .ok F) ∨
    (∃ F, c.machine.scope[0]? = some F ∧
      Awaits (F, name.text) ⟨7, .text localProgram, start [] relay {} 0⟩ c) ∨
    ∃ Γ w l, (Pass.of (start [] relay {} 0) program).Visits Γ w (.reference site name) ∧
      Γ[0]? = some l ∧ name.text ∉ l.assured ∧ name.text ∉ l.awaited) := by
  obtain ⟨program, c, site, name, h, -⟩ := looksUp_local
  exact ⟨program, c, site, name, h, reference_finds h⟩

/-! ## A declaration that is passed over -/

/-- The function is declared in the block, but never comes to be there. -/
def passedOver : String := "let g = 1; \x7b true || fn g() \x7b\x7d; print g; \x7d"

/-- The two statements, accepted with the distance of the reference. -/
def isPassedOver : Option (Except Error (List Stmt) × Machine) → Bool
  | some (.ok [.let n (some (.literal _)), .block [.expression (.logical op (.literal t)
      (.function _)), .print (.variable site x)]], m) =>
    op.isDecided (.ofLiteral t) && m.distances.get? site == some 0 && n.text == "g" &&
      x.text == "g"
  | _ => false

theorem load_passedOver : ∃ n l op t f x site m,
    Eval.load passedOver (start [] relay {} 0) = some (.ok [.let n (some (.literal l)),
      .block [.expression (.logical op (.literal t) (.function f)),
        .print (.variable site x)]], m) ∧
    op.isDecided (.ofLiteral t) = true ∧ m.distances.get? site = some 0 ∧
    n.text = "g" ∧ x.text = "g" := by
  have checked : isPassedOver (Eval.load passedOver (start [] relay {} 0)) = true := by
    decide +kernel
  unfold isPassedOver at checked
  split at checked
  · next n l op t f site x m hl =>
    simp only [Bool.and_eq_true, beq_iff_eq] at checked
    obtain ⟨⟨⟨ht, hd⟩, hn⟩, hx⟩ := checked
    exact ⟨n, l, op, t, f, x, site, m, hl, ht, hd, hn, hx⟩
  · cases checked

section

variable {n x : Name} {l t : Literal} {op : LogicalOp} {f : Function} {site : Nat}

/-- All that the program can run, apart from the function. -/
def passedOverJobs (n x : Name) (l t : Literal) (op : LogicalOp) (f : Function) (site : Nat) :
    List Job :=
  let skipped := .logical op (.literal t) (.function f)
  let body : List Stmt := [.expression skipped, .print (.variable site x)]
  [.program [.let n (some (.literal l)), .block body], .stmt (.let n (some (.literal l))),
    .optional (some (.literal l)), .expr (.literal l), .program [.block body], .stmt (.block body),
    .program [], .stmts body, .stmt (.expression skipped), .expr skipped, .expr (.literal t),
    .expr (.function f), .stmts [.print (.variable site x)], .stmt (.print (.variable site x)),
    .expr (.variable site x), .read site x, .stmts []]

theorem mem_passedOverJobs {c c' : Point} (h : Calls c c')
    (hc : c.job ∈ passedOverJobs n x l t op f site) :
    c'.job ∈ passedOverJobs n x l t op f site := by
  obtain ⟨k, job, m⟩ := c
  simp only [passedOverJobs, List.mem_cons, List.not_mem_nil, or_false] at hc ⊢
  rcases hc with rfl | rfl | rfl | rfl | rfl | rfl | rfl | rfl | rfl | rfl | rfl | rfl | rfl | rfl |
    rfl | rfl | rfl <;> cases h <;> simp

/-- While the reference is looked up, no first value of a variable is being computed. -/
theorem not_awaits_passedOver {e : Nat × String} {k : Nat} {m m₁ : Machine} {c : Point}
    (hl : Eval.load passedOver m = some (.ok [.let n (some (.literal l)),
      .block [.expression (.logical op (.literal t) (.function f)),
        .print (.variable site x)]], m₁)) (hc : c.job = .read site x) :
    ¬ Awaits e ⟨k, .text passedOver, m⟩ c := by
  rintro ⟨a, b, ha, hbegin, hb⟩
  rcases ha.of_text hl with rfl | ⟨j, -, ha⟩
  · cases hbegin
  · have hjob : a.job ∈ passedOverJobs n x l t op f site :=
      ha.jobs mem_passedOverJobs (by simp [passedOverJobs])
    simp only [passedOverJobs, List.mem_cons, List.not_mem_nil, or_false] at hjob
    have hvalue : b.job = .optional (some (.literal l)) := by
      cases hbegin with
      | value => simp_all
      | variableValue => simp at hjob
    -- a literal runs nothing else
    have hread : c.job = .optional (some (.literal l)) ∨ c.job = .expr (.literal l) := by
      refine hb.jobs (J := fun j => j = .optional (some (.literal l)) ∨ j = .expr (.literal l))
        (fun {c c'} h hc => ?_) (Or.inl hvalue)
      obtain ⟨k, job, m⟩ := c
      rcases hc with rfl | rfl <;> cases h
      exact Or.inr rfl
    rw [hc] at hread
    rcases hread with hread | hread <;> cases hread

/-- The program comes to the reference in a frame that binds nothing. -/
theorem reaches_passedOver (ht : op.isDecided (.ofLiteral t) = true) (k : Nat) (m : Machine) :
    Reaches ⟨k + 7, .program [.let n (some (.literal l)),
      .block [.expression (.logical op (.literal t) (.function f)),
        .print (.variable site x)]], m⟩
      ⟨k, .read site x, { m with
        frames := ((m.frames.define m.scope n.text (.ofLiteral l)).child m.scope .empty).2
        scope := ((m.frames.define m.scope n.text (.ofLiteral l)).child m.scope .empty).1 }⟩ := by
  let skipped := Expr.logical op (.literal t) (.function f)
  let outside : Machine := { m with frames := m.frames.define m.scope n.text (.ofLiteral l) }
  let inside : Machine := { outside with
    frames := (outside.frames.child outside.scope .empty).2
    scope := (outside.frames.child outside.scope .empty).1 }
  have hlet : Calls ⟨k + 7, .program [.let n (some (.literal l)), .block [.expression skipped,
      .print (.variable site x)]], m⟩ ⟨k + 6, .program [.block [.expression skipped,
      .print (.variable site x)]], outside⟩ := .statements rfl
  have hblock : Calls ⟨k + 5, .stmt (.block [.expression skipped, .print (.variable site x)]),
      outside⟩ ⟨k + 4, .stmts [.expression skipped, .print (.variable site x)], inside⟩ :=
    .block rfl
  have hskip : Eval.execute (k + 3) (.expression skipped) inside = some (.ok .normal, inside) := by
    have hvalue : Eval.evaluate (k + 2) skipped inside = some (.ok (.ofLiteral t), inside) := by
      have hcase : Eval.evaluate (k + 2) skipped inside = (if op.isDecided (.ofLiteral t)
          then pure (.ofLiteral t) else Eval.evaluate (k + 1) (.function f) : Eval Value) inside :=
        rfl
      rw [hcase, if_pos ht]
      rfl
    exact bind_eq_ok.2 ⟨_, inside, hvalue, rfl⟩
  exact .head hlet (.head .statement (.head hblock (.head (.tail hskip) (.head .head
    (.head .print (.single .variable))))))

end

/-- A program for which a reference finds no binding at its distance, though its name is bound
    further out. -/
theorem reference_misses : ∃ program c site name i,
    LooksUp [] (start [] relay {} 0) passedOver program 8 c site name 0 ∧
    c.job = .read site name ∧
    c.machine.frames.find c.machine.scope name = .ok i ∧
    c.machine.frames.findAt c.machine.scope 0 name = .error (Frames.undefined name) ∧
    c.fault? = some (Frames.undefined name) ∧
    ∀ F, ¬ Awaits (F, name.text) ⟨8, .text passedOver, start [] relay {} 0⟩ c := by
  obtain ⟨n, l, op, t, f, x, site, m₁, hl, ht, hd, hn, hx⟩ := load_passedOver
  have hc : Reaches ⟨7, .program [.let n (some (.literal l)),
      .block [.expression (.logical op (.literal t) (.function f)),
        .print (.variable site x)]], m₁⟩ _ := reaches_passedOver ht 0 m₁
  obtain ⟨hframes, hscope⟩ : m₁.frames = .root ∧ m₁.scope = globalScope := by
    obtain ⟨s, -, ⟨e, he, -⟩ | ⟨_, _, -, -, -, -, rfl⟩⟩ := Eval.load_eq hl
    · cases he
    · exact ⟨rfl, rfl⟩
  -- the frame of the block is the second, and binds nothing
  let fs : Frames Value :=
    ((m₁.frames.define m₁.scope n.text (.ofLiteral l)).child m₁.scope .empty).2
  have inner : (fs.frame 1).contains x.text = false := by
    have hempty : fs.frame 1 = .empty := by
      unfold fs
      rw [hframes, hscope]
      rfl
    rw [hempty, Bindings.contains_empty]
  have outer : (fs.frame globalFrame).contains x.text = true := by
    have hset : fs.frame globalFrame = Bindings.empty.set n.text (.ofLiteral l) := by
      unfold fs
      rw [hframes, hscope]
      rfl
    rw [hset, hx, ← hn]
    exact (Bindings.contains_set ..).2 (Or.inl rfl)
  have hchain : ((m₁.frames.define m₁.scope n.text (.ofLiteral l)).child m₁.scope .empty).1 =
      [1, globalFrame] := by
    rw [hframes, hscope]
    rfl
  have hmiss : fs.findAt [1, globalFrame] 0 x = .error (Frames.undefined x) := by
    unfold Frames.findAt
    simp [inner]
  refine ⟨_, _, site, x, globalFrame, ⟨⟨relay, {}, 0, .start⟩, ⟨m₁, hl⟩, .head (.run hl) hc, rfl,
    Or.inl rfl, hd⟩, rfl, ?_, ?_, ?_, fun F => not_awaits_passedOver hl rfl⟩
  · dsimp only
    rw [hchain]
    unfold Frames.find
    simp [fs, inner, outer]
  · dsimp only
    rw [hchain]
    exact hmiss
  · refine fault?_read hd ?_
    dsimp only
    rw [hchain]
    exact hmiss

end Session

end Scriptling
