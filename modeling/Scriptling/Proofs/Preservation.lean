/-
  Preservation — running programs keeps machines in agreement with their worlds.

  The proof is by induction on the fuel.  What is known when something is run with less fuel is
  collected in `Kept`; each function of the evaluation has a lemma for one more unit of fuel.

  * `Eval.kept`: the result, for every function of the evaluation.
-/
import Scriptling.Proofs.Safety

namespace Scriptling

namespace World

/-- What a statement leaves behind that binds certain names if it completes normally. -/
def Leaves (mode : Mode) (W : World) (scope : Chain) (names : List String) : Completion → Prop
  | .normal => W.Binds scope names
  | .returned v => W.Allows mode v
  | .broken _ | .continued _ => True

theorem Leaves.imp {mode : Mode} {W : World} {scope scope' : Chain} {names names' : List String}
    {c : Completion} (hb : W.Binds scope names → W.Binds scope' names')
    (hc : W.Leaves mode scope names c) : W.Leaves mode scope' names' c := by
  cases c with
  | normal => exact hb hc
  | returned | broken | continued => exact hc

/-- What is left behind in an inner scope is of no use outside. -/
theorem Leaves.forget {mode : Mode} {W : World} {scope scope' : Chain} {names : List String}
    {c : Completion} (hc : W.Leaves mode scope names c) : W.Leaves mode scope' [] c :=
  hc.imp fun _ => binds_nil W scope'

/-- A loop may be gone round. -/
structure Rounds (mode : Mode) (W : World) (scope : Chain) (condition step : Option Expr)
    (body : Stmt) : Prop where
  test : W.Placed mode scope (.optional condition)
  others : ∀ V, V.Proper → Le mode W V → V.Binds scope (Expr.assuredOpt condition) →
    (step = none ∨ V.Placed mode scope (.optional step)) ∧ V.Placed mode scope (.rounds body)

variable {mode : Mode} {W V : World} {scope : Chain} {condition step : Option Expr} {body : Stmt}

theorem Rounds.mono (h : Le mode W V) (hr : W.Rounds mode scope condition step body) :
    V.Rounds mode scope condition step body where
  test := hr.test.mono h
  others U hp hU hb := hr.others U hp (h.trans hU) hb

theorem Rounds.of_while (hW : W.Proper) {condition : Expr}
    (h : W.Placed mode scope (.stmt (.while condition body))) :
    W.Rounds mode scope (some condition) none body where
  test := h.piece hW (.head _) (binds_nil W scope)
  others _ hV' hV hc := ⟨Or.inl rfl, (h.mono hV).piece hV' (.tail _ (.head _)) hc⟩

theorem Rounds.of_clauses (hW : W.Proper) {name : Name} {value : Option Expr}
    (h : W.Placed mode scope (.clauses name value condition step body))
    (hb : W.Binds scope (name.text :: Expr.assuredOpt value)) :
    W.Rounds mode scope condition step body where
  test := h.piece hW (.tail _ (.head _)) hb
  others V hV' hV hc := by
    have hall := binds_append.2 ⟨hc, hb.mono hV.toSub⟩
    exact ⟨Or.inr ((h.mono hV).piece hV' (.tail _ (.tail _ (.head _))) hall),
      (h.mono hV).piece hV' (.tail _ (.tail _ (.tail _ (.head _)))) hall⟩

end World

open World

/-! ## Parameters -/

theorem contains_bindParams_iff (params : List Name) (args : List Value) (b : Bindings Value)
    (x : String) :
    ((params.zip args).foldl (fun b p => b.set p.1.text p.2) b).contains x = true ↔
      x ∈ (params.zip args).map (fun p => p.1.text) ∨ b.contains x = true := by
  generalize params.zip args = ps
  induction ps generalizing b with
  | nil => simp
  | cons p ps ih =>
    rw [List.foldl_cons, ih, Bindings.contains_set, List.map_cons, List.mem_cons]
    tauto

theorem Eval.mem_of_contains_bindParams {params : List Name} {args : List Value} {x : String}
    (h : (Eval.bindParams params args).contains x = true) : x ∈ params.map Name.text := by
  unfold Eval.bindParams at h
  rw [contains_bindParams_iff, Bindings.contains_empty] at h
  obtain ⟨p, hp, rfl⟩ := List.mem_map.1 (h.resolve_right Bool.false_ne_true)
  exact List.mem_map.2 ⟨p.1, (List.of_mem_zip hp).1, rfl⟩

theorem Eval.contains_bindParams {params : List Name} {args : List Value} {x : String}
    (hl : args.length = params.length) (hx : x ∈ params.map Name.text) :
    (Eval.bindParams params args).contains x = true := by
  unfold Eval.bindParams
  rw [contains_bindParams_iff]
  left
  have hmap : (params.zip args).map (fun p => p.1.text) = params.map Name.text := by
    have hcomp : (params.zip args).map (fun p => p.1.text) =
        ((params.zip args).map Prod.fst).map Name.text := by rw [List.map_map]; rfl
    rw [hcomp, List.map_fst_zip (Nat.le_of_eq hl.symm)]
  rw [hmap]
  exact hx

theorem Eval.mem_of_get?_bindParams {params : List Name} {args : List Value} {x : String}
    {v : Value} (h : (Eval.bindParams params args).get? x = some v) : v ∈ args := by
  have fold (ps : List (Name × Value)) (b : Bindings Value)
      (h : (ps.foldl (fun b p => b.set p.1.text p.2) b).get? x = some v) :
      v ∈ ps.map Prod.snd ∨ b.get? x = some v := by
    induction ps generalizing b with
    | nil => exact Or.inr h
    | cons p ps ih =>
      rcases ih _ h with h | h
      · exact Or.inl (List.mem_cons_of_mem _ h)
      · rw [Bindings.get?_set] at h
        split at h
        · cases h; exact Or.inl List.mem_cons_self
        · exact Or.inr h
  rcases fold _ _ h with h | h
  · obtain ⟨p, hp, rfl⟩ := List.mem_map.1 h
    exact (List.of_mem_zip hp).2
  · rw [Bindings.get?_empty] at h
    cases h

theorem Value.isPlain_ofLiteral (value : Literal) : (Value.ofLiteral value).IsPlain := by
  cases value <;> trivial

namespace Eval

/-- What is known of everything that is run with some fuel. -/
structure Kept (mode : Mode) (k : Nat) : Prop where
  evaluate {W pending scope e} : W.Placed mode scope (.expr e) →
    Safe mode W pending scope (Eval.evaluate k e) fun V v =>
      V.Allows mode v ∧ V.Binds scope e.assured
  evaluateAll {W pending scope es} : W.Placed mode scope (.exprs es) →
    Safe mode W pending scope (Eval.evaluateAll k es) fun V vs =>
      (∀ v ∈ vs, V.Allows mode v) ∧ V.Binds scope (Expr.assuredAll es)
  evaluateOpt {W pending scope e} : W.Placed mode scope (.optional e) →
    Safe mode W pending scope (Eval.evaluateOpt k e) fun V v =>
      (∀ u ∈ v, V.Allows mode u) ∧ V.Binds scope (Expr.assuredOpt e)
  call {W pending scope c args} : W.Sees scope → W.Allows mode (.callable c) →
    (∀ v ∈ args, W.Allows mode v) → (¬ mode.hosted → args.length = c.arity) →
    Safe mode W pending scope (Eval.call k c args) fun V v => V.Allows mode v
  callHost {W pending scope op args} : mode.hosted → W.Sees scope →
    (∀ v ∈ args, W.Allows mode v) →
    Safe mode W pending scope (Eval.callHost k op args) fun V v => V.Allows mode v
  converse {W pending scope} : mode.hosted → W.Sees scope →
    Safe mode W pending scope (Eval.converse k) fun V v => V.Allows mode v
  execute {W pending scope s} : W.Placed mode scope (.stmt s) →
    Safe mode W pending scope (Eval.execute k s) fun V c => V.Leaves mode scope s.assured c
  executeAll {W pending scope ss} : W.Placed mode scope (.stmts ss) →
    Safe mode W pending scope (Eval.executeAll k ss) fun V c =>
      V.Leaves mode scope (Stmt.assuredAll ss) c
  loop {W pending scope condition step body} : W.Rounds mode scope condition step body →
    Safe mode W pending scope (Eval.loop k condition step body) fun V c =>
      V.Leaves mode scope (Expr.assuredOpt condition) c
  interpret {W pending scope ss} : W.Placed mode scope (.stmts ss) →
    (¬ mode.raw → strays ss = []) →
    Safe mode W pending scope (Eval.interpret k ss) fun _ _ => True
  run {W pending scope source} : mode.hosted → W.Sees scope →
    Safe mode W pending scope (Eval.run k source) fun _ _ => True

theorem kept_zero (mode : Mode) : Kept mode 0 where
  evaluate _ := .exhausted
  evaluateAll _ := .exhausted
  evaluateOpt _ := .exhausted
  call _ _ _ _ := .exhausted
  callHost _ _ _ := .exhausted
  converse _ _ := .exhausted
  execute _ := .exhausted
  executeAll _ := .exhausted
  loop _ := .exhausted
  interpret _ _ := .exhausted
  run _ _ := .exhausted

namespace Kept

variable {mode : Mode} {k : Nat} (ih : Kept mode k) {W : World} {pending : List (Nat × String)}
  {scope : Chain}
include ih

/-! ## Pieces -/

theorem expr {part : Part} {e : Expr} {names : List String} (h : W.Placed mode scope part)
    (hq : (.expr e, names) ∈ part.pieces) (hb : W.Binds scope names) :
    Safe mode W pending scope (Eval.evaluate k e) fun V v =>
      V.Allows mode v ∧ V.Binds scope e.assured :=
  .proper fun hW => ih.evaluate (h.piece hW hq hb)

theorem exprs {part : Part} {es : List Expr} {names : List String} (h : W.Placed mode scope part)
    (hq : (.exprs es, names) ∈ part.pieces) (hb : W.Binds scope names) :
    Safe mode W pending scope (Eval.evaluateAll k es) fun V vs =>
      (∀ v ∈ vs, V.Allows mode v) ∧ V.Binds scope (Expr.assuredAll es) :=
  .proper fun hW => ih.evaluateAll (h.piece hW hq hb)

theorem optional {part : Part} {e : Option Expr} {names : List String}
    (h : W.Placed mode scope part) (hq : (.optional e, names) ∈ part.pieces)
    (hb : W.Binds scope names) :
    Safe mode W pending scope (Eval.evaluateOpt k e) fun V v =>
      (∀ u ∈ v, V.Allows mode u) ∧ V.Binds scope (Expr.assuredOpt e) :=
  .proper fun hW => ih.evaluateOpt (h.piece hW hq hb)

/-! ## Expressions -/

theorem call_expr {callee : Expr} {line : Nat} {arguments : List Expr}
    (h : W.Placed mode scope (.expr (.call callee line arguments))) :
    Safe mode W pending scope (Eval.evaluate (k + 1) (.call callee line arguments)) fun V v =>
      V.Allows mode v ∧ V.Binds scope (Expr.call callee line arguments).assured := by
  unfold Eval.evaluate
  refine (ih.expr h (.head _) (binds_nil W scope)).bind fun V f hV hf => ?_
  refine (ih.exprs (h.mono hV) (.tail _ (.head _)) hf.2).bind fun U args hU hargs => ?_
  split
  · next c =>
    split
    · next ha =>
      have sees := (h.runs.sees.mono hV.toSub).mono hU.toSub
      refine (ih.call sees (hf.1.mono hU.toSub) hargs.1 fun _ => ha).mono fun X v hX hv => ⟨hv, ?_⟩
      have hb := binds_append.2 ⟨hf.2.mono hU.toSub, hargs.2⟩
      exact hb.mono hX.toSub
    · exact .fail (mode.permits_of_fault ⟨nofun, nofun, nofun, nofun⟩)
  · exact .fail (mode.permits_of_fault ⟨nofun, nofun, nofun, nofun⟩)

theorem set_expr {object value : Expr} {name : Name}
    (h : W.Placed mode scope (.expr (.set object name value))) :
    Safe mode W pending scope (Eval.evaluate (k + 1) (.set object name value)) fun V v =>
      V.Allows mode v ∧ V.Binds scope (Expr.set object name value).assured := by
  unfold Eval.evaluate
  refine (ih.expr h (.tail _ (.head _)) (binds_nil W scope)).bind fun V o hV ho => ?_
  split
  · refine (ih.expr (h.mono hV) (.head _) ho.2).bind fun U v hU hv => ?_
    refine (Safe.setField hv.1).bind fun X _ hX _ => .pure ⟨hv.1.mono hX.toSub, ?_⟩
    have hb := binds_append.2 ⟨ho.2.mono hU.toSub, hv.2⟩
    exact hb.mono hX.toSub
  · exact .fail (mode.permits_of_fault ⟨nofun, nofun, nofun, nofun⟩)

omit ih in
theorem function_expr {f : Function} (h : W.Placed mode scope (.expr (.function f))) :
    Safe mode W pending scope (Eval.evaluate (k + 1) (.function f)) fun V v =>
      V.Allows mode v ∧ V.Binds scope (Expr.function f).assured := by
  unfold Eval.evaluate
  refine Safe.makeClosure.bind ?_
  rintro V c hV ⟨rfl, rfl⟩
  have hp := h.mono hV
  cases hn : c.function.name with
  | none =>
    have hb : V.Binds c.scope (c.function.name.toList.map Name.text) := by
      rw [hn]; exact binds_nil V _
    exact .pure ⟨hp.runs.literal hb, hb⟩
  | some name =>
    have hnames : c.function.name.toList.map Name.text = [name.text] := by rw [hn]; rfl
    refine Safe.bind (Safe.define hp.runs.sees (fun hm => ?_) fun F hF => ?_)
      fun U _ _ hu => .pure ⟨hu.2, ?_⟩
    · have ha : V.Admits c.scope (c.function.name.toList.map Name.text) := hp.admits hm
      rw [hnames] at ha
      exact ha
    · -- the name is bound before the function can be called
      refine (hp.runs.mono (le_bind mode V F name.text).toSub).literal ?_
      rw [hnames]
      exact fun x hx => ⟨F, hF, Or.inr ⟨rfl, List.mem_singleton.1 hx⟩⟩
    · unfold Expr.assured
      rw [hnames]
      exact hu.1

theorem evaluate_succ {e : Expr} (h : W.Placed mode scope (.expr e)) :
    Safe mode W pending scope (Eval.evaluate (k + 1) e) fun V v =>
      V.Allows mode v ∧ V.Binds scope e.assured := by
  have none := binds_nil W scope
  cases e with
  | literal value => exact .pure ⟨allows_plain (Value.isPlain_ofLiteral value), none⟩
  | group e => exact ih.expr h (.head _) none
  | unary op line e =>
    unfold Eval.evaluate
    refine (ih.expr h (.head _) none).bind fun V v _ hv => .ofExcept (fun u hu => ?_) fun _ he => ?_
    · exact ⟨allows_plain (UnaryOp.apply_plain hu), hv.2⟩
    · exact UnaryOp.apply_error mode he
  | binary op line l r =>
    unfold Eval.evaluate
    refine (ih.expr h (.head _) none).bind fun V a hV ha => ?_
    refine (ih.expr (h.mono hV) (.tail _ (.head _)) ha.2).bind fun U b hU hb => ?_
    refine .ofExcept (fun u hu => ⟨allows_plain (BinaryOp.apply_plain hu), ?_⟩) fun _ he => ?_
    · exact binds_append.2 ⟨ha.2.mono hU.toSub, hb.2⟩
    · exact BinaryOp.apply_error mode he
  | logical op l r =>
    unfold Eval.evaluate
    refine (ih.expr h (.head _) none).bind fun V a hV ha => ?_
    split
    · exact .pure ha
    · refine (ih.expr (h.mono hV) (.tail _ (.head _)) ha.2).mono fun U b hU hb => ?_
      exact ⟨hb.1, ha.2.mono hU.toSub⟩
  | ternary c y n =>
    unfold Eval.evaluate
    refine (ih.expr h (.head _) none).bind fun V a hV ha => ?_
    split
    · refine (ih.expr (h.mono hV) (.tail _ (.head _)) ha.2).mono fun U b hU hb => ?_
      exact ⟨hb.1, ha.2.mono hU.toSub⟩
    · refine (ih.expr (h.mono hV) (.tail _ (.tail _ (.head _))) ha.2).mono fun U b hU hb => ?_
      exact ⟨hb.1, ha.2.mono hU.toSub⟩
  | «variable» site name =>
    refine Safe.proper fun hW => ?_
    refine (Safe.read (h.piece hW (.head _) none).runs).mono fun V v _ hv => ?_
    exact ⟨hv, binds_nil V scope⟩
  | this site line =>
    refine Safe.proper fun hW => ?_
    refine (Safe.read (h.piece hW (.head _) none).runs).mono fun V v _ hv => ?_
    exact ⟨hv, binds_nil V scope⟩
  | assign site name value =>
    unfold Eval.evaluate
    refine (ih.expr h (.head _) none).bind fun V v hV hv => Safe.proper fun hW => ?_
    refine (Safe.write ((h.mono hV).piece hW (.tail _ (.head _)) hv.2).runs hv.1).bind
      fun U _ hU _ => .pure ⟨hv.1.mono hU.toSub, hv.2.mono hU.toSub⟩
  | call callee line arguments => exact ih.call_expr h
  | get object name =>
    unfold Eval.evaluate
    refine (ih.expr h (.head _) none).bind fun V o _ ho => ?_
    split
    · exact (Safe.property ho.1).mono fun U v hU hv => ⟨hv, ho.2.mono hU.toSub⟩
    · exact .fail (mode.permits_of_fault ⟨nofun, nofun, nofun, nofun⟩)
  | set object name value => exact ih.set_expr h
  | function f => exact function_expr h

theorem evaluateAll_succ {es : List Expr} (h : W.Placed mode scope (.exprs es)) :
    Safe mode W pending scope (Eval.evaluateAll (k + 1) es) fun V vs =>
      (∀ v ∈ vs, V.Allows mode v) ∧ V.Binds scope (Expr.assuredAll es) := by
  cases es with
  | nil => exact .pure ⟨List.forall_mem_nil _, binds_nil W scope⟩
  | cons e es =>
    unfold Eval.evaluateAll
    refine (ih.expr h (.head _) (binds_nil W scope)).bind fun V v hV hv => ?_
    refine (ih.exprs (h.mono hV) (.tail _ (.head _)) hv.2).bind fun U vs hU hvs => .pure ⟨?_, ?_⟩
    · exact List.forall_mem_cons.2 ⟨hv.1.mono hU.toSub, hvs.1⟩
    · exact binds_append.2 ⟨hv.2.mono hU.toSub, hvs.2⟩

theorem evaluateOpt_succ {e : Option Expr} (h : W.Placed mode scope (.optional e)) :
    Safe mode W pending scope (Eval.evaluateOpt (k + 1) e) fun V v =>
      (∀ u ∈ v, V.Allows mode u) ∧ V.Binds scope (Expr.assuredOpt e) := by
  cases e with
  | none => exact .pure ⟨(fun _ hu => nomatch hu), binds_nil W scope⟩
  | some e =>
    unfold Eval.evaluateOpt
    refine (ih.expr h (.head _) (binds_nil W scope)).bind fun V v _ hv => .pure ⟨?_, hv.2⟩
    exact fun u hu => by cases hu; exact hv.1

/-! ## Calls -/

omit ih in
/-- What the body of a resolved function completes with fits a function. -/
theorem straight_body {f : Function} (hr : ¬ mode.raw) (hW : W.Proper)
    (h : W.Runs mode scope (.function f)) : Stmt.straysAll false true f.body = [] := by
  cases h with
  | @resolved p Γ w hp hv _ =>
    obtain ⟨-, ds, hds⟩ := hW _ hp
    obtain ⟨w', hw', -⟩ := hv.passes hds
    have reports := f.resolve_reports hv.inFunction?
    rw [show f.resolve w = .ok w' from hw'] at reports
    obtain ⟨title, params, body, line⟩ := f
    exact reports
  | raw hm _ _ => exact absurd hm hr

theorem call_succ {c : Callable} {args : List Value} (hs : W.Sees scope)
    (hc : W.Allows mode (.callable c)) (hargs : ∀ v ∈ args, W.Allows mode v)
    (ha : ¬ mode.hosted → args.length = c.arity) :
    Safe mode W pending scope (Eval.call (k + 1) c args) fun V v => V.Allows mode v := by
  cases c with
  | struct t => exact Safe.instantiate hc
  | native n => exact ih.callHost hc hs hargs
  | closure c =>
    unfold Eval.call
    have params (x : String) (hx : (bindParams c.function.params args).contains x = true) :
        x ∈ c.function.params.map Name.text ++ Stmt.declaresAll c.function.body :=
      List.mem_append_left _ (mem_of_contains_bindParams hx)
    refine Safe.proper fun hW => Safe.newScope params (fun x v hv => ?_) ?_
    · exact hargs v (mem_of_get?_bindParams hv)
    · have hbody := Runs.body hW hc fun hm x hx => contains_bindParams (ha hm) hx
      refine (Safe.within ((ih.executeAll hbody).also
        (P := fun d => ¬ mode.raw → d.Fits false true) fun m d m' h hr => ?_)).bind
        fun V d _ hd => ?_
      · exact (straight k).executeAll (straight_body hr hW hc) h
      cases d with
      | normal => exact .pure trivial
      | returned v => exact .pure hd.1
      | broken line | continued line =>
        refine .fail ⟨?_, fun hr => absurd (hd.2 hr) Bool.false_ne_true⟩
        rintro ⟨_, he⟩
        cases he

theorem callHost_succ {op : HostOperation} {args : List Value} (hm : mode.hosted)
    (hs : W.Sees scope) (hargs : ∀ v ∈ args, W.Allows mode v) :
    Safe mode W pending scope (Eval.callHost (k + 1) op args) fun V v => V.Allows mode v := by
  unfold Eval.callHost
  cases op with
  | clock => exact Safe.tick.bind fun _ _ _ _ => .pure trivial
  | double =>
    dsimp only
    split
    · exact .pure trivial
    · exact .fail (mode.permits_of_fault ⟨nofun, nofun, nofun, nofun⟩)
  | typeName | text | idle => exact .pure trivial
  | number =>
    refine (Safe.ofExcept (Q := fun _ _ => True) (fun _ _ => trivial) fun e he => ?_).bind
      fun _ _ _ _ => .pure trivial
    exact mode.permits_operand he
  | arity =>
    dsimp only
    split
    · exact .pure trivial
    · exact .fail (mode.permits_of_fault ⟨nofun, nofun, nofun, nofun⟩)
  | apply =>
    dsimp only
    split
    · next c hc =>
      have harg : W.Allows mode (.callable c) := by
        cases args with
        | nil => cases hc
        | cons v args => cases hc; exact hargs _ List.mem_cons_self
      refine ih.call hs harg (fun v hv => ?_) fun hh => absurd hm hh
      rw [List.mem_singleton] at hv
      subst hv
      rcases args with _ | ⟨_, _ | ⟨u, us⟩⟩
      · trivial
      · trivial
      · exact hargs u (.tail _ (.head _))
    · exact .fail (mode.permits_of_fault ⟨nofun, nofun, nofun, nofun⟩)
  | names => exact Safe.get fun _ _ _ => .pure trivial
  | nested => exact (ih.run hm hs).bind fun _ _ _ _ => .pure trivial
  | custom key =>
    refine Safe.bind (Q := fun _ _ => True) (Safe.hear hargs) fun V _ hV _ => ?_
    exact ih.converse hm (hs.mono hV.toSub)

/-- The host is told of each outcome, and goes on. -/
theorem converse_succ (hm : mode.hosted) (hs : W.Sees scope) :
    Safe mode W pending scope (Eval.converse (k + 1)) fun V v => V.Allows mode v := by
  unfold Eval.converse
  refine Safe.get fun m _ hma => ?_
  have hmove := hma.move hm
  have goOn {V : World} {event : HostEvent} (hV : Le mode W V)
      (he : event.Shows (V.Allows mode) mode.Permits) :
      Safe mode V pending scope (Eval.hear event >>= fun _ => Eval.converse k)
        fun V v => V.Allows mode v :=
    (Safe.hear he).bind fun U _ hU _ => ih.converse hm (hs.mono (hV.trans hU).toSub)
  cases h : m.host m.heard with
  | done outcome =>
    rw [h] at hmove
    refine .ofExcept (fun v hv => ?_) fun e he => ?_
    · subst hv; exact hmove
    · subst he; exact hmove
  | call c args =>
    rw [h] at hmove
    exact (ih.call hs hmove.1 hmove.2 fun hh => absurd hm hh).attempt hm
      fun V r hV hok herr => goOn hV (HostEvent.shows_answered hok herr)
  | run source =>
    exact (ih.run hm hs).attempt hm fun V r hV _ herr => goOn hV (HostEvent.shows_ran herr)

theorem run_succ {source : String} (hm : mode.hosted) (hs : W.Sees scope) :
    Safe mode W pending scope (Eval.run (k + 1) source) fun _ _ => True := by
  unfold Eval.run
  refine (Safe.load hm hs).bind fun V program _ hp => ?_
  exact ih.interpret hp.1 fun _ => hp.2

/-! ## Statements -/

/-- **The declaration of a variable.**  While its first value is computed it is pending. -/
theorem initial {name : Name} {value : Option Expr}
    (h : W.Placed mode scope (.stmt (.let name value))) :
    Safe mode W pending scope
      (Eval.evaluateOpt k value >>= fun v => Eval.define name.text (v.getD .null))
      fun V _ => V.Binds scope (name.text :: Expr.assuredOpt value) := by
  obtain ⟨F, hF⟩ : ∃ F, F ∈ scope.head? :=
    ⟨_, List.head?_eq_some_head h.runs.sees.1⟩
  have grown := le_begin mode W F name.text
  have waiting : Safe mode (W.begin F name.text) ((F, name.text) :: pending) scope
      (Eval.evaluateOpt k value >>= fun v => Eval.define name.text (v.getD .null))
      fun V _ => V.Binds scope (name.text :: Expr.assuredOpt value) := by
    have hv : (W.begin F name.text).Placed mode scope (.optional value) := by
      refine (h.mono grown).value fun G hG => Or.inr ⟨?_, rfl⟩
      rw [Option.mem_def.1 hG] at hF
      exact Option.some.inj hF
    refine (ih.evaluateOpt hv).bind fun V v hV hv => ?_
    have hp := h.mono (grown.trans hV)
    refine (Safe.define hp.runs.sees (fun hm x hx => hp.admits hm x ?_) fun G _ => ?_).mono
      fun U _ hU hu => binds_cons.2 ⟨hu.1, hv.2.mono hU.toSub⟩
    · rw [List.mem_singleton.1 hx]
      exact List.mem_cons_self
    · cases v with
      | none => trivial
      | some v => exact (hv.1 v rfl).mono (le_bind mode V G name.text).toSub
  intro m hs hm r m' hr
  obtain ⟨hs', V, hV, hrest⟩ := waiting m hs
    (hm.begin (h.runs.sees.2 F (List.mem_of_mem_head? hF))) r m' hr
  refine ⟨hs', V, grown.trans hV, ?_⟩
  cases r with
  | error e => exact hrest
  | ok u =>
    obtain ⟨hma, hb⟩ := hrest
    obtain ⟨G, hG, hbound⟩ := hb name.text List.mem_cons_self
    rw [Option.mem_def.1 hF] at hG
    cases hG
    exact ⟨hma.complete hbound, hb⟩

omit ih in
/-- A scope of its own, in which nothing is bound at first. -/
theorem fresh_scope (names left : List String) {act : Chain → Eval Completion}
    (h : Safe mode (W.push names fun x => (Bindings.empty : Bindings Value).contains x = true)
      pending (W.size :: scope) (act (W.size :: scope))
      fun V c => V.Leaves mode (W.size :: scope) left c) :
    Safe mode W pending scope
      (do
        let inner ← Eval.newScope (← get).scope .empty
        within inner (act inner))
      fun V c => V.Leaves mode scope [] c := by
  refine Safe.get fun m hs _ => ?_
  rw [hs]
  have nothing (x : String) (hx : (Bindings.empty : Bindings Value).contains x = true) :
      x ∈ names := by
    rw [Bindings.contains_empty] at hx
    cases hx
  refine Safe.newScope nothing (fun x v hv => ?_) ((Safe.within h).mono fun _ _ _ hc => hc.forget)
  rw [Bindings.get?_empty] at hv
  cases hv

theorem for_stmt {name : Name} {value condition step : Option Expr} {body : Stmt}
    (h : W.Placed mode scope (.stmt (.for name value condition step body))) :
    Safe mode W pending scope (Eval.execute (k + 1) (.for name value condition step body))
      fun V c => V.Leaves mode scope [] c := by
  unfold Eval.execute
  dsimp only
  refine Safe.proper fun hW => fresh_scope (declaresInLoop name value condition step body)
    (Expr.assuredOpt condition) ?_
  have hp := h.clauses hW fun x => (Bindings.empty : Bindings Value).contains x = true
  rw [← bind_assoc]
  refine Safe.proper fun hW' => ?_
  refine (ih.initial (hp.piece hW' (.head _) (binds_nil _ _))).bind fun V _ hV hb => ?_
  exact Safe.proper fun hV' => ih.loop (.of_clauses hV' (hp.mono hV) hb)

theorem execute_succ {s : Stmt} (h : W.Placed mode scope (.stmt s)) :
    Safe mode W pending scope (Eval.execute (k + 1) s) fun V c =>
      V.Leaves mode scope s.assured c := by
  have none := binds_nil W scope
  cases s with
  | expression e =>
    unfold Eval.execute
    exact (ih.expr h (.head _) none).bind fun V v _ hv => .pure hv.2
  | print e =>
    unfold Eval.execute
    refine (ih.expr h (.head _) none).bind fun V v _ hv => ?_
    exact Safe.print.bind fun U _ hU _ => .pure (hv.2.mono hU.toSub)
  | «let» name value =>
    unfold Eval.execute
    dsimp only
    rw [← bind_assoc]
    exact (ih.initial h).bind fun V _ _ hb => .pure hb
  | block body =>
    unfold Eval.execute
    dsimp only
    refine Safe.proper fun hW => fresh_scope (Stmt.declaresAll body) (Stmt.assuredAll body) ?_
    exact ih.executeAll (h.block hW _)
  | «if» condition yes no =>
    unfold Eval.execute
    refine (ih.expr h (.head _) none).bind fun V v hV hv => Safe.proper fun hV' => ?_
    have hp := h.mono hV
    split
    · refine (ih.execute (hp.piece hV' (.tail _ (.head _)) hv.2)).mono fun U c hU hc => ?_
      exact hc.imp fun _ => hv.2.mono hU.toSub
    · have hno := hp.piece hV' (.tail _ (.tail _ (.head _))) hv.2
      cases no with
      | none => exact .pure hv.2
      | some no =>
        refine (ih.execute (hno.piece hV' (.head _) (binds_nil V scope))).mono fun U c hU hc => ?_
        exact hc.imp fun _ => hv.2.mono hU.toSub
  | «while» condition body =>
    unfold Eval.execute
    exact Safe.proper fun hW => ih.loop (.of_while hW h)
  | «for» name value condition step body => exact ih.for_stmt h
  | «break» line | «continue» line => exact .pure trivial
  | «return» line value =>
    unfold Eval.execute
    refine (ih.optional h (.head _) none).bind fun V v _ hv => .pure ?_
    cases v with
    | none => trivial
    | some v => exact hv.1 v rfl
  | struct name methods =>
    unfold Eval.execute
    exact (Safe.declareStruct h).bind fun V _ _ hb => .pure hb

theorem executeAll_succ {ss : List Stmt} (h : W.Placed mode scope (.stmts ss)) :
    Safe mode W pending scope (Eval.executeAll (k + 1) ss) fun V c =>
      V.Leaves mode scope (Stmt.assuredAll ss) c := by
  cases ss with
  | nil => exact .pure (binds_nil W scope)
  | cons s ss =>
    unfold Eval.executeAll
    refine Safe.proper fun hW => (ih.execute (h.piece hW (.head _) (binds_nil W scope))).bind
      fun V c hV hc => ?_
    cases c with
    | normal =>
      refine Safe.proper fun hV' => ?_
      refine (ih.executeAll ((h.mono hV).piece hV' (.tail _ (.head _)) hc)).mono fun U d hU hd => ?_
      exact hd.imp fun hb => binds_append.2 ⟨World.Binds.mono hU.toSub hc, hb⟩
    | broken | continued | returned => exact .pure hc

omit ih in
theorem evaluateOpt_none :
    Safe mode W pending scope (Eval.evaluateOpt k none) fun _ _ => True := by
  cases k with
  | zero => exact .exhausted
  | succ k => exact .pure trivial

theorem loop_succ {condition step : Option Expr} {body : Stmt}
    (h : W.Rounds mode scope condition step body) :
    Safe mode W pending scope (Eval.loop (k + 1) condition step body) fun V c =>
      V.Leaves mode scope (Expr.assuredOpt condition) c := by
  unfold Eval.loop
  refine (ih.evaluateOpt h.test).bind fun V v hV hv => Safe.proper fun hV' => ?_
  obtain ⟨-, hbody⟩ := h.others V hV' hV hv.2
  split
  · refine (ih.execute hbody.round).bind fun U c hU hc => ?_
    have hb := hv.2.mono hU.toSub
    have goOn : Safe mode U pending scope
        (Eval.evaluateOpt k step >>= fun _ => Eval.loop k condition step body)
        fun V c => V.Leaves mode scope (Expr.assuredOpt condition) c := by
      refine Safe.proper fun hU' => ?_
      have again {X : World} (hX : Le mode U X) := ((h.mono hV).mono hU).mono hX
      obtain ⟨rfl | hstep, -⟩ := h.others U hU' (hV.trans hU) hb
      · exact evaluateOpt_none.bind fun X _ hX _ => ih.loop (again hX)
      · exact (ih.evaluateOpt hstep).bind fun X _ hX _ => ih.loop (again hX)
    cases c with
    | broken line => exact .pure hb
    | returned u => exact .pure hc
    | normal | continued => exact goOn
  · exact .pure hv.2

theorem interpret_succ {ss : List Stmt} (h : W.Placed mode scope (.stmts ss))
    (hr : ¬ mode.raw → strays ss = []) :
    Safe mode W pending scope (Eval.interpret (k + 1) ss) fun _ _ => True := by
  cases ss with
  | nil => exact Safe.flush
  | cons s ss =>
    unfold Eval.interpret
    have first (hm : ¬ mode.raw) := List.append_eq_nil_iff.1 (hr hm)
    refine Safe.proper fun hW => Safe.bind (Safe.also
      (ih.execute (h.piece hW (.head _) (binds_nil W scope)))
      (P := fun c => ¬ mode.raw → c.Fits false false) fun m c m' hc hm => ?_) fun V c hV hc => ?_
    · exact (straight k).execute (first hm).1 hc
    · have stray (line : Nat) (fault : RuntimeFault) (hf : fault ≠ .scopeOutOfRange)
          (hm : mode.raw) : mode.Permits (.runtime line fault) :=
        ⟨by rintro ⟨_, he⟩; cases he; exact hf rfl, fun h => absurd hm h⟩
      have settled : Safe mode V pending scope (Eval.settle c) fun V _ =>
          V.Binds scope s.assured := by
        cases c with
        | normal => exact .pure hc.1
        | broken | continued | returned =>
          refine .fail (stray _ _ nofun (Classical.byContradiction fun hm => ?_))
          exact Bool.false_ne_true (hc.2 hm)
      refine settled.bind fun U _ hU hb => Safe.proper fun hU' => ?_
      refine ih.interpret (((h.mono hV).mono hU).piece hU' (.tail _ (.head _)) hb) fun hm => ?_
      exact (first hm).2

theorem succ : Kept mode (k + 1) where
  evaluate := ih.evaluate_succ
  evaluateAll := ih.evaluateAll_succ
  evaluateOpt := ih.evaluateOpt_succ
  call := ih.call_succ
  callHost := ih.callHost_succ
  converse := ih.converse_succ
  execute := ih.execute_succ
  executeAll := ih.executeAll_succ
  loop := ih.loop_succ
  interpret := ih.interpret_succ
  run := ih.run_succ

end Kept

/-- **Whatever is run keeps machines in agreement with growing worlds.** -/
theorem kept (mode : Mode) : ∀ k, Kept mode k
  | 0 => kept_zero mode
  | k + 1 => (kept mode k).succ

end Eval

end Scriptling
