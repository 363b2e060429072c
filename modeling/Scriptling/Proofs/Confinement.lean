/-
  Confinement — running parts that have none of some sites.

  * `Part.Confined`: a part is confined if what it stands in is;
  * `Eval.confined`: running a confined part has nothing to do with the sites, on machines that
    have nothing to do with them.
-/
import Scriptling.Proofs.Detached

namespace Scriptling

namespace Part.Confined

variable {S : Nat → Prop} {names : List String}

theorem value {name : Name} {value : Option Expr}
    (h : (Part.stmt (.let name value)).Confined S names) : (Part.optional value).Confined S names :=
  ⟨h.apart.inside .value, fun _ hx => h.declares (List.mem_cons_of_mem _ hx)⟩

theorem round {body : Stmt} (h : (Part.rounds body).Confined S names) :
    (Part.stmt body).Confined S names := ⟨h.apart.inside .round, h.declares⟩

theorem none : (Part.optional none).Confined S names :=
  ⟨List.forall_mem_nil _, List.nil_subset _⟩

end Part.Confined

theorem Part.Apart.method {S : Nat → Prop} {fs : List Function} (h : (Part.methods fs).Apart S) :
    ∀ f ∈ fs, (Part.function f).Apart S := by
  induction fs with
  | nil => exact List.forall_mem_nil _
  | cons f fs ih =>
    have hf : (Part.method f).Apart S := h.inside (.piece (.head _))
    exact List.forall_mem_cons.2
      ⟨hf.inside .receiver, ih (h.inside (.piece (.tail _ (.head _))))⟩

/-- The value that a function ends with is of a kind. -/
def Kind.AdmitsCompletion (K : Kind) : Completion → Prop
  | .returned v => K.Admits v
  | .normal | .broken _ | .continued _ => True

namespace Eval

/-! ## Structs -/

namespace Detached

variable {S : Nat → Prop} {names : List String}

theorem closures {fs : List Function} {table : Bindings Closure}
    (ht : ∀ x c, table.get? x = some c → (Kind.apart S).method c)
    (hfs : ∀ f ∈ fs, (Part.function f).Apart S) :
    Detached S names
      (fs.foldlM (fun table f => do return table.set f.title (← Eval.makeClosure f)) table)
      fun table => ∀ x c, table.get? x = some c → (Kind.apart S).method c := by
  induction fs generalizing table with
  | nil => exact .pure ht
  | cons f fs ih =>
    obtain ⟨hf, hfs⟩ := List.forall_mem_cons.1 hfs
    rw [List.foldlM_cons]
    refine .bind (.bind (.makeClosure f) fun c hc => .pure fun x d hd => ?_)
      fun table ht => ih ht hfs
    rw [Bindings.get?_set] at hd
    split at hd
    · cases hd
      rw [← hc] at hf
      exact hf
    · exact ht x d hd

theorem declareStruct {name : Name} {methods : List Function} (hname : name.text ∈ names)
    (h : (Part.methods methods).Apart S) :
    Detached S names (Eval.declareStruct name methods) fun _ => True := by
  have none (x : String) (c : Closure) (hc : (Bindings.empty : Bindings Closure).get? x = some c) :
      (Kind.apart S).method c := by
    simp at hc
  exact .bind (.define hname trivial) fun _ _ => .bind (.closures none h.method) fun table ht =>
    .bind .freshIdentity fun i _ => .assign ht

end Detached

/-! ## The evaluation -/

/-- What is known of everything that is run with some fuel. -/
structure Confining (S : Nat → Prop) (k : Nat) : Prop where
  evaluate {e names} : (Part.expr e).Confined S names →
    Detached S names (Eval.evaluate k e) (Kind.apart S).Admits
  evaluateAll {es names} : (Part.exprs es).Confined S names →
    Detached S names (Eval.evaluateAll k es) fun vs => ∀ v ∈ vs, (Kind.apart S).Admits v
  evaluateOpt {e names} : (Part.optional e).Confined S names →
    Detached S names (Eval.evaluateOpt k e) fun v => (Kind.apart S).Admits (v.getD .null)
  call {c args names} : (Kind.apart S).Admits (.callable c) →
    (∀ v ∈ args, (Kind.apart S).Admits v) →
    Detached S names (Eval.call k c args) (Kind.apart S).Admits
  callHost {op args names} : op.Answers → (∀ v ∈ args, (Kind.apart S).Admits v) →
    Detached S names (Eval.callHost k op args) (Kind.apart S).Admits
  converse {names} : Detached S names (Eval.converse k) (Kind.apart S).Admits
  execute {s names} : (Part.stmt s).Confined S names →
    Detached S names (Eval.execute k s) (Kind.apart S).AdmitsCompletion
  executeAll {ss names} : (Part.stmts ss).Confined S names →
    Detached S names (Eval.executeAll k ss) (Kind.apart S).AdmitsCompletion
  loop {condition step body names} : (Part.optional condition).Confined S names →
    (Part.optional step).Confined S names → (Part.stmt body).Confined S names →
    Detached S names (Eval.loop k condition step body) (Kind.apart S).AdmitsCompletion
  interpret {ss names} : (Part.stmts ss).Confined S names →
    Detached S names (Eval.interpret k ss) fun _ => True

theorem confining_zero (S : Nat → Prop) : Confining S 0 where
  evaluate _ := .exhausted
  evaluateAll _ := .exhausted
  evaluateOpt _ := .exhausted
  call _ _ := .exhausted
  callHost _ _ := .exhausted
  converse := .exhausted
  execute _ := .exhausted
  executeAll _ := .exhausted
  loop _ _ _ := .exhausted
  interpret _ := .exhausted

namespace Confining

variable {S : Nat → Prop} {k : Nat} {names : List String} (ih : Confining S k)
include ih

theorem evaluate_succ {e : Expr} (h : (Part.expr e).Confined S names) :
    Detached S names (Eval.evaluate (k + 1) e) (Kind.apart S).Admits := by
  unfold Eval.evaluate
  cases e with
  | literal value => exact .pure (Kind.admits_plain (Value.isPlain_ofLiteral value))
  | group e => exact ih.evaluate (h.piece (.head _))
  | unary op line e =>
    exact (ih.evaluate (h.piece (.head _))).bind fun v _ =>
      .ofExcept fun u hu => Kind.admits_plain (UnaryOp.apply_plain hu)
  | binary op line l r =>
    exact (ih.evaluate (h.piece (.head _))).bind fun a _ =>
      (ih.evaluate (h.piece (.tail _ (.head _)))).bind fun b _ =>
        .ofExcept fun u hu => Kind.admits_plain (BinaryOp.apply_plain hu)
  | logical op l r =>
    refine (ih.evaluate (h.piece (.head _))).bind fun a ha => ?_
    split
    · exact .pure ha
    · exact ih.evaluate (h.piece (.tail _ (.head _)))
  | ternary c y n =>
    refine (ih.evaluate (h.piece (.head _))).bind fun v _ => ?_
    split
    · exact ih.evaluate (h.piece (.tail _ (.head _)))
    · exact ih.evaluate (h.piece (.tail _ (.tail _ (.head _))))
  | «variable» site name => exact .read ((h.piece (.head _)).apart site List.mem_cons_self)
  | this site line => exact .read ((h.piece (.head _)).apart site List.mem_cons_self)
  | assign site name value =>
    have hs : ¬ S site := (h.piece (.tail _ (.head _))).apart site List.mem_cons_self
    exact (ih.evaluate (h.piece (.head _))).bind fun v hv =>
      (Detached.write hs hv).bind fun _ _ => .pure hv
  | call callee line arguments =>
    refine (ih.evaluate (h.piece (.head _))).bind fun f hf =>
      (ih.evaluateAll (h.piece (.tail _ (.head _)))).bind fun args hargs => ?_
    split
    · split
      · exact ih.call hf hargs
      · exact .fail _ _
    · exact .fail _ _
  | get object name =>
    refine (ih.evaluate (h.piece (.head _))).bind fun o ho => ?_
    split
    · exact .property ho
    · exact .fail _ _
  | set object name value =>
    refine (ih.evaluate (h.piece (.tail _ (.head _)))).bind fun o ho => ?_
    split
    · exact (ih.evaluate (h.piece (.head _))).bind fun v hv =>
        (Detached.setField hv).bind fun _ _ => .pure hv
    · exact .fail _ _
  | function f =>
    refine (Detached.makeClosure f).bind fun c hc => ?_
    have hclosure : (Kind.apart S).Admits (.callable (.closure c)) := by
      rw [← hc] at h
      exact h.apart.inside .literal
    dsimp only
    split
    · next name hn =>
      have hmem : name.text ∈ names := h.declares (by simp [Part.declares, Expr.declares, hn])
      exact (Detached.define hmem hclosure).bind fun _ _ => .pure hclosure
    · exact .pure hclosure

theorem evaluateAll_succ {es : List Expr} (h : (Part.exprs es).Confined S names) :
    Detached S names (Eval.evaluateAll (k + 1) es)
      fun vs => ∀ v ∈ vs, (Kind.apart S).Admits v := by
  cases es with
  | nil => exact .pure (List.forall_mem_nil _)
  | cons e es =>
    exact (ih.evaluate (h.piece (.head _))).bind fun v hv =>
      (ih.evaluateAll (h.piece (.tail _ (.head _)))).bind fun vs hvs =>
        .pure (List.forall_mem_cons.2 ⟨hv, hvs⟩)

theorem evaluateOpt_succ {e : Option Expr} (h : (Part.optional e).Confined S names) :
    Detached S names (Eval.evaluateOpt (k + 1) e)
      fun v => (Kind.apart S).Admits (v.getD .null) := by
  cases e with
  | none => exact .pure trivial
  | some e => exact (ih.evaluate (h.piece (.head _))).bind fun v hv => .pure hv

theorem call_succ {c : Callable} {args : List Value} (hc : (Kind.apart S).Admits (.callable c))
    (hargs : ∀ v ∈ args, (Kind.apart S).Admits v) :
    Detached S names (Eval.call (k + 1) c args) (Kind.apart S).Admits := by
  cases c with
  | closure c =>
    unfold Eval.call
    dsimp only
    rw [← bind_assoc]
    have hbody : (Part.stmts c.function.body).Apart S := by
      cases hf : c.function with
      | mk title params body line =>
        have happ : (Part.function c.function).Apart S := hc
        rw [hf] at happ
        exact happ.inside .body
    refine (Detached.inside (fun _ _ => Kind.admits_bindParams hargs)
      (ih.executeAll hbody.confined)).bind fun completion hcompletion => ?_
    cases completion with
    | normal => exact .pure trivial
    | returned v => exact .pure hcompletion
    | broken | continued => exact .fail _ _
  | struct t => exact .instantiate hc
  | native n => exact ih.callHost hc hargs

theorem callHost_succ {op : HostOperation} {args : List Value} (hop : op.Answers)
    (hargs : ∀ v ∈ args, (Kind.apart S).Admits v) :
    Detached S names (Eval.callHost (k + 1) op args) (Kind.apart S).Admits := by
  unfold Eval.callHost
  cases op with
  | apply | nested => exact hop.elim
  | clock => exact Detached.tick.bind fun now _ => .pure trivial
  | typeName | text | idle => exact .pure trivial
  | double | arity =>
    dsimp only
    split
    · exact .pure trivial
    · exact .fail _ _
  | number => exact (Detached.ofExcept fun _ _ => trivial).bind fun n _ => .pure trivial
  | names => exact .get (fun _ _ => rfl) fun _ _ => .pure trivial
  | custom key =>
    have shown : (HostEvent.called key args).Shows (Kind.apart S).Admits fun _ => True := hargs
    exact (Detached.hear shown).bind fun _ _ => ih.converse

omit ih in
theorem converse_succ : Detached S names (Eval.converse (k + 1)) (Kind.apart S).Admits := by
  unfold Eval.converse
  refine .get (fun _ _ => rfl) fun m hm => ?_
  obtain ⟨outcome, hmove, hout⟩ :=
    hm.host (Kind.apart S).Admits (fun _ => Kind.admits_plain) (fun _ hn => hn) m.heard hm.heard
  rw [hmove]
  exact .ofExcept hout

/-- What a `for` does in the scope of its variable. -/
theorem clauses {name : Name} {value condition step : Option Expr} {body : Stmt}
    (h : (Part.clauses name value condition step body).Confined S names) :
    Detached S names (do
      let v ← Eval.evaluateOpt k value
      Eval.define name.text (v.getD .null)
      Eval.loop k condition step body) (Kind.apart S).AdmitsCompletion := by
  have hlet : (Part.stmt (.let name value)).Confined S names := h.piece (.head _)
  have hrounds : (Part.rounds body).Confined S names :=
    h.piece (.tail _ (.tail _ (.tail _ (.head _))))
  exact (ih.evaluateOpt hlet.value).bind fun v hv =>
    (Detached.define (hlet.declares List.mem_cons_self) hv).bind fun _ _ =>
      ih.loop (h.piece (.tail _ (.head _))) (h.piece (.tail _ (.tail _ (.head _)))) hrounds.round

theorem execute_succ {s : Stmt} (h : (Part.stmt s).Confined S names) :
    Detached S names (Eval.execute (k + 1) s) (Kind.apart S).AdmitsCompletion := by
  unfold Eval.execute
  cases s with
  | expression e => exact (ih.evaluate (h.piece (.head _))).bind fun v _ => .pure trivial
  | print e =>
    exact (ih.evaluate (h.piece (.head _))).bind fun v _ => (Detached.print _).bind fun _ _ =>
      .pure trivial
  | «let» name value =>
    exact (ih.evaluateOpt h.value).bind fun v hv =>
      (Detached.define (h.declares List.mem_cons_self) hv).bind fun _ _ => .pure trivial
  | block body =>
    have hbody : (Part.stmts body).Apart S := h.apart.inside .block
    exact .get (fun _ _ => rfl) fun m _ => .inside (fun x v hv => by simp at hv)
      (ih.executeAll hbody.confined)
  | «if» condition yes no =>
    refine (ih.evaluate (h.piece (.head _))).bind fun v _ => ?_
    split
    · exact ih.execute (h.piece (.tail _ (.head _)))
    · cases no with
      | none => exact .pure trivial
      | some s =>
        exact ih.execute ((h.piece (.tail _ (.tail _ (.head _)))).piece (.head _))
  | «while» condition body =>
    have hbody : (Part.rounds body).Confined S names := h.piece (.tail _ (.head _))
    exact ih.loop (h.piece (.head _)) .none hbody.round
  | «for» name value condition step body =>
    have hclauses : (Part.clauses name value condition step body).Apart S := h.apart.inside .loop
    exact .get (fun _ _ => rfl) fun m _ => .inside (fun x v hv => by simp at hv)
      (ih.clauses hclauses.confined)
  | «break» | «continue» => exact .pure trivial
  | «return» line value =>
    exact (ih.evaluateOpt (h.piece (.head _))).bind fun v hv => .pure hv
  | struct name methods =>
    have hname : name.text ∈ names := h.declares List.mem_cons_self
    exact (Detached.declareStruct hname (h.apart.inside .methods)).bind fun _ _ => .pure trivial

theorem executeAll_succ {ss : List Stmt} (h : (Part.stmts ss).Confined S names) :
    Detached S names (Eval.executeAll (k + 1) ss) (Kind.apart S).AdmitsCompletion := by
  cases ss with
  | nil => exact .pure trivial
  | cons s ss =>
    refine (ih.execute (h.piece (.head _))).bind fun c hc => ?_
    split
    · exact ih.executeAll (h.piece (.tail _ (.head _)))
    · exact .pure hc

theorem loop_succ {condition step : Option Expr} {body : Stmt}
    (hc : (Part.optional condition).Confined S names)
    (hs : (Part.optional step).Confined S names) (hb : (Part.stmt body).Confined S names) :
    Detached S names (Eval.loop (k + 1) condition step body) (Kind.apart S).AdmitsCompletion := by
  unfold Eval.loop
  refine (ih.evaluateOpt hc).bind fun v _ => ?_
  split
  · refine (ih.execute hb).bind fun c hcompletion => ?_
    split
    · exact .pure trivial
    · exact .pure hcompletion
    · exact (ih.evaluateOpt hs).bind fun _ _ => ih.loop hc hs hb
  · exact .pure trivial

theorem interpret_succ {ss : List Stmt} (h : (Part.stmts ss).Confined S names) :
    Detached S names (Eval.interpret (k + 1) ss) fun _ => True := by
  cases ss with
  | nil => exact .flush
  | cons s ss =>
    refine (ih.execute (h.piece (.head _))).bind fun c _ => .bind (Q := fun _ => True) ?_
      fun _ _ => ih.interpret (h.piece (.tail _ (.head _)))
    cases c with
    | normal => exact .pure trivial
    | returned | broken | continued => exact .fail _ _

theorem succ : Confining S (k + 1) where
  evaluate := ih.evaluate_succ
  evaluateAll := ih.evaluateAll_succ
  evaluateOpt := ih.evaluateOpt_succ
  call := ih.call_succ
  callHost := ih.callHost_succ
  converse := converse_succ
  execute := ih.execute_succ
  executeAll := ih.executeAll_succ
  loop := ih.loop_succ
  interpret := ih.interpret_succ

end Confining

/-- **Running what has none of some sites has nothing to do with them.** -/
theorem confined (S : Nat → Prop) : ∀ k, Confining S k
  | 0 => confining_zero S
  | k + 1 => (confined S k).succ

end Eval

end Scriptling
