/-
  Sites — what a parsed program refers with, and what it declares.

  A rule of the grammar gives each reference a site of its own, and declares only names that
  stand in the text.

  * `Parser.Draws`: what a rule makes of the sites drawn so far; `Parser.grammar`: the rules
    draw exactly the sites of what they read;
  * `parseUpTo_draws`, `parse_draws`: the sites of a program are new and all different;
  * `Eval.parseText_eq`, `Eval.load_eq`: what parsing and loading a text do to a machine.
-/
import Mathlib.Data.List.Nodup
import Mathlib.Data.List.Perm.Subperm
import Scriptling.Evaluation
import Scriptling.Proofs.Parts
import Scriptling.Proofs.Scanning

namespace Scriptling

/-- All names that a part declares, in the scope around or inside, have a property. -/
def Part.Named (N : String → Prop) (p : Part) : Prop := ∀ x ∈ p.declares ++ p.encloses, N x

/-- All names that stand in a text have a property. -/
def Spelled (N : String → Prop) (ts : List Token) : Prop :=
  ∀ t ∈ ts, t.kind = .identifier → N t.lexeme

/-- The sites are all different and have been given out between two numbers. -/
structure Drawn (lo hi : Nat) (sites : List Nat) : Prop where
  le : lo ≤ hi
  nodup : sites.Nodup
  bounds : ∀ s ∈ sites, lo ≤ s ∧ s < hi

namespace Drawn

variable {lo mid hi : Nat} {ss ts : List Nat}

theorem nil (lo : Nat) : Drawn lo lo [] := ⟨Nat.le_refl lo, List.nodup_nil, by simp⟩

theorem of_subperm (h : Drawn lo hi ss) (hs : ts.Subperm ss) : Drawn lo hi ts := by
  obtain ⟨us, hp, hsub⟩ := hs
  exact ⟨h.le, hp.nodup_iff.1 (h.nodup.sublist hsub),
    fun s hm => h.bounds s (hsub.subset (hp.mem_iff.2 hm))⟩

theorem snoc (h : Drawn lo hi ss) : Drawn lo (hi + 1) (ss ++ [hi]) := by
  refine ⟨Nat.le_succ_of_le h.le, ?_, fun s hs => ?_⟩
  · refine List.nodup_append.2 ⟨h.nodup, List.nodup_singleton _, fun a ha b hb => ?_⟩
    have hlt := (h.bounds a ha).2
    rw [List.mem_singleton.1 hb]
    omega
  · rcases List.mem_append.1 hs with hs | hs
    · have hb := h.bounds s hs; omega
    · have hlo := h.le; rw [List.mem_singleton.1 hs]; omega

/-- Sites drawn one after the other. -/
theorem append (h : Drawn lo mid ss) (h' : Drawn mid hi ts) : Drawn lo hi (ss ++ ts) := by
  refine ⟨Nat.le_trans h.le h'.le, ?_, fun s hs => ?_⟩
  · refine List.nodup_append.2 ⟨h.nodup, h'.nodup, fun a ha b hb => ?_⟩
    have := (h.bounds a ha).2
    have := (h'.bounds b hb).1
    omega
  · have := h.le
    have := h'.le
    rcases List.mem_append.1 hs with hs | hs
    · have := h.bounds s hs
      omega
    · have := h'.bounds s hs
      omega

theorem widen (h : Drawn mid hi ss) (hle : lo ≤ mid) : Drawn lo hi ss :=
  ⟨Nat.le_trans hle h.le, h.nodup, fun s hs => by have := h.bounds s hs; omega⟩

end Drawn

theorem spelled_frontToken {N : String → Prop} {ts : List Token} (h : Spelled N ts)
    (hk : (frontToken ts).kind = .identifier) : N (frontToken ts).lexeme := by
  cases ts with
  | nil => cases hk
  | cons t ts => exact h t List.mem_cons_self hk

namespace Parser

/-! ## What rules draw -/

/-- From the sites drawn before, a rule that succeeds with `a` makes the sites `f a` and
    ensures `G a`; one that fails has at most drawn more, and fails statically. -/
def Draws {α : Type} (N : String → Prop) (lo : Nat) (ss : List Nat) (p : Parser α)
    (f : α → List Nat) (G : α → Prop) : Prop :=
  ∀ c, Spelled N c.rest → Drawn lo c.nextSite ss →
    match p c with
    | .ok a c' => Spelled N c'.rest ∧ Drawn lo c'.nextSite (f a) ∧ G a
    | .error e c' => lo ≤ c'.nextSite ∧ e.isStatic = true

section Draws

variable {α β : Type} {N : String → Prop} {lo : Nat} {ss : List Nat}

theorem Draws.pure {a : α} {f : α → List Nat} {G : α → Prop} (hs : (f a).Subperm ss) (hG : G a) :
    Draws N lo ss (Pure.pure a) f G := fun _ hc hd => ⟨hc, hd.of_subperm hs, hG⟩

theorem Draws.bind {p : Parser α} {q : α → Parser β} {f : α → List Nat} {g : β → List Nat}
    {G : α → Prop} {H : β → Prop} (hp : Draws N lo ss p f G)
    (hq : ∀ a, G a → Draws N lo (f a) (q a) g H) : Draws N lo ss (p >>= q) g H := by
  intro c hc hd
  have h := hp c hc hd
  simp only [Bind.bind, EStateM.bind]
  cases hpc : p c with
  | error e c' => rw [hpc] at h; exact h
  | ok a c' => rw [hpc] at h; exact hq a h.2.2 c' h.1 h.2.1

theorem Draws.map {p : Parser α} {k : α → β} {f : α → List Nat} {g : β → List Nat}
    {G : α → Prop} {H : β → Prop} (hp : Draws N lo ss p f G)
    (hq : ∀ a, G a → (g (k a)).Subperm (f a) ∧ H (k a)) :
    Draws N lo ss (p >>= fun a => Pure.pure (k a)) g H :=
  hp.bind fun a ha => .pure (hq a ha).1 (hq a ha).2

theorem Draws.ite {c : Prop} [Decidable c] {p q : Parser α} {f : α → List Nat} {G : α → Prop}
    (hp : c → Draws N lo ss p f G) (hq : ¬c → Draws N lo ss q f G) :
    Draws N lo ss (if c then p else q) f G := by
  split
  · exact hp ‹c›
  · exact hq ‹¬c›

theorem draws_fault {fault : SyntaxFault} {f : α → List Nat} {G : α → Prop} :
    Draws N lo ss (Parser.fault fault) f G := fun _ _ hd => ⟨hd.le, rfl⟩

theorem draws_throw {t : Token} {fault : SyntaxFault} {f : α → List Nat} {G : α → Prop} :
    Draws N lo ss (throw (t.fault fault) : Parser α) f G := fun _ _ hd => ⟨hd.le, rfl⟩

theorem draws_peek : Draws N lo ss peek (fun _ => ss)
    fun t => t.kind = .identifier → N t.lexeme :=
  fun _ hc hd => ⟨hc, hd, spelled_frontToken hc⟩

theorem draws_advance : Draws N lo ss advance (fun _ => ss) fun _ => True :=
  fun _ hc hd => ⟨fun t ht => hc t (List.mem_of_mem_tail ht), hd, trivial⟩

theorem draws_freshSite : Draws N lo ss freshSite (fun s => ss ++ [s]) fun _ => True :=
  fun _ hc hd => ⟨hc, hd.snoc, trivial⟩

theorem draws_accept {kind : TokenKind} :
    Draws N lo ss (accept kind) (fun _ => ss) fun _ => True :=
  draws_peek.bind fun _ _ => .ite
    (fun _ => draws_advance.map fun _ _ => ⟨List.Subperm.refl _, trivial⟩)
    (fun _ => .pure (List.Subperm.refl _) trivial)

theorem draws_expect {kind : TokenKind} {what : Expected} :
    Draws N lo ss (expect kind what) (fun _ => ss)
      fun t => t.kind = kind ∧ (t.kind = .identifier → N t.lexeme) :=
  draws_peek.bind fun _ ht => .ite
    (fun hk => draws_advance.map fun _ _ => ⟨List.Subperm.refl _, hk, ht⟩)
    (fun _ => draws_fault)

theorem draws_name {what : Expected} :
    Draws N lo ss (name what) (fun _ => ss) fun n => N n.text :=
  draws_expect.map fun _ ht => ⟨List.Subperm.refl _, ht.2 ht.1⟩

theorem draws_parameters : ∀ {room : Nat},
    Draws N lo ss (parameters room) (fun _ => ss) fun ps => ∀ p ∈ ps, N p.text
  | 0 => draws_fault
  | _ + 1 => draws_name.bind fun _ hp => draws_accept.bind fun _ _ => .ite
      (fun _ => draws_parameters.map fun _ hps => ⟨List.Subperm.refl _, by simpa using ⟨hp, hps⟩⟩)
      (fun _ => .pure (List.Subperm.refl _) (by simpa using hp))

end Draws

/-- A rule that draws the sites of what it reads, and reads only names with a property. -/
def Reads {α : Type} (N : String → Prop) (p : Parser α) (part : α → Part) : Prop :=
  ∀ lo ss, Draws N lo ss p (fun a => ss ++ (part a).sites) fun a => (part a).Named N

/-! ## The rules of the grammar -/

/-- What the rules of the grammar read when they descend no deeper than a bound. -/
structure Grammar (N : String → Prop) (depth : Nat) : Prop where
  expression : Reads N (expression depth) .expr
  ternary : Reads N (ternary depth) .expr
  operation (level : Level) : Reads N (operation level depth) .expr
  operationRest (level : Level) (left : Expr) (lo : Nat) (ss : List Nat) :
    (Part.expr left).Named N →
      Draws N lo (ss ++ (Part.expr left).sites) (operationRest level left depth)
        (fun e => ss ++ (Part.expr e).sites) fun e => (Part.expr e).Named N
  operand (level : Level) : Reads N (operand level depth) .expr
  unary : Reads N (unary depth) .expr
  function (title : Option Name) (line lo : Nat) (ss : List Nat) :
    Draws N lo ss (function title line depth) (fun f => ss ++ (Part.function f).sites)
      fun f => f.name = title ∧ (Part.function f).Named N
  callRest (callee : Expr) (lo : Nat) (ss : List Nat) : (Part.expr callee).Named N →
    Draws N lo (ss ++ (Part.expr callee).sites) (callRest callee depth)
      (fun e => ss ++ (Part.expr e).sites) fun e => (Part.expr e).Named N
  arguments (room : Nat) : Reads N (arguments room depth) .exprs
  primary : Reads N (primary depth) .expr
  declaration : Reads N (declaration depth) .stmt
  methods : Reads N (methods depth) .methods
  variableRest : Reads N (variableRest depth) fun r => .stmt (.let r.1 r.2)
  optional (close : TokenKind) (what : Expected) : Reads N (optional close what depth) .optional
  statement : Reads N (statement depth) .stmt
  block : Reads N (block depth) .stmts

theorem grammar_zero (N : String → Prop) : Grammar N 0 where
  expression _ _ := draws_fault
  ternary _ _ := draws_fault
  operation _ _ _ := draws_fault
  operationRest _ _ _ _ _ := draws_fault
  operand _ _ _ := draws_fault
  unary _ _ := draws_fault
  function _ _ _ _ := draws_fault
  callRest _ _ _ _ := draws_fault
  arguments _ _ _ := draws_fault
  primary _ _ := draws_fault
  declaration _ _ := draws_fault
  methods _ _ := draws_fault
  variableRest _ _ := draws_fault
  optional _ _ _ _ := draws_fault
  statement _ _ := draws_fault
  block _ _ := draws_fault

namespace Grammar

variable {N : String → Prop} {depth : Nat} (g : Grammar N depth)
include g

theorem expression_succ : Reads N (Parser.expression (depth + 1)) .expr := by
  intro lo ss
  unfold Parser.expression
  refine (g.ternary lo ss).bind fun target htarget => draws_peek.bind fun sign _ => .ite ?_ ?_
  · intro _
    refine draws_advance.bind fun _ _ => (g.expression lo _).bind fun value hvalue => ?_
    split
    · next old name =>
      refine draws_freshSite.map fun site _ => ⟨?_, hvalue⟩
      -- the site that was drawn for reading the target is dropped
      refine ⟨ss ++ ((Part.expr value).sites ++ [site]), ?_, ?_⟩
      · exact (List.perm_append_singleton _ _).append_left ss
      · rw [List.append_assoc]
        exact (List.sublist_append_left ss [old]).append_right _
    · refine .pure ?_ ?_
      · simp [Part.sites, Part.references, Expr.references, List.Subperm.refl]
      · simp only [Part.Named, Part.declares, Part.encloses, Expr.declares, Expr.encloses] at *
        grind
    · exact draws_throw
  · intro _
    exact .pure (List.Subperm.refl _) htarget

theorem ternary_succ : Reads N (Parser.ternary (depth + 1)) .expr := by
  intro lo ss
  unfold Parser.ternary
  refine (g.operation .or lo ss).bind fun c hc => draws_accept.bind fun _ _ => .ite ?_ ?_
  · intro _
    refine (g.ternary lo _).bind fun yes hyes => draws_expect.bind fun _ _ =>
      (g.ternary lo _).map fun no hno => ⟨?_, ?_⟩
    · simp [Part.sites, Part.references, Expr.references, List.Subperm.refl]
    · simp only [Part.Named, Part.declares, Part.encloses, Expr.declares, Expr.encloses] at *
      grind
  · intro _
    exact .pure (List.Subperm.refl _) hc

theorem operation_succ (level : Level) : Reads N (Parser.operation level (depth + 1)) .expr := by
  intro lo ss
  unfold Parser.operation
  exact (g.operand level lo ss).bind fun first hfirst => g.operationRest level first lo ss hfirst

theorem operationRest_succ (level : Level) (left : Expr) (lo : Nat) (ss : List Nat)
    (hleft : (Part.expr left).Named N) :
    Draws N lo (ss ++ (Part.expr left).sites) (Parser.operationRest level left (depth + 1))
      (fun e => ss ++ (Part.expr e).sites) fun e => (Part.expr e).Named N := by
  unfold Parser.operationRest
  refine draws_peek.bind fun t _ => ?_
  split
  · exact .pure (List.Subperm.refl _) hleft
  · next op _ =>
    refine draws_advance.bind fun _ _ => (g.operand level lo _).bind fun right hright => ?_
    have hsites : ss ++ (Part.expr left).sites ++ (Part.expr right).sites =
        ss ++ (Part.expr (op.join t.line left right)).sites := by
      cases op <;> simp [InfixOp.join, Part.sites, Part.references, Expr.references]
    have hnamed : (Part.expr (op.join t.line left right)).Named N := by
      cases op <;> simp only [InfixOp.join, Part.Named, Part.declares, Part.encloses,
        Expr.declares, Expr.encloses] at * <;> grind
    rw [hsites]
    exact g.operationRest level _ lo ss hnamed

theorem operand_succ (level : Level) : Reads N (Parser.operand level (depth + 1)) .expr := by
  intro lo ss
  unfold Parser.operand
  split
  · exact g.operation _ lo ss
  · exact g.unary lo ss

theorem unary_succ : Reads N (Parser.unary (depth + 1)) .expr := by
  intro lo ss
  unfold Parser.unary
  refine draws_peek.bind fun t ht => ?_
  split
  · exact draws_advance.bind fun _ _ => (g.unary lo ss).map fun e he => ⟨List.Subperm.refl _, he⟩
  · refine .ite (fun _ => draws_advance.bind fun _ _ => draws_peek.bind fun _ _ => .ite ?_ ?_) ?_
    · intro _
      refine draws_name.bind fun title htitle => (g.function _ _ lo ss).map fun f hf =>
        ⟨List.Subperm.refl _, ?_⟩
      obtain ⟨hname, hf⟩ := hf
      simp only [Part.Named, Part.declares, Part.encloses, Expr.declares, Expr.encloses, hname,
        Option.toList_some, List.map_cons, List.map_nil] at *
      grind
    · intro _
      refine (g.function _ _ lo ss).map fun f hf => ⟨List.Subperm.refl _, ?_⟩
      obtain ⟨hname, hf⟩ := hf
      simp only [Part.Named, Part.declares, Part.encloses, Expr.declares, Expr.encloses, hname,
        Option.toList_none, List.map_nil] at *
      exact hf
    · intro _
      exact (g.primary lo ss).bind fun callee hcallee => g.callRest callee lo ss hcallee

theorem function_succ (title : Option Name) (line lo : Nat) (ss : List Nat) :
    Draws N lo ss (Parser.function title line (depth + 1))
      (fun f => ss ++ (Part.function f).sites)
      fun f => f.name = title ∧ (Part.function f).Named N := by
  unfold Parser.function
  have rest (params : List Name) (hps : ∀ p ∈ params, N p.text) : Draws N lo ss
      (do
        let _ ← expect .rightParen .parametersClose
        let _ ← expect .leftBrace .functionBody
        let body ← Parser.block depth
        return .mk title params body line)
      (fun f => ss ++ (Part.function f).sites)
      fun f => f.name = title ∧ (Part.function f).Named N := by
    refine draws_expect.bind fun _ _ => draws_expect.bind fun _ _ => (g.block lo ss).map
      fun body hbody => ⟨List.Subperm.refl _, rfl, ?_⟩
    simp only [Part.Named, Part.declares, Part.encloses, Function.encloses] at *
    grind
  refine draws_expect.bind fun _ _ => draws_peek.bind fun _ _ => .ite ?_ ?_
  · exact fun _ => rest [] (List.forall_mem_nil _)
  · exact fun _ => draws_parameters.bind rest

theorem callRest_succ (callee : Expr) (lo : Nat) (ss : List Nat)
    (hcallee : (Part.expr callee).Named N) :
    Draws N lo (ss ++ (Part.expr callee).sites) (Parser.callRest callee (depth + 1))
      (fun e => ss ++ (Part.expr e).sites) fun e => (Part.expr e).Named N := by
  unfold Parser.callRest
  refine draws_peek.bind fun _ _ => ?_
  split
  · have rest (es : List Expr) (hes : (Part.exprs es).Named N) : Draws N lo
        (ss ++ (Part.expr callee).sites ++ (Part.exprs es).sites)
        (do
          let close ← expect .rightParen .argumentsClose
          Parser.callRest (.call callee close.line es) depth)
        (fun e => ss ++ (Part.expr e).sites) fun e => (Part.expr e).Named N := by
      refine draws_expect.bind fun close _ => ?_
      have hsites : ss ++ (Part.expr callee).sites ++ (Part.exprs es).sites =
          ss ++ (Part.expr (.call callee close.line es)).sites := by
        simp [Part.sites, Part.references, Expr.references]
      have hnamed : (Part.expr (.call callee close.line es)).Named N := by
        simp only [Part.Named, Part.declares, Part.encloses, Expr.declares, Expr.encloses] at *
        grind
      rw [hsites]
      exact g.callRest _ lo ss hnamed
    refine draws_advance.bind fun _ _ => draws_peek.bind fun t _ => .ite ?_ ?_
    · have hrest := rest [] (List.forall_mem_nil _)
      simp only [Part.sites, Part.references, Expr.referencesAll, List.map_nil,
        List.append_nil] at hrest
      exact fun _ => hrest
    · exact fun _ => (g.arguments _ lo _).bind rest
  · exact draws_advance.bind fun _ _ => draws_name.bind fun property _ =>
      g.callRest (.get callee property) lo ss hcallee
  · exact .pure (List.Subperm.refl _) hcallee

theorem arguments_succ (room : Nat) : Reads N (Parser.arguments room (depth + 1)) .exprs := by
  intro lo ss
  unfold Parser.arguments
  split
  · exact draws_fault
  · refine (g.expression lo ss).bind fun e he => draws_accept.bind fun _ _ => .ite ?_ ?_
    · refine fun _ => (g.arguments _ lo _).map fun es hes => ⟨?_, ?_⟩
      · simp [Part.sites, Part.references, Expr.referencesAll, List.Subperm.refl]
      · simp only [Part.Named, Part.declares, Part.encloses, Expr.declaresAll,
          Expr.enclosesAll] at *
        grind
    · refine fun _ => .pure ?_ ?_
      · simp [Part.sites, Part.references, Expr.referencesAll, List.Subperm.refl]
      · simpa [Part.Named, Part.declares, Part.encloses, Expr.declaresAll, Expr.enclosesAll]
          using he

theorem primary_succ : Reads N (Parser.primary (depth + 1)) .expr := by
  intro lo ss
  have literal (value : Literal) : Draws N lo ss (advance >>= fun _ => pure (.literal value))
      (fun e => ss ++ (Part.expr e).sites) fun e => (Part.expr e).Named N :=
    draws_advance.map fun _ _ => ⟨by simp [Part.sites, Part.references, Expr.references,
      List.Subperm.refl], List.forall_mem_nil _⟩
  unfold Parser.primary
  refine draws_peek.bind fun t ht => ?_
  split
  any_goals exact literal _
  · exact draws_advance.bind fun _ _ => draws_freshSite.map fun _ _ =>
      ⟨List.Subperm.refl _, List.forall_mem_nil _⟩
  · exact draws_advance.bind fun _ _ => draws_freshSite.map fun _ _ =>
      ⟨List.Subperm.refl _, List.forall_mem_nil _⟩
  · exact draws_advance.bind fun _ _ => (g.expression lo ss).bind fun e he =>
      draws_expect.map fun _ _ => ⟨List.Subperm.refl _, he⟩
  · exact draws_fault

theorem declaration_succ : Reads N (Parser.declaration (depth + 1)) .stmt := by
  intro lo ss
  unfold Parser.declaration
  refine draws_peek.bind fun _ _ => ?_
  split
  · refine draws_advance.bind fun _ _ => draws_name.bind fun title htitle =>
      draws_expect.bind fun _ _ => (g.methods lo ss).map fun ms hms => ⟨List.Subperm.refl _, ?_⟩
    simp only [Part.Named, Part.declares, Part.encloses, Stmt.declares, Stmt.encloses] at *
    grind
  · exact draws_advance.bind fun _ _ => (g.variableRest lo ss).map fun r hr =>
      ⟨List.Subperm.refl _, hr⟩
  · exact g.statement lo ss

theorem methods_succ : Reads N (Parser.methods (depth + 1)) .methods := by
  intro lo ss
  unfold Parser.methods
  refine draws_peek.bind fun _ _ => ?_
  split
  · exact draws_advance.map fun _ _ => ⟨by simp [Part.sites, Part.references,
      Function.referencesAll, List.Subperm.refl], List.forall_mem_nil _⟩
  · exact draws_fault
  · refine draws_accept.bind fun _ _ => draws_name.bind fun title htitle =>
      (g.function _ _ lo ss).bind fun f hf => (g.methods lo _).map fun fs hfs => ⟨?_, ?_⟩
    · simp [Part.sites, Part.references, Function.referencesAll, List.Subperm.refl]
    · simp only [Part.Named, Part.declares, Part.encloses, Function.enclosesAll] at *
      grind

theorem variableRest_succ :
    Reads N (Parser.variableRest (depth + 1)) fun r => .stmt (.let r.1 r.2) := by
  intro lo ss
  unfold Parser.variableRest
  refine draws_name.bind fun title htitle => draws_accept.bind fun _ _ => .ite ?_ ?_
  · refine fun _ => (g.expression lo ss).bind fun e he => draws_expect.map fun _ _ =>
      ⟨List.Subperm.refl _, ?_⟩
    simp only [Part.Named, Part.declares, Part.encloses, Stmt.declares, Stmt.encloses,
      Expr.declaresOpt, Expr.enclosesOpt] at *
    grind
  · refine fun _ => draws_expect.map fun _ _ => ⟨?_, ?_⟩
    · simp [Part.sites, Part.references, Stmt.references, Expr.referencesOpt, List.Subperm.refl]
    · simpa [Part.Named, Part.declares, Part.encloses, Stmt.declares, Stmt.encloses,
        Expr.declaresOpt, Expr.enclosesOpt] using htitle

theorem optional_succ (close : TokenKind) (what : Expected) :
    Reads N (Parser.optional close what (depth + 1)) .optional := by
  intro lo ss
  unfold Parser.optional
  refine draws_accept.bind fun _ _ => .ite ?_ ?_
  · exact fun _ => .pure (by simp [Part.sites, Part.references, Expr.referencesOpt,
      List.Subperm.refl]) (List.forall_mem_nil _)
  · exact fun _ => (g.expression lo ss).bind fun e he => draws_expect.map fun _ _ =>
      ⟨List.Subperm.refl _, he⟩

theorem block_succ : Reads N (Parser.block (depth + 1)) .stmts := by
  intro lo ss
  unfold Parser.block
  refine draws_peek.bind fun _ _ => ?_
  split
  · exact draws_advance.map fun _ _ => ⟨by simp [Part.sites, Part.references,
      Stmt.referencesAll, List.Subperm.refl], List.forall_mem_nil _⟩
  · exact draws_fault
  · refine (g.declaration lo ss).bind fun s hs => (g.block lo _).map fun rest hrest => ⟨?_, ?_⟩
    · simp [Part.sites, Part.references, Stmt.referencesAll, List.Subperm.refl]
    · simp only [Part.Named, Part.declares, Part.encloses, Stmt.declaresAll,
        Stmt.enclosesAll] at *
      grind

theorem statement_succ : Reads N (Parser.statement (depth + 1)) .stmt := by
  intro lo ss
  unfold Parser.statement
  refine draws_peek.bind fun t ht => ?_
  split
  · refine draws_advance.bind fun _ _ => draws_expect.bind fun _ _ => draws_expect.bind fun _ _ =>
      (g.variableRest lo ss).bind fun r hr => (g.optional _ _ lo _).bind fun c hc =>
      (g.optional _ _ lo _).bind fun step hstep => (g.statement lo _).map fun body hbody => ⟨?_, ?_⟩
    · simp [Part.sites, Part.references, Stmt.references, List.Subperm.refl]
    · simp only [Part.Named, Part.declares, Part.encloses, Stmt.declares, Stmt.encloses,
        declaresInLoop] at *
      grind
  · refine draws_advance.bind fun _ _ => draws_expect.bind fun _ _ =>
      (g.expression lo ss).bind fun c hc => draws_expect.bind fun _ _ =>
      (g.statement lo _).bind fun yes hyes => draws_accept.bind fun _ _ => .ite ?_ ?_
    · refine fun _ => (g.statement lo _).map fun no hno => ⟨?_, ?_⟩
      · simp [Part.sites, Part.references, Stmt.references, Stmt.referencesOpt, List.Subperm.refl]
      · simp only [Part.Named, Part.declares, Part.encloses, Stmt.declares, Stmt.encloses,
          Stmt.declaresOpt, Stmt.enclosesOpt] at *
        grind
    · refine fun _ => .pure ?_ ?_
      · simp [Part.sites, Part.references, Stmt.references, Stmt.referencesOpt, List.Subperm.refl]
      · simp only [Part.Named, Part.declares, Part.encloses, Stmt.declares, Stmt.encloses,
          Stmt.declaresOpt, Stmt.enclosesOpt] at *
        grind
  · refine draws_advance.bind fun _ _ => draws_expect.bind fun _ _ =>
      (g.expression lo ss).bind fun c hc => draws_expect.bind fun _ _ =>
      (g.statement lo _).map fun body hbody => ⟨?_, ?_⟩
    · simp [Part.sites, Part.references, Stmt.references, List.Subperm.refl]
    · simp only [Part.Named, Part.declares, Part.encloses, Stmt.declares, Stmt.encloses] at *
      grind
  · exact draws_advance.bind fun _ _ => (g.optional _ _ lo ss).map fun e he =>
      ⟨List.Subperm.refl _, he⟩
  · exact draws_advance.bind fun _ _ => draws_expect.map fun _ _ => ⟨by simp [Part.sites,
      Part.references, Stmt.references, List.Subperm.refl], List.forall_mem_nil _⟩
  · exact draws_advance.bind fun _ _ => draws_expect.map fun _ _ => ⟨by simp [Part.sites,
      Part.references, Stmt.references, List.Subperm.refl], List.forall_mem_nil _⟩
  · refine draws_advance.bind fun _ _ => (g.block lo ss).map fun body hbody =>
      ⟨List.Subperm.refl _, ?_⟩
    simpa only [Part.Named, Part.declares, Part.encloses, Stmt.declares, Stmt.encloses,
      List.nil_append] using hbody
  · exact draws_advance.bind fun _ _ => (g.expression lo ss).bind fun e he =>
      draws_expect.map fun _ _ => ⟨List.Subperm.refl _, he⟩
  · refine (g.expression lo ss).bind fun e he => ?_
    split
    · exact draws_accept.map fun _ _ => ⟨List.Subperm.refl _, he⟩
    · exact draws_expect.map fun _ _ => ⟨List.Subperm.refl _, he⟩

theorem succ : Grammar N (depth + 1) where
  expression := g.expression_succ
  ternary := g.ternary_succ
  operation := g.operation_succ
  operationRest := g.operationRest_succ
  operand := g.operand_succ
  unary := g.unary_succ
  function := g.function_succ
  callRest := g.callRest_succ
  arguments := g.arguments_succ
  primary := g.primary_succ
  declaration := g.declaration_succ
  methods := g.methods_succ
  variableRest := g.variableRest_succ
  optional := g.optional_succ
  statement := g.statement_succ
  block := g.block_succ

end Grammar

/-- **Every rule of the grammar draws exactly the sites of what it reads.** -/
theorem grammar (N : String → Prop) : ∀ depth, Grammar N depth
  | 0 => grammar_zero N
  | depth + 1 => (grammar N depth).succ

end Parser

/-! ## Whole programs -/

theorem Part.sites_stmts_cons (s : Stmt) (ss : List Stmt) :
    (Part.stmts (s :: ss)).sites = (Part.stmt s).sites ++ (Part.stmts ss).sites := by
  simp [Part.sites, Part.references, Stmt.referencesAll]

theorem Part.named_stmts_cons {N : String → Prop} {s : Stmt} {ss : List Stmt}
    (hs : (Part.stmt s).Named N) (hss : (Part.stmts ss).Named N) :
    (Part.stmts (s :: ss)).Named N := by
  simp only [Part.Named, Part.declares, Part.encloses, Stmt.declaresAll, Stmt.enclosesAll] at *
  grind

/-- A declaration has new sites, and only names that stand in its text.  Also if there is none,
    sites may have been given out. -/
theorem declaration_draws {N : String → Prop} (depth : Nat) {c : Cursor} (hc : Spelled N c.rest) :
    match Parser.declaration depth c with
    | .ok s c' => Spelled N c'.rest ∧ Drawn c.nextSite c'.nextSite (Part.stmt s).sites ∧
      (Part.stmt s).Named N
    | .error e c' => c.nextSite ≤ c'.nextSite ∧ e.isStatic = true := by
  have h := (Parser.grammar N depth).declaration c.nextSite [] c hc (.nil _)
  cases hd : Parser.declaration depth c with
  | ok s c' => rw [hd] at h; exact h
  | error e c' => rw [hd] at h; exact h

/-- **What is read up to the first error** has new sites, all different, and only names that stand
    in the text. -/
theorem parseUpTo_draws {N : String → Prop} (depth : Nat) : ∀ (count : Nat) {c : Cursor},
    Spelled N c.rest →
      Drawn c.nextSite (parseUpTo depth count c).2.nextSite
        (Part.stmts (parseUpTo depth count c).1.1).sites ∧
      (Part.stmts (parseUpTo depth count c).1.1).Named N ∧
      ∀ e, (parseUpTo depth count c).1.2 = some e → e.isStatic = true := by
  intro count
  induction count with
  | zero => exact fun _ => ⟨.nil _, List.forall_mem_nil _, fun _ he => by cases he⟩
  | succ count ih =>
    intro c hc
    unfold parseUpTo
    split
    · exact ⟨.nil _, List.forall_mem_nil _, fun _ he => by cases he⟩
    have hfirst := declaration_draws depth hc
    cases hd : Parser.declaration depth c with
    | error e c' =>
      rw [hd] at hfirst
      obtain ⟨hle, hstatic⟩ := hfirst
      exact ⟨(Drawn.nil c'.nextSite).widen hle, List.forall_mem_nil _,
        fun _ he => by cases he; exact hstatic⟩
    | ok s c' =>
      rw [hd] at hfirst
      obtain ⟨hspelled, hdrawn, hnamed⟩ := hfirst
      obtain ⟨hdrawn', hnamed', hstatic⟩ := ih hspelled
      dsimp only
      rw [Part.sites_stmts_cons]
      exact ⟨hdrawn.append hdrawn', Part.named_stmts_cons hnamed hnamed', hstatic⟩

/-- **A parsed program has new sites, all different, and only names that stand in its text.** -/
theorem parse_draws {N : String → Prop} {site site' : Nat} {ts : List Token}
    {r : Except Error (List Stmt)} (hts : Spelled N ts) (h : parse site ts = (r, site')) :
    site ≤ site' ∧ (∀ e, r = .error e → e.isStatic = true) ∧ ∀ program, r = .ok program →
      Drawn site site' (Part.stmts program).sites ∧ (Part.stmts program).Named N := by
  obtain ⟨hdrawn, hnamed, hstatic⟩ :=
    parseUpTo_draws (c := ⟨ts, site⟩) (Parser.depthBound ts) ts.length hts
  unfold parse parsePartial at h
  generalize parseUpTo (Parser.depthBound ts) ts.length ⟨ts, site⟩ = outcome
    at h hdrawn hnamed hstatic
  obtain ⟨⟨ss, e⟩, c⟩ := outcome
  cases e with
  | none =>
    cases h
    exact ⟨hdrawn.le, (fun _ hr => by cases hr),
      fun program hr => by cases hr; exact ⟨hdrawn, hnamed⟩⟩
  | some e =>
    cases h
    exact ⟨hdrawn.le, fun _ hr => by cases hr; exact hstatic _ rfl, fun program hr => by cases hr⟩

theorem keyword?_of_ofWord {word : String} (h : TokenKind.ofWord word = .identifier) :
    TokenKind.keyword? word = none := by
  unfold TokenKind.ofWord at h
  cases hk : TokenKind.keyword? word with
  | none => rfl
  | some kind =>
    rw [hk] at h
    unfold TokenKind.keyword? at hk
    split at hk <;> cases hk <;> cases h

/-- A token that is a name is not a keyword. -/
theorem keyword?_of_piece {c : Char} {cs text rest : List Char}
    (h : piece c cs = .token .identifier text rest) :
    TokenKind.keyword? (String.ofList text) = none := by
  unfold piece at h
  split at h
  · cases h
  split at h
  · unfold slashPiece at h; split at h <;> cases h
  split at h
  · unfold stringPiece at h; split at h <;> cases h
  split at h
  · unfold numberPiece at h
    split at h
    · split at h <;> cases h
    · cases h
  split at h
  · unfold wordPiece at h
    injection h with hkind htext hrest
    rw [← htext]
    exact keyword?_of_ofWord hkind
  split at h
  · next kind hsingle =>
    injection h with hkind
    subst hkind
    unfold singleMark? at hsingle
    split at hsingle <;> cases hsingle
  · next long short _ hequal =>
    unfold equalMark? at hequal
    unfold equalPiece at h
    split at hequal <;> cases hequal <;> split at h <;> cases h
  · next kind _ _ hdouble =>
    unfold doubleMark? at hdouble
    unfold doublePiece at h
    split at hdouble <;> cases hdouble <;> (repeat' split at h) <;> cases h
  · cases h

/-- The names in a scanned text are no keywords. -/
theorem spelled_scanFrom (line : Nat) (cs : List Char) :
    Spelled (fun x => TokenKind.keyword? x = none) (scanFrom line cs).tokens := by
  fun_induction scanFrom line cs with
  | case1 line =>
    intro t ht hk
    rw [List.mem_singleton.1 ht] at hk
    cases hk
  | case2 line c cs p line' text rest hp ih => exact ih
  | case3 line c cs p line' kind text rest hp s ih =>
    intro t ht hk
    rcases List.mem_cons.1 ht with rfl | ht
    · cases hk
      exact keyword?_of_piece hp
    · exact ih t ht hk
  | case4 => exact List.forall_mem_nil _

theorem spelled_tokens {source : String} {ts : List Token} (h : tokens source = .ok ts) :
    Spelled (fun x => TokenKind.keyword? x = none) ts := by
  simp only [tokens, scan_eq] at h
  split at h
  · cases h; exact spelled_scanFrom 1 source.toList
  · cases h

theorem isStatic_scanFrom (line : Nat) (cs : List Char) :
    ∀ e, (scanFrom line cs).error = some e → e.isStatic = true := by
  fun_induction scanFrom line cs with
  | case1 => exact fun _ he => nomatch he
  | case2 line c cs p line' text rest hp ih => exact ih
  | case3 line c cs p line' kind text rest hp s ih => exact ih
  | case4 => exact fun _ he => by cases he; rfl

theorem isStatic_tokens {source : String} {e : Error} (h : tokens source = .error e) :
    e.isStatic = true := by
  simp only [tokens, scan_eq] at h
  split at h
  · cases h
  · next e' he => cases h; exact isStatic_scanFrom 1 source.toList _ he

/-- A text is scanned, and its tokens are parsed from the next site on. -/
theorem Eval.parseText_apply (source : String) (m : Machine) :
    Eval.parseText source m = match tokens source with
      | .error e => some (.error e, m)
      | .ok ts =>
        some ((parse m.nextSite ts).1, { m with nextSite := (parse m.nextSite ts).2 }) := by
  cases hts : tokens source with
  | error e =>
    simp only [Eval.parseText, hts]
    rfl
  | ok ts =>
    have hrest : Eval.parseText source m =
        Eval.ofExcept (parse m.nextSite ts).1 { m with nextSite := (parse m.nextSite ts).2 } := by
      simp only [Eval.parseText, hts]
      rfl
    rw [hrest]
    dsimp only
    rcases parse m.nextSite ts with ⟨_ | _, site⟩ <;> rfl

/-- **Parsing a text gives out sites and does nothing else to a machine.** -/
theorem Eval.parseText_eq {source : String} {m m' : Machine} {r : Except Error (List Stmt)}
    (h : Eval.parseText source m = some (r, m')) :
    ∃ site, m.nextSite ≤ site ∧ m' = { m with nextSite := site } ∧
      (∀ e, r = .error e → e.isStatic = true) ∧ ∀ program, r = .ok program →
        Drawn m.nextSite site (Part.stmts program).sites ∧
        (Part.stmts program).Named fun x => TokenKind.keyword? x = none := by
  rw [Eval.parseText_apply] at h
  cases hts : tokens source with
  | error e =>
    rw [hts] at h
    cases h
    exact ⟨m.nextSite, Nat.le_refl _, rfl, fun _ he => by cases he; exact isStatic_tokens hts,
      fun _ he => nomatch he⟩
  | ok ts =>
    rw [hts] at h
    cases h
    obtain ⟨hle, hstatic, hdrawn⟩ := parse_draws (spelled_tokens hts) rfl
    exact ⟨_, hle, rfl, hstatic, hdrawn⟩

/-- A text is parsed, and its program resolved. -/
theorem Eval.load_apply (source : String) (m : Machine) :
    Eval.load source m = match Eval.parseText source m with
      | none => none
      | some (.error e, m₁) => some (.error e, m₁)
      | some (.ok program, m₁) =>
        match resolve m₁.globalNames program with
        | .error e => some (.error e, m₁)
        | .ok ds => some (.ok program, { m₁ with distances := m₁.distances.recordAll ds }) := by
  have hrest (program : List Stmt) (m₁ : Machine) :
      (Eval.ofExcept (resolve m₁.globalNames program) >>= fun ds => do
        modify fun m => { m with distances := m.distances.recordAll ds }
        return program : Eval (List Stmt)) m₁ =
      match resolve m₁.globalNames program with
      | .error e => some (.error e, m₁)
      | .ok ds => some (.ok program, { m₁ with distances := m₁.distances.recordAll ds }) := by
    rw [Eval.bind_apply]
    cases resolve m₁.globalNames program <;> rfl
  unfold Eval.load
  rw [Eval.bind_apply]
  rcases Eval.parseText source m with _ | ⟨_ | program, m₁⟩
  · rfl
  · rfl
  · exact hrest program m₁

/-- **What loading a text does to a machine**: it gives out sites, and if the program is
    accepted, it records the distances. -/
theorem Eval.load_eq {source : String} {m m' : Machine} {r : Except Error (List Stmt)}
    (h : Eval.load source m = some (r, m')) :
    ∃ site, m.nextSite ≤ site ∧
      ((∃ e, r = .error e ∧
        (e.isStatic = true ∨ ∃ program, resolve m.globalNames program = .error e) ∧
        m' = { m with nextSite := site }) ∨
      ∃ program ds, r = .ok program ∧ resolve m.globalNames program = .ok ds ∧
        Drawn m.nextSite site (Part.stmts program).sites ∧
        (Part.stmts program).Named (fun x => TokenKind.keyword? x = none) ∧
        m' = { m with nextSite := site, distances := m.distances.recordAll ds }) := by
  rw [Eval.load_apply] at h
  rcases hp : Eval.parseText source m with _ | ⟨r₁, m₁⟩
  · rw [hp] at h; cases h
  · obtain ⟨site, hle, rfl, hstatic, hdrawn⟩ := Eval.parseText_eq hp
    refine ⟨site, hle, ?_⟩
    rw [hp] at h
    cases r₁ with
    | error e =>
      cases h
      exact Or.inl ⟨e, rfl, Or.inl (hstatic e rfl), rfl⟩
    | ok program =>
      have hglobals : ({ m with nextSite := site } : Machine).globalNames = m.globalNames := rfl
      dsimp only at h
      rw [hglobals] at h
      cases hr : resolve m.globalNames program with
      | error e =>
        rw [hr] at h
        cases h
        exact Or.inl ⟨e, rfl, Or.inr ⟨program, hr⟩, rfl⟩
      | ok ds =>
        rw [hr] at h
        cases h
        exact Or.inr ⟨program, ds, rfl, hr, (hdrawn program rfl).1, (hdrawn program rfl).2, rfl⟩

/-- Loading a text changes nothing but the sites that are given out and the distances. -/
theorem Eval.load_eq_with {source : String} {m m' : Machine} {r : Except Error (List Stmt)}
    (h : Eval.load source m = some (r, m')) :
    ∃ site distances, m' = { m with nextSite := site, distances := distances } := by
  obtain ⟨site, -, ⟨_, -, -, rfl⟩ | ⟨_, _, -, -, -, -, rfl⟩⟩ := Eval.load_eq h
  · exact ⟨site, _, rfl⟩
  · exact ⟨site, _, rfl⟩

end Scriptling
