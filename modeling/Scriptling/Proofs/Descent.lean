/-
  Descent — what the parser reads, it has derived.

  A rule that succeeds has taken a list of tokens from the front that derives its tree.  The
  rules go on for as long as they can, so that the token they stop at tells which reading was
  chosen: no operator follows an operation, and no `else` an `if` that could take it.

  * `Takes`: what a rule takes from the front, and what it leaves;
  * `Parser.descent`: all rules of the grammar, at any depth;
  * `parse_derives`: a program that is parsed is derived, strictly or not.
-/
import Scriptling.Proofs.Grammar

namespace Scriptling

namespace Level

/-- How tightly the operators of a level bind. -/
def tightness : Level → Nat
  | or => 0
  | and => 1
  | equality => 2
  | comparison => 3
  | sum => 4
  | product => 5

theorem tightness_le (l : Level) : l.tightness ≤ 5 := by cases l <;> decide

theorem tightness_tighter {l t : Level} (h : l.tighter? = some t) :
    t.tightness = l.tightness + 1 := by
  cases l <;> cases h <;> rfl

theorem tightness_tightest {l : Level} (h : l.tighter? = none) (k : Level) :
    k.tightness ≤ l.tightness := by
  cases l <;> cases h
  cases k <;> decide

/-- A token is no operator of any level that binds tighter than `n`. -/
def Quiet (n : Nat) (k : TokenKind) : Prop := ∀ l : Level, n ≤ l.tightness → l.operator? k = none

theorem quiet_of_succ {l : Level} {k : TokenKind} (h : Quiet (l.tightness + 1) k)
    (hl : l.operator? k = none) : Quiet l.tightness k := by
  intro l' hle
  rcases Nat.eq_or_lt_of_le hle with heq | hlt
  · have : l = l' := by cases l <;> cases l' <;> first | rfl | cases heq
    rw [← this]
    exact hl
  · exact h l' hlt

theorem not_joins_iff {k : TokenKind} : ¬k.Joins ↔ Quiet 0 k := by
  constructor
  · intro h l _
    cases hl : l.operator? k with
    | none => rfl
    | some op => exact absurd ⟨l, op, hl⟩ h
  · rintro h ⟨l, op, hl⟩
    rw [h l (Nat.zero_le _)] at hl
    cases hl

end Level

namespace Parser

/-! ## What rules take -/

/-- A rule that succeeds takes tokens from the front so that they, its result and the tokens
    left have a property. -/
def Takes {α : Type} (ts : List Token) (p : Parser α)
    (Q : α → List Token → List Token → Prop) : Prop :=
  ∀ site a c, p ⟨ts, site⟩ = .ok a c → ∃ us, ts = us ++ c.rest ∧ Q a us c.rest

namespace Takes

variable {α β : Type} {ts : List Token} {R : β → List Token → List Token → Prop}

theorem pure {b : β} (h : R b [] ts) : Takes ts (Pure.pure b) R := by
  intro site a c hc
  cases hc
  exact ⟨[], rfl, h⟩

theorem fault {f : SyntaxFault} : Takes ts (Parser.fault f) R := fun _ _ _ hc => nomatch hc

theorem throw {e : Error} : Takes ts (MonadExcept.throw e) R := fun _ _ _ hc => nomatch hc

theorem bind {p : Parser α} {q : α → Parser β} {Q : α → List Token → List Token → Prop}
    (hp : Takes ts p Q)
    (hq : ∀ a us rest, Q a us rest → Takes rest (q a) fun b vs r => R b (us ++ vs) r) :
    Takes ts (p >>= q) R := by
  intro site b c hc
  simp only [Bind.bind, EStateM.bind] at hc
  cases hpc : p ⟨ts, site⟩ with
  | error e c₁ => rw [hpc] at hc; cases hc
  | ok a c₁ =>
    rw [hpc] at hc
    obtain ⟨us, rfl, ha⟩ := hp site a c₁ hpc
    obtain ⟨vs, hvs, hb⟩ := hq a us c₁.rest ha c₁.nextSite b c hc
    exact ⟨us ++ vs, by rw [hvs, List.append_assoc], hb⟩

theorem imp {p : Parser β} {Q : β → List Token → List Token → Prop} (hp : Takes ts p Q)
    (h : ∀ b us rest, Q b us rest → R b us rest) : Takes ts p R := by
  intro site b c hc
  obtain ⟨us, hus, hb⟩ := hp site b c hc
  exact ⟨us, hus, h b us c.rest hb⟩

theorem self {p : Parser β} (hp : Takes ts p R) :
    Takes ts p fun b us rest => ts = us ++ rest ∧ R b us rest := by
  intro site b c hc
  obtain ⟨us, hus, hb⟩ := hp site b c hc
  exact ⟨us, hus, hus, hb⟩

theorem map {p : Parser α} {f : α → β} {Q : α → List Token → List Token → Prop}
    (hp : Takes ts p Q) (hf : ∀ a us rest, Q a us rest → R (f a) us rest) :
    Takes ts (p >>= fun a => Pure.pure (f a)) R :=
  hp.bind fun a us rest ha => .pure (by rw [List.append_nil]; exact hf a us rest ha)

theorem ite {c : Prop} [Decidable c] {p q : Parser β} (hp : c → Takes ts p R)
    (hq : ¬c → Takes ts q R) : Takes ts (if c then p else q) R := by
  split
  · exact hp ‹c›
  · exact hq ‹¬c›

theorem peek {q : Token → Parser β} (hq : Takes ts (q (frontToken ts)) R) :
    Takes ts (Parser.peek >>= q) R :=
  fun site b c hc => hq site b c hc

theorem freshSite {q : Nat → Parser β} (hq : ∀ site, Takes ts (q site) R) :
    Takes ts (Parser.freshSite >>= q) R :=
  fun site b c hc => hq site (site + 1) b c hc

theorem advance {q : Unit → Parser β} {k : TokenKind} (hk : (frontToken ts).kind = k)
    (hne : k ≠ .endOfFile)
    (hq : ∀ rest, Takes rest (q ()) fun b us r => R b (frontToken ts :: us) r) :
    Takes ts (Parser.advance >>= q) R := by
  intro site b c hc
  cases ts with
  | nil => exact absurd hk.symm hne
  | cons t rest =>
    obtain ⟨us, hus, hb⟩ := hq rest site b c hc
    exact ⟨t :: us, by rw [hus]; rfl, hb⟩

theorem expect {kind : TokenKind} {what : Expected} {q : Token → Parser β}
    (hne : kind ≠ .endOfFile)
    (hq : ∀ t rest, t.kind = kind → Takes rest (q t) fun b us r => R b (t :: us) r) :
    Takes ts (Parser.expect kind what >>= q) R := by
  have h : Takes ts (Parser.expect kind what) fun t us _ => t.kind = kind ∧ us = [t] :=
    peek (ite (fun hk => advance hk hne fun _ => pure ⟨hk, rfl⟩) fun _ => fault)
  refine h.bind ?_
  rintro t _ rest ⟨hk, rfl⟩
  exact hq t rest hk

theorem name {what : Expected} {q : Name → Parser β}
    (hq : ∀ t rest, t.kind = .identifier →
      Takes rest (q t.toName) fun b us r => R b (t :: us) r) :
    Takes ts (Parser.name what >>= q) R := by
  have h : Takes ts (Parser.name what) fun n us _ =>
      ∃ t, t.kind = .identifier ∧ n = t.toName ∧ us = [t] :=
    expect nofun fun t _ hk => pure ⟨t, hk, rfl, rfl⟩
  refine h.bind ?_
  rintro _ _ rest ⟨t, hk, rfl, rfl⟩
  exact hq t rest hk

theorem accept {kind : TokenKind} {q : Bool → Parser β} (hne : kind ≠ .endOfFile)
    (yes : ∀ rest, (frontToken ts).kind = kind →
      Takes rest (q true) fun b us r => R b (frontToken ts :: us) r)
    (no : (frontToken ts).kind ≠ kind → Takes ts (q false) R) :
    Takes ts (Parser.accept kind >>= q) R := by
  have h : Takes ts (Parser.accept kind) fun b us rest =>
      (b = true ∧ (frontToken ts).kind = kind ∧ us = [frontToken ts]) ∨
        (b = false ∧ (frontToken ts).kind ≠ kind ∧ us = [] ∧ ts = rest) :=
    peek (ite (fun hk => advance hk hne fun _ => pure (Or.inl ⟨rfl, hk, rfl⟩))
      fun hk => pure (Or.inr ⟨rfl, hk, rfl, rfl⟩))
  refine h.bind ?_
  rintro _ _ rest (⟨rfl, hk, rfl⟩ | ⟨rfl, hk, rfl, rfl⟩)
  · exact yes rest hk
  · exact no hk

end Takes

theorem takes_parameters {strict : Bool} : ∀ {room : Nat} {ts : List Token},
    Takes ts (parameters room) fun ps us _ =>
      Derives strict (.parameters ps) us ∧ ps.length ≤ room
  | 0, _ => .fault
  | _ + 1, _ => .name fun _ _ htitle => .accept nofun
      (fun _ hcomma => takes_parameters.map fun _ _ _ h =>
        ⟨.parameter htitle hcomma h.1, Nat.succ_le_succ h.2⟩)
      (fun _ => .pure ⟨.lastParameter htitle, Nat.succ_le_succ (Nat.zero_le _)⟩)

/-! ## The rules of the grammar -/

/-- What the rules of the grammar take when they descend no deeper than a bound. -/
structure Descent (strict : Bool) (depth : Nat) : Prop where
  expression (ts : List Token) : Takes ts (expression depth) fun e us r =>
    Derives strict (.expression e) us ∧ ¬(frontToken r).kind.Joins
  ternary (ts : List Token) : Takes ts (ternary depth) fun e us r =>
    Derives strict (.ternary e) us ∧ ¬(frontToken r).kind.Joins
  operation (level : Level) (ts : List Token) : Takes ts (operation level depth) fun e us r =>
    Derives strict (.operation level e) us ∧ Level.Quiet level.tightness (frontToken r).kind
  operationRest (level : Level) (left : Expr) (past ts : List Token) :
    Derives strict (.operation level left) past →
      Level.Quiet (level.tightness + 1) (frontToken ts).kind →
      Takes ts (operationRest level left depth) fun e us r =>
        Derives strict (.operation level e) (past ++ us) ∧
          Level.Quiet level.tightness (frontToken r).kind
  operand (level : Level) (ts : List Token) : Takes ts (operand level depth) fun e us r =>
    Derives strict (.operand level e) us ∧ Level.Quiet (level.tightness + 1) (frontToken r).kind
  unary (ts : List Token) : Takes ts (unary depth) fun e us _ => Derives strict (.unary e) us
  function (title : Option Name) (line : Nat) (ts : List Token) :
    Takes ts (function title line depth) fun f us _ =>
      ∃ ps body, f = .mk title ps body line ∧ Derives strict (.function ps body) us
  callRest (callee : Expr) (past ts : List Token) : Derives strict (.call callee) past →
    Takes ts (callRest callee depth) fun e us _ => Derives strict (.call e) (past ++ us)
  arguments (room : Nat) (ts : List Token) : Takes ts (arguments room depth) fun es us _ =>
    Derives strict (.arguments es) us ∧ es.length ≤ room
  primary (ts : List Token) : Takes ts (primary depth) fun e us _ => Derives strict (.primary e) us
  declaration (ts : List Token) : Takes ts (declaration depth) fun s us r =>
    ∃ bare, Derives strict (.declaration bare s) us ∧ (bare = true → ¬(frontToken r).kind.Joins)
  methods (ts : List Token) : Takes ts (methods depth) fun fs us _ =>
    ∃ vs brace, us = vs ++ [brace] ∧ brace.kind = .rightBrace ∧ Derives strict (.methods fs) vs
  variableRest (ts : List Token) : Takes ts (variableRest depth) fun r us _ =>
    Derives strict (.binding r.1 r.2) us
  optional (close : TokenKind) (what : Expected) (ts : List Token) : close ≠ .endOfFile →
    Takes ts (optional close what depth) fun e us _ =>
      ∃ vs t, us = vs ++ [t] ∧ t.kind = close ∧ Derives strict (.optionalExpression e) vs
  statement (ts : List Token) : Takes ts (statement depth) fun s us r =>
    ∃ bare, Derives strict (.statement bare s) us ∧
      (bare = true → ¬(frontToken r).kind.Joins) ∧ (s.EndsOpen → (frontToken r).kind ≠ .else)
  block (ts : List Token) : Takes ts (block depth) fun ss us _ =>
    ∃ vs brace, us = vs ++ [brace] ∧ brace.kind = .rightBrace ∧ Derives strict (.declarations ss) vs

theorem descent_zero (strict : Bool) : Descent strict 0 where
  expression _ := .fault
  ternary _ := .fault
  operation _ _ := .fault
  operationRest _ _ _ _ _ _ := .fault
  operand _ _ := .fault
  unary _ := .fault
  function _ _ _ := .fault
  callRest _ _ _ _ := .fault
  arguments _ _ := .fault
  primary _ := .fault
  declaration _ := .fault
  methods _ := .fault
  variableRest _ := .fault
  optional _ _ _ _ := .fault
  statement _ := .fault
  block _ := .fault

namespace Descent

variable {strict : Bool} {depth : Nat} (d : Descent strict depth)
include d

theorem expression_succ (ts : List Token) : Takes ts (Parser.expression (depth + 1))
    fun e us r => Derives strict (.expression e) us ∧ ¬(frontToken r).kind.Joins := by
  unfold Parser.expression
  refine (d.ternary ts).bind fun target us rest htarget => .peek (.ite ?_ ?_)
  · intro hsign
    refine .advance hsign nofun fun _ => (d.expression _).bind fun value vs rest hvalue => ?_
    split
    · next site name =>
      obtain ⟨t, rfl, ht, rfl⟩ := (htarget.1.unary_of_ternary rfl).of_variable
      refine .freshSite fun site => .pure ?_
      rw [List.append_nil]
      exact ⟨.assign ht hsign hvalue.1, hvalue.2⟩
    · next object name =>
      obtain ⟨vs', dot, t, rfl, hdot, ht, rfl, hobject⟩ := (htarget.1.unary_of_ternary rfl).of_get
      refine .pure ?_
      rw [List.append_nil, List.append_assoc]
      exact ⟨.set hobject hdot ht hsign hvalue.1, hvalue.2⟩
    · exact .throw
  · intro _
    refine .pure ?_
    rw [List.append_nil]
    exact ⟨.noAssignment htarget.1, htarget.2⟩

theorem ternary_succ (ts : List Token) : Takes ts (Parser.ternary (depth + 1))
    fun e us r => Derives strict (.ternary e) us ∧ ¬(frontToken r).kind.Joins := by
  unfold Parser.ternary
  refine (d.operation .or ts).bind fun c us _ hc => .accept nofun ?_ ?_
  · intro _ hquestion
    refine (d.ternary _).bind fun yes vs _ hyes => .expect nofun fun _ _ hcolon => ?_
    exact (d.ternary _).map fun no ws _ hno => ⟨.choice hc.1 hquestion hyes.1 hcolon hno.1, hno.2⟩
  · intro _
    refine .pure ?_
    rw [List.append_nil]
    exact ⟨.noChoice hc.1, Level.not_joins_iff.2 hc.2⟩

theorem operation_succ (level : Level) (ts : List Token) :
    Takes ts (Parser.operation level (depth + 1)) fun e us r =>
      Derives strict (.operation level e) us ∧ Level.Quiet level.tightness (frontToken r).kind := by
  unfold Parser.operation
  exact (d.operand level ts).bind fun first us rest hfirst =>
    d.operationRest level first us rest (.first hfirst.1) hfirst.2

theorem operationRest_succ (level : Level) (left : Expr) (past ts : List Token)
    (hleft : Derives strict (.operation level left) past)
    (hquiet : Level.Quiet (level.tightness + 1) (frontToken ts).kind) :
    Takes ts (Parser.operationRest level left (depth + 1)) fun e us r =>
      Derives strict (.operation level e) (past ++ us) ∧
        Level.Quiet level.tightness (frontToken r).kind := by
  unfold Parser.operationRest
  refine .peek ?_
  split
  · next hnone =>
    refine .pure ⟨?_, Level.quiet_of_succ hquiet hnone⟩
    rw [List.append_nil]
    exact hleft
  · next op hop =>
    have hne : (frontToken ts).kind ≠ .endOfFile := by
      intro he
      rw [he, Level.operator?_end] at hop
      cases hop
    refine .advance rfl hne fun _ => (d.operand level _).bind fun right us rest hright => ?_
    have h := d.operationRest level _ _ rest (.join hleft hop hright.1) hright.2
    -- what was taken is the left operand, the operator, the right operand and the rest
    simpa only [List.append_assoc, List.cons_append] using h

theorem operand_succ (level : Level) (ts : List Token) :
    Takes ts (Parser.operand level (depth + 1)) fun e us r =>
      Derives strict (.operand level e) us ∧
        Level.Quiet (level.tightness + 1) (frontToken r).kind := by
  unfold Parser.operand
  split
  · next tighter htighter =>
    refine (d.operation tighter ts).imp fun e us rest he => ⟨.tighter htighter he.1, ?_⟩
    rw [← Level.tightness_tighter htighter]
    exact he.2
  · next hnone =>
    refine (d.unary ts).imp fun e us rest he => ⟨.tightest hnone he, fun l hl => ?_⟩
    have hle := Level.tightness_tightest hnone l
    omega

theorem unary_succ (ts : List Token) :
    Takes ts (Parser.unary (depth + 1)) fun e us _ => Derives strict (.unary e) us := by
  unfold Parser.unary
  refine .peek ?_
  split
  · next op hop =>
    have hne : (frontToken ts).kind ≠ .endOfFile := by
      intro he
      rw [he] at hop
      cases hop
    exact .advance rfl hne fun _ => (d.unary _).map fun _ _ _ he => .unary hop he
  · refine .ite (fun hfn => .advance hfn nofun fun _ => .peek (.ite ?_ ?_)) ?_
    · intro _
      refine .name fun _ _ htitle => (d.function _ _ _).map ?_
      rintro _ us _ ⟨ps, body, rfl, hf⟩
      exact .named hfn htitle hf
    · intro _
      refine (d.function _ _ _).map ?_
      rintro _ us _ ⟨ps, body, rfl, hf⟩
      exact .anonymous hfn hf
    · intro _
      exact (d.primary ts).bind fun callee us rest hcallee =>
        (d.callRest callee us rest (.noCall hcallee)).imp fun _ _ _ he => .noFunction he

theorem function_succ (title : Option Name) (line : Nat) (ts : List Token) :
    Takes ts (Parser.function title line (depth + 1)) fun f us _ =>
      ∃ ps body, f = .mk title ps body line ∧ Derives strict (.function ps body) us := by
  unfold Parser.function
  refine .expect nofun fun left _ hleft => .peek ?_
  have rest (ps : List Name) (us ts : List Token)
      (hps : Derives strict (.optionalParameters ps) us) :
      Takes ts (do
        let _ ← expect .rightParen .parametersClose
        let _ ← expect .leftBrace .functionBody
        let body ← Parser.block depth
        return Function.mk title ps body line)
      fun f vs _ => ∃ ps body, f = .mk title ps body line ∧
        Derives strict (.function ps body) (left :: (us ++ vs)) := by
    refine .expect nofun fun _ _ hright => .expect nofun fun _ _ hbrace => (d.block _).map ?_
    rintro body _ _ ⟨vs, brace, rfl, hclose, hbody⟩
    exact ⟨ps, body, rfl, .function hleft hps hright hbrace hbody hclose⟩
  refine .ite (fun _ => rest [] [] _ .noParameters) fun _ => ?_
  exact takes_parameters.bind fun ps us _ h => rest ps us _ (.someParameters h.1 h.2)

theorem callRest_succ (callee : Expr) (past ts : List Token)
    (hcallee : Derives strict (.call callee) past) :
    Takes ts (Parser.callRest callee (depth + 1)) fun e us _ =>
      Derives strict (.call e) (past ++ us) := by
  unfold Parser.callRest
  refine .peek ?_
  split
  · next hleft =>
    refine .advance hleft nofun fun _ => .peek ?_
    have rest (es : List Expr) (us ts' : List Token)
        (hes : Derives strict (.optionalArguments es) us) :
        Takes ts' (do
          let close ← expect .rightParen .argumentsClose
          Parser.callRest (.call callee close.line es) depth)
        fun e vs _ => Derives strict (.call e) (past ++ frontToken ts :: (us ++ vs)) := by
      refine .expect nofun fun close r hclose => ?_
      have h := d.callRest _ _ r (.call hcallee hleft hes hclose)
      simpa only [List.append_assoc, List.cons_append, List.nil_append] using h
    refine .ite (fun _ => rest [] [] _ .noArguments) fun _ => ?_
    exact (d.arguments maxArguments _).bind fun es us _ h =>
      rest es us _ (.someArguments h.1 h.2)
  · next hdot =>
    refine .advance hdot nofun fun _ => .name fun title r htitle => ?_
    have h := d.callRest _ _ r (.get hcallee hdot htitle)
    simpa only [List.append_assoc, List.cons_append, List.nil_append] using h
  · refine .pure ?_
    rw [List.append_nil]
    exact hcallee

theorem arguments_succ (room : Nat) (ts : List Token) :
    Takes ts (Parser.arguments room (depth + 1)) fun es us _ =>
      Derives strict (.arguments es) us ∧ es.length ≤ room := by
  unfold Parser.arguments
  split
  · exact .fault
  · refine (d.expression ts).bind fun e us _ he => .accept nofun ?_ ?_
    · intro _ hcomma
      exact (d.arguments _ _).map fun es vs _ h =>
        ⟨.argument he.1 hcomma h.1, Nat.succ_le_succ h.2⟩
    · intro _
      refine .pure ?_
      rw [List.append_nil]
      exact ⟨.lastArgument he.1, Nat.succ_le_succ (Nat.zero_le _)⟩

theorem primary_succ (ts : List Token) :
    Takes ts (Parser.primary (depth + 1)) fun e us _ => Derives strict (.primary e) us := by
  unfold Parser.primary
  have constant {v : Literal} {k : TokenKind} (hk : (frontToken ts).kind = k)
      (hne : k ≠ .endOfFile) (hv : k.constant? = some v) :
      Takes ts (do advance; return .literal v) fun e us _ => Derives strict (.primary e) us :=
    .advance hk hne fun _ => .pure (.constant (hk ▸ hv))
  refine .peek ?_
  split
  · next hk => exact constant hk nofun rfl
  · next hk => exact constant hk nofun rfl
  · next hk => exact constant hk nofun rfl
  · next hk => exact constant hk nofun rfl
  · next hk => exact constant hk nofun rfl
  · next hk => exact .advance hk nofun fun _ => .freshSite fun _ => .pure (.receiver hk)
  · next hk => exact .advance hk nofun fun _ => .freshSite fun _ => .pure (.reference hk)
  · next hleft =>
    refine .advance hleft nofun fun _ => (d.expression _).bind fun e us _ he => ?_
    exact .expect nofun fun _ _ hright => .pure (.group hleft he.1 hright)
  · exact .fault

theorem declaration_succ (ts : List Token) : Takes ts (Parser.declaration (depth + 1))
    fun s us r => ∃ bare, Derives strict (.declaration bare s) us ∧
      (bare = true → ¬(frontToken r).kind.Joins) := by
  unfold Parser.declaration
  refine .peek ?_
  split
  · next hkey =>
    refine .advance hkey nofun fun _ => .name fun _ _ htitle => .expect nofun fun _ _ hleft => ?_
    refine (d.methods _).map ?_
    rintro fs _ _ ⟨us, brace, rfl, hright, hfs⟩
    exact ⟨false, .struct hkey htitle hleft hfs hright, nofun⟩
  · next hkey =>
    exact .advance hkey nofun fun _ => (d.variableRest _).map fun r us _ hr =>
      ⟨false, .let hkey hr, nofun⟩
  · refine (d.statement ts).imp ?_
    rintro s us rest ⟨bare, hs, hjoins, _⟩
    exact ⟨bare, .statement hs, hjoins⟩

theorem methods_succ (ts : List Token) : Takes ts (Parser.methods (depth + 1)) fun fs us _ =>
    ∃ vs brace, us = vs ++ [brace] ∧ brace.kind = .rightBrace ∧
      Derives strict (.methods fs) vs := by
  unfold Parser.methods
  refine .peek ?_
  split
  · next hbrace => exact .advance hbrace nofun fun _ => .pure ⟨[], _, rfl, hbrace, .noMethods⟩
  · exact .fault
  · have rest (title : Token) (htitle : title.kind = .identifier) (ts : List Token) :
        Takes ts (do
          let method ← Parser.function (some title.toName) title.toName.line depth
          return method :: (← Parser.methods depth))
        fun fs us _ => ∃ vs ws ps body fs' brace, us = vs ++ (ws ++ [brace]) ∧
          fs = .mk (some title.toName) ps body title.line :: fs' ∧
          Derives strict (.function ps body) vs ∧ Derives strict (.methods fs') ws ∧
          brace.kind = .rightBrace := by
      refine (d.function _ _ _).bind ?_
      rintro _ vs _ ⟨ps, body, rfl, hf⟩
      refine (d.methods _).map ?_
      rintro fs' _ _ ⟨ws, brace, rfl, hbrace, hfs⟩
      exact ⟨vs, ws, ps, body, fs', brace, rfl, rfl, hf, hfs, hbrace⟩
    refine .accept nofun (fun _ hkey => .name fun title r htitle => ?_)
      fun _ => .name fun title r htitle => ?_
    · refine (rest title htitle r).imp ?_
      rintro _ _ _ ⟨vs, ws, ps, body, fs', brace, rfl, rfl, hf, hfs, hbrace⟩
      exact ⟨frontToken ts :: title :: (vs ++ ws), brace, by simp, hbrace,
        .fnMethod hkey htitle hf hfs⟩
    · refine (rest title htitle r).imp ?_
      rintro _ _ _ ⟨vs, ws, ps, body, fs', brace, rfl, rfl, hf, hfs, hbrace⟩
      exact ⟨title :: (vs ++ ws), brace, by simp, hbrace, .method htitle hf hfs⟩

theorem variableRest_succ (ts : List Token) : Takes ts (Parser.variableRest (depth + 1))
    fun r us _ => Derives strict (.binding r.1 r.2) us := by
  unfold Parser.variableRest
  refine .name fun _ _ htitle => .accept nofun ?_ ?_
  · intro _ hsign
    refine (d.expression _).bind fun e us _ he => ?_
    exact .expect nofun fun _ _ hsemicolon => .pure (.initialized htitle hsign he.1 hsemicolon)
  · exact fun _ => .expect nofun fun _ _ hsemicolon => .pure (.unset htitle hsemicolon)

theorem optional_succ (close : TokenKind) (what : Expected) (ts : List Token)
    (hne : close ≠ .endOfFile) : Takes ts (Parser.optional close what (depth + 1))
      fun e us _ => ∃ vs t, us = vs ++ [t] ∧ t.kind = close ∧
        Derives strict (.optionalExpression e) vs := by
  unfold Parser.optional
  refine .accept hne ?_ ?_
  · exact fun _ ht => .pure ⟨[], _, rfl, ht, .noExpression⟩
  · intro _
    refine (d.expression _).bind fun e us _ he => ?_
    exact .expect hne fun t _ ht => .pure ⟨us, t, rfl, ht, .someExpression he.1⟩

theorem statement_succ (ts : List Token) : Takes ts (Parser.statement (depth + 1))
    fun s us r => ∃ bare, Derives strict (.statement bare s) us ∧
      (bare = true → ¬(frontToken r).kind.Joins) ∧
      (s.EndsOpen → (frontToken r).kind ≠ .else) := by
  unfold Parser.statement
  refine .peek ?_
  split
  · next hkey =>
    refine .advance hkey nofun fun _ => .expect nofun fun _ _ hleft =>
      .expect nofun fun _ _ hword => (d.variableRest _).bind fun r us _ hr => ?_
    refine (d.optional .semicolon _ _ nofun).bind ?_
    rintro condition _ _ ⟨vs, semicolon, rfl, hsemicolon, hcondition⟩
    refine (d.optional .rightParen _ _ nofun).bind ?_
    rintro step _ _ ⟨ws, right, rfl, hright, hstep⟩
    refine (d.statement _).map ?_
    rintro body xs rest ⟨bare, hbody, hjoins, hopen⟩
    have h := Derives.for hkey hleft hword hr hcondition hsemicolon hstep hright hbody
    refine ⟨bare, ?_, hjoins, fun | .for h => hopen h⟩
    simpa only [List.append_assoc, List.cons_append, List.nil_append] using h
  · next hkey =>
    refine .advance hkey nofun fun _ => .expect nofun fun _ _ hleft =>
      (d.expression _).bind fun c us _ hc => .expect nofun fun _ _ hright =>
      (d.statement _).bind ?_
    rintro yes vs rest ⟨bare, hyes, hjoins, hopen⟩
    refine .accept nofun (fun _ hword => ?_) (fun hword => .pure ?_)
    · have hclosed : strict = true → ¬yes.EndsOpen := fun _ h => hopen h hword
      refine (d.statement _).map ?_
      rintro no ws _ ⟨bare', hno, hjoins', hopen'⟩
      exact ⟨bare', .ifElse hkey hleft hc.1 hright hyes hclosed hword hno, hjoins',
        fun | .else h => hopen' h⟩
    · rw [List.append_nil]
      exact ⟨bare, .if hkey hleft hc.1 hright hyes, hjoins, fun _ => hword⟩
  · next hkey =>
    refine .advance hkey nofun fun _ => .expect nofun fun _ _ hleft =>
      (d.expression _).bind fun c us _ hc => .expect nofun fun _ _ hright =>
      (d.statement _).map ?_
    rintro body vs rest ⟨bare, hbody, hjoins, hopen⟩
    exact ⟨bare, .while hkey hleft hc.1 hright hbody, hjoins, fun | .while h => hopen h⟩
  · next hkey =>
    refine .advance hkey nofun fun _ => (d.optional .semicolon _ _ nofun).map ?_
    rintro e _ _ ⟨us, semicolon, rfl, hsemicolon, he⟩
    exact ⟨false, .return hkey he hsemicolon, nofun, nofun⟩
  · next hkey =>
    exact .advance hkey nofun fun _ => .expect nofun fun _ _ hsemicolon =>
      .pure ⟨false, .break hkey hsemicolon, nofun, nofun⟩
  · next hkey =>
    exact .advance hkey nofun fun _ => .expect nofun fun _ _ hsemicolon =>
      .pure ⟨false, .continue hkey hsemicolon, nofun, nofun⟩
  · next hkey =>
    refine .advance hkey nofun fun _ => (d.block _).map ?_
    rintro body _ _ ⟨us, brace, rfl, hbrace, hbody⟩
    exact ⟨false, .block hkey hbody hbrace, nofun, nofun⟩
  · next hkey =>
    exact .advance hkey nofun fun _ => (d.expression _).bind fun e us _ he =>
      .expect nofun fun _ _ hsemicolon =>
      .pure ⟨false, .print hkey he.1 hsemicolon, nofun, nofun⟩
  · refine (d.expression ts).bind fun e us rest he => ?_
    split
    · refine .accept nofun (fun _ hsemicolon => .pure ?_) (fun _ => .pure ?_)
      · exact ⟨false, .expression he.1 hsemicolon, nofun, nofun⟩
      · rw [List.append_nil]
        exact ⟨true, .bare he.1, fun _ => he.2, nofun⟩
    · exact .expect nofun fun _ _ hsemicolon =>
        .pure ⟨false, .expression he.1 hsemicolon, nofun, nofun⟩

theorem block_succ (ts : List Token) : Takes ts (Parser.block (depth + 1)) fun ss us _ =>
    ∃ vs brace, us = vs ++ [brace] ∧ brace.kind = .rightBrace ∧
      Derives strict (.declarations ss) vs := by
  unfold Parser.block
  refine .peek ?_
  split
  · next hbrace => exact .advance hbrace nofun fun _ => .pure ⟨[], _, rfl, hbrace, .nil⟩
  · exact .fault
  · refine (d.declaration ts).bind ?_
    rintro s us rest ⟨bare, hs, hjoins⟩
    refine (d.block rest).self.map ?_
    rintro ss _ r ⟨hrest, vs, brace, rfl, hbrace, hss⟩
    rw [hrest, List.append_assoc] at hjoins
    exact ⟨us ++ vs, brace, by simp, hbrace,
      .cons hs hss fun _ hbare => not_joins_of_append (hjoins hbare)⟩

theorem succ : Descent strict (depth + 1) where
  expression := d.expression_succ
  ternary := d.ternary_succ
  operation := d.operation_succ
  operationRest := d.operationRest_succ
  operand := d.operand_succ
  unary := d.unary_succ
  function := d.function_succ
  callRest := d.callRest_succ
  arguments := d.arguments_succ
  primary := d.primary_succ
  declaration := d.declaration_succ
  methods := d.methods_succ
  variableRest := d.variableRest_succ
  optional := d.optional_succ
  statement := d.statement_succ
  block := d.block_succ

end Descent

/-- **Every rule of the grammar takes tokens that derive what it reads.** -/
theorem descent (strict : Bool) : ∀ depth, Descent strict depth
  | 0 => descent_zero strict
  | depth + 1 => (descent strict depth).succ

/-! ## Rules that take something -/

section
variable {depth : Nat} {ts : List Token}

theorem takes_expression : Takes ts (expression depth) fun _ us _ => us ≠ [] :=
  ((descent true depth).expression ts).imp fun _ _ _ h => h.1.starts.ne_nil

theorem takes_ternary : Takes ts (ternary depth) fun _ us _ => us ≠ [] :=
  ((descent true depth).ternary ts).imp fun _ _ _ h => h.1.starts.ne_nil

theorem takes_operation {level : Level} : Takes ts (operation level depth) fun _ us _ => us ≠ [] :=
  ((descent true depth).operation level ts).imp fun _ _ _ h => h.1.starts.ne_nil

theorem takes_operand {level : Level} : Takes ts (operand level depth) fun _ us _ => us ≠ [] :=
  ((descent true depth).operand level ts).imp fun _ _ _ h => h.1.starts.ne_nil

theorem takes_function {title : Option Name} {line : Nat} :
    Takes ts (function title line depth) fun _ us _ => us ≠ [] :=
  ((descent true depth).function title line ts).imp fun _ _ _ ⟨_, _, _, h⟩ => by
    obtain ⟨_, _, rfl, _⟩ := h.starts
    exact List.cons_ne_nil _ _

theorem takes_declaration : Takes ts (declaration depth) fun _ us _ => us ≠ [] :=
  ((descent true depth).declaration ts).imp fun _ _ _ ⟨_, h, _⟩ => h.starts.ne_nil

theorem takes_statement : Takes ts (statement depth) fun _ us _ => us ≠ [] :=
  ((descent true depth).statement ts).imp fun _ _ _ ⟨_, h, _⟩ => h.starts.ne_nil

end

end Parser

/-! ## Whole programs -/

/-- The declarations that are read up to the end derive what was read. -/
theorem parseUpTo_derives (strict : Bool) (depth : Nat) :
    ∀ (count : Nat) {c c' : Cursor} {ss : List Stmt},
    c.rest.length ≤ count → parseUpTo depth count c = ((ss, none), c') →
    ∃ us, c.rest = us ++ c'.rest ∧ atEnd c'.rest = true ∧ Derives strict (.declarations ss) us := by
  intro count
  induction count with
  | zero =>
    intro c c' ss hlen h
    cases h
    rw [List.eq_nil_of_length_eq_zero (Nat.le_zero.1 hlen)]
    exact ⟨[], rfl, rfl, .nil⟩
  | succ count ih =>
    intro c c' ss hlen h
    unfold parseUpTo at h
    split at h
    · next hend =>
      cases h
      exact ⟨[], rfl, hend, .nil⟩
    · split at h
      · next s c₁ hs =>
        obtain ⟨us, hus, bare, hd, hjoins⟩ :=
          (Parser.descent strict depth).declaration c.rest _ _ _ hs
        obtain ⟨t, vs, rfl, _⟩ := hd.starts
        rcases hrest : parseUpTo depth count c₁ with ⟨⟨ss', e⟩, c₂⟩
        rw [hrest] at h
        cases h
        have hlen' : c₁.rest.length ≤ count := by
          rw [hus] at hlen
          simp only [List.length_append, List.length_cons] at hlen
          omega
        obtain ⟨ws, hws, hend, hss⟩ := ih hlen' hrest
        rw [hws] at hjoins
        refine ⟨t :: vs ++ ws, ?_, hend, .cons hd hss ?_⟩
        · rw [hus, hws, List.append_assoc]
        · exact fun _ hbare => not_joins_of_append (hjoins hbare)
      · cases h

/-- **A parsed program is derived from all its tokens**, every one but the end of file. -/
theorem parse_derives {site site' : Nat} {ts : List Token} {eof : Token} {ss : List Stmt}
    (hts : ∀ t ∈ ts, t.kind ≠ .endOfFile) (heof : eof.kind = .endOfFile)
    (h : parse site (ts ++ [eof]) = (.ok ss, site')) (strict : Bool) :
    Derives strict (.declarations ss) ts := by
  unfold parse parsePartial at h
  rcases hrun : parseUpTo (Parser.depthBound (ts ++ [eof])) (ts ++ [eof]).length
    ⟨ts ++ [eof], site⟩ with ⟨⟨ss', e⟩, c⟩
  rw [hrun] at h
  cases e with
  | some e => cases h
  | none =>
    cases h
    obtain ⟨us, hus, hend, hss⟩ :=
      parseUpTo_derives strict _ _ (c := ⟨ts ++ [eof], site⟩) (Nat.le_refl _) hrun
    suffices us = ts by rw [← this]; exact hss
    -- an end of file is neither among the tokens derived nor before the end
    rcases List.append_eq_append_iff.1 hus with ⟨vs, rfl, hvs⟩ | ⟨vs, rfl, hvs⟩
    · cases vs with
      | nil => rw [List.append_nil]
      | cons t vs =>
        obtain ⟨rfl, _⟩ := List.cons.inj hvs
        exact absurd heof (hss.no_end eof (by simp))
    · cases vs with
      | nil => rw [List.append_nil]
      | cons t vs =>
        rw [hvs] at hend
        exact absurd (by simpa [atEnd, frontToken] using hend) (hts t (by simp))

end Scriptling
