/-
  Horizon — the parser sees no further than the end of the file.

  A rule that starts before an end of file stops at that end, or before it.  What comes behind does
  not matter, and neither does the bound on the depth, once it suffices for the tokens left.

  * `Within`: two rules that end alike, one of them with more tokens behind the end of the file;
  * `Parser.Horizon`: the rules of the grammar, at a depth that suffices and at a greater one;
  * `Parser.horizon`: all of them stay within their tokens, by induction on the depth.
-/
import Scriptling.Proofs.Descent

namespace Scriptling

/-- An end of file is among the tokens. -/
def Ended (ts : List Token) : Prop := ∃ t ∈ ts, t.kind = .endOfFile

namespace Ended

variable {ts : List Token}

theorem ne_nil (h : Ended ts) : ts ≠ [] := by
  rintro rfl
  obtain ⟨t, ht, -⟩ := h
  cases ht

theorem frontToken_append (h : Ended ts) (more : List Token) :
    frontToken (ts ++ more) = frontToken ts := by
  cases ts with
  | nil => exact absurd rfl h.ne_nil
  | cons t ts => rfl

/-- Another token can be taken without reaching the end. -/
theorem tail (h : Ended ts) (hfront : (frontToken ts).kind ≠ .endOfFile) : Ended ts.tail := by
  obtain ⟨t, ht, hk⟩ := h
  cases ht with
  | head => exact absurd hk hfront
  | tail _ ht => exact ⟨t, ht, hk⟩

end Ended

namespace Parser

/-! ## Rules that stay within their tokens -/

/-- Where a run has come to, and another one with more tokens behind: the first has left a rest of
    its tokens, with an end of file. -/
structure Abreast (ts more : List Token) (c d : Cursor) : Prop where
  ended : Ended c.rest
  suffix : c.rest <:+ ts
  eq : d = ⟨c.rest ++ more, c.nextSite⟩

/-- Two runs that end alike, with one result or one fault. -/
def EndAbreast {α : Type} (ts more : List Token) :
    EStateM.Result Error Cursor α → EStateM.Result Error Cursor α → Prop
  | .ok a c, .ok b d => a = b ∧ Abreast ts more c d
  | .error e c, .error e' d => e = e' ∧ Abreast ts more c d
  | _, _ => False

/-- **A rule stays within the tokens** up to the end of file: another one with more tokens behind
    them does the same. -/
def Within {α : Type} (ts : List Token) (p q : Parser α) : Prop :=
  Ended ts → ∀ more site, EndAbreast ts more (p ⟨ts, site⟩) (q ⟨ts ++ more, site⟩)

theorem EndAbreast.after {α : Type} {ts rest more : List Token}
    {r r' : EStateM.Result Error Cursor α} (h : EndAbreast rest more r r') (hrest : rest <:+ ts) :
    EndAbreast ts more r r' := by
  cases r <;> cases r' <;> first
    | exact ⟨h.1, h.2.ended, h.2.suffix.trans hrest, h.2.eq⟩
    | exact h

namespace Within

variable {α β : Type} {ts : List Token}

theorem pure {a : α} : Within ts (Pure.pure a) (Pure.pure a) :=
  fun h _ _ => ⟨rfl, h, List.suffix_rfl, rfl⟩

theorem throw {e : Error} : Within ts (MonadExcept.throw e : Parser α) (MonadExcept.throw e) :=
  fun h _ _ => ⟨rfl, h, List.suffix_rfl, rfl⟩

theorem fault {f : SyntaxFault} : Within ts (Parser.fault f : Parser α) (Parser.fault f) :=
  fun h more _ => ⟨by rw [h.frontToken_append more], h, List.suffix_rfl, rfl⟩

/-- **Rules in sequence.** -/
theorem bind {p p' : Parser α} {q q' : α → Parser β} {Q : α → List Token → List Token → Prop}
    (hp : Within ts p p') (ht : Takes ts p Q)
    (hq : ∀ a us rest, ts = us ++ rest → Q a us rest → Within rest (q a) (q' a)) :
    Within ts (p >>= q) (p' >>= q') := by
  intro h more site
  have hrun := hp h more site
  have htakes := ht site
  simp only [Bind.bind, EStateM.bind]
  generalize p ⟨ts, site⟩ = x at hrun htakes
  generalize p' ⟨ts ++ more, site⟩ = y at hrun
  cases x with
  | ok a c =>
    cases y with
    | ok b d =>
      obtain ⟨rfl, hended, hsuffix, rfl⟩ := hrun
      obtain ⟨us, hus, ha⟩ := htakes a c rfl
      exact (hq a us c.rest hus ha hended more c.nextSite).after hsuffix
    | error => exact hrun.elim
  | error e c =>
    cases y with
    | ok => exact hrun.elim
    | error => exact hrun

/-- What a rule leaves is no longer than what it was given. -/
theorem takes {p p' : Parser α} (hp : Within ts p p') (h : Ended ts) :
    Takes ts p fun _ _ _ => True := by
  intro site a c hc
  have hrun := hp h [] site
  rw [hc] at hrun
  generalize p' ⟨ts ++ [], site⟩ = y at hrun
  cases y with
  | ok b d => exact ⟨_, hrun.2.suffix.choose_spec.symm, trivial⟩
  | error => exact hrun.elim

/-- Rules in sequence, of which the first one may take nothing. -/
theorem seq {p p' : Parser α} {q q' : α → Parser β} (hp : Within ts p p')
    (hq : ∀ a rest, rest.length ≤ ts.length → Within rest (q a) (q' a)) :
    Within ts (p >>= q) (p' >>= q') := by
  intro h
  refine hp.bind (hp.takes h) ?_ h
  rintro a us rest rfl -
  exact hq a rest (by rw [List.length_append]; omega)

/-- Rules in sequence, of which the first one takes something. -/
theorem step {p p' : Parser α} {q q' : α → Parser β} (hp : Within ts p p')
    (ht : Takes ts p fun _ us _ => us ≠ [])
    (hq : ∀ a rest, rest.length < ts.length → Within rest (q a) (q' a)) :
    Within ts (p >>= q) (p' >>= q') := by
  refine hp.bind ht ?_
  rintro a us rest rfl hne
  have hpos := List.length_pos_iff.2 hne
  exact hq a rest (by rw [List.length_append]; omega)

theorem map {p p' : Parser α} {f : α → β} (hp : Within ts p p') :
    Within ts (p >>= fun a => Pure.pure (f a)) (p' >>= fun a => Pure.pure (f a)) :=
  hp.seq fun _ _ _ => .pure

theorem ite {c : Prop} [Decidable c] {p p' q q' : Parser α} (hp : c → Within ts p p')
    (hq : ¬c → Within ts q q') : Within ts (if c then p else q) (if c then p' else q') := by
  split
  · exact hp ‹c›
  · exact hq ‹¬c›

theorem peek {q q' : Token → Parser β} (hq : Within ts (q (frontToken ts)) (q' (frontToken ts))) :
    Within ts (Parser.peek >>= q) (Parser.peek >>= q') := by
  intro h more site
  have hrun := hq h more site
  rw [← h.frontToken_append more] at hrun
  simpa [Bind.bind, EStateM.bind, Parser.peek, h.frontToken_append more] using hrun

theorem freshSite {q q' : Nat → Parser β} (hq : ∀ site, Within ts (q site) (q' site)) :
    Within ts (Parser.freshSite >>= q) (Parser.freshSite >>= q') :=
  fun h more site => hq site h more (site + 1)

/-- A token other than the end of file is taken. -/
theorem advance {q q' : Unit → Parser β} (hfront : (frontToken ts).kind ≠ .endOfFile)
    (hq : ∀ rest, rest.length < ts.length → Within rest (q ()) (q' ())) :
    Within ts (Parser.advance >>= q) (Parser.advance >>= q') := by
  intro h more site
  cases ts with
  | nil => exact absurd rfl h.ne_nil
  | cons t rest =>
    exact (hq rest (Nat.lt_succ_self _) (h.tail hfront) more site).after (List.suffix_cons t rest)

/-- A token of a kind is taken, or asked for. -/
theorem expect {kind : TokenKind} {what : Expected} {q q' : Token → Parser β}
    (hne : kind ≠ .endOfFile)
    (hq : ∀ t rest, rest.length < ts.length → Within rest (q t) (q' t)) :
    Within ts (Parser.expect kind what >>= q) (Parser.expect kind what >>= q') := by
  have h : Within ts (Parser.expect kind what) (Parser.expect kind what) :=
    peek (ite (fun hk => advance (by rwa [hk]) fun _ _ => pure) fun _ => fault)
  have ht : Takes ts (Parser.expect kind what) fun _ us _ => us ≠ [] :=
    .peek (.ite (fun hk => .advance hk hne fun _ => .pure (List.cons_ne_nil _ _)) fun _ => .fault)
  exact h.step ht hq

theorem name {what : Expected} {q q' : Name → Parser β}
    (hq : ∀ n rest, rest.length < ts.length → Within rest (q n) (q' n)) :
    Within ts (Parser.name what >>= q) (Parser.name what >>= q') := by
  have h : Within ts (Parser.name what) (Parser.name what) := expect nofun fun _ _ _ => pure
  have ht : Takes ts (Parser.name what) fun _ us _ => us ≠ [] :=
    .expect nofun fun _ _ _ => .pure (List.cons_ne_nil _ _)
  exact h.step ht hq

theorem accept {kind : TokenKind} {q q' : Bool → Parser β} (hne : kind ≠ .endOfFile)
    (yes : ∀ rest, rest.length < ts.length → Within rest (q true) (q' true))
    (no : Within ts (q false) (q' false)) :
    Within ts (Parser.accept kind >>= q) (Parser.accept kind >>= q') := by
  have h : Within ts (Parser.accept kind) (Parser.accept kind) :=
    peek (ite (fun hk => advance (by rwa [hk]) fun _ _ => pure) fun _ => pure)
  have ht : Takes ts (Parser.accept kind) fun b us rest => us ≠ [] ∧ b = true ∨
      b = false ∧ ts = rest :=
    .peek (.ite (fun hk => .advance hk hne fun _ => .pure (.inl ⟨List.cons_ne_nil _ _, rfl⟩))
      fun _ => .pure (.inr ⟨rfl, rfl⟩))
  refine h.bind ht ?_
  rintro _ us rest hus (⟨hne, rfl⟩ | ⟨rfl, rfl⟩)
  · have hpos := List.length_pos_iff.2 hne
    exact yes rest (by rw [hus, List.length_append]; omega)
  · exact no

theorem parameters : ∀ {room : Nat} {ts : List Token},
    Within ts (Parser.parameters room) (Parser.parameters room)
  | 0, _ => fault
  | _ + 1, _ => name fun _ _ _ => accept nofun (fun _ _ => parameters.map) pure

end Within

/-! ## The rules of the grammar -/

/-- The rules of the grammar, when they descend no deeper than a bound that suffices for the tokens
    left, and when they may descend deeper. -/
structure Horizon (depth depth' : Nat) : Prop where
  expression (ts : List Token) : 32 * ts.length + 16 ≤ depth →
    Within ts (expression depth) (expression depth')
  ternary (ts : List Token) : 32 * ts.length + 15 ≤ depth →
    Within ts (ternary depth) (ternary depth')
  operation (level : Level) (ts : List Token) :
    32 * ts.length + 14 ≤ depth + 2 * level.tightness →
    Within ts (operation level depth) (operation level depth')
  operationRest (level : Level) (left : Expr) (ts : List Token) : 32 * ts.length + 1 ≤ depth →
    Within ts (operationRest level left depth) (operationRest level left depth')
  operand (level : Level) (ts : List Token) : 32 * ts.length + 13 ≤ depth + 2 * level.tightness →
    Within ts (operand level depth) (operand level depth')
  unary (ts : List Token) : 32 * ts.length + 2 ≤ depth → Within ts (unary depth) (unary depth')
  function (title : Option Name) (line : Nat) (ts : List Token) : 32 * ts.length + 1 ≤ depth →
    Within ts (function title line depth) (function title line depth')
  callRest (callee : Expr) (ts : List Token) : 32 * ts.length + 1 ≤ depth →
    Within ts (callRest callee depth) (callRest callee depth')
  arguments (room : Nat) (ts : List Token) : 32 * ts.length + 17 ≤ depth →
    Within ts (arguments room depth) (arguments room depth')
  primary (ts : List Token) : 32 * ts.length + 1 ≤ depth →
    Within ts (primary depth) (primary depth')
  declaration (ts : List Token) : 32 * ts.length + 18 ≤ depth →
    Within ts (declaration depth) (declaration depth')
  methods (ts : List Token) : 32 * ts.length + 1 ≤ depth →
    Within ts (methods depth) (methods depth')
  variableRest (ts : List Token) : 32 * ts.length + 1 ≤ depth →
    Within ts (variableRest depth) (variableRest depth')
  optional (close : TokenKind) (what : Expected) (ts : List Token) : close ≠ .endOfFile →
    32 * ts.length + 17 ≤ depth →
    Within ts (optional close what depth) (optional close what depth')
  statement (ts : List Token) : 32 * ts.length + 17 ≤ depth →
    Within ts (statement depth) (statement depth')
  block (ts : List Token) : 32 * ts.length + 19 ≤ depth → Within ts (block depth) (block depth')

theorem horizon_zero (depth' : Nat) : Horizon 0 depth' := by
  have none {n : Nat} {l : Level} {P : Prop} (h : n + 13 ≤ 0 + 2 * l.tightness) : P := by
    have := l.tightness_le
    omega
  constructor <;> intros <;> first | omega | exact none ‹_›

namespace Horizon

variable {depth depth' : Nat} (d : Horizon depth depth')
include d

theorem expression_succ (ts : List Token) (hdepth : 32 * ts.length + 16 ≤ depth + 1) :
    Within ts (Parser.expression (depth + 1)) (Parser.expression (depth' + 1)) := by
  unfold Parser.expression
  refine (d.ternary ts (by omega)).seq fun target rest hlen => .peek (.ite (fun hsign => ?_) ?_)
  · refine .advance (by simp [hsign]) fun rest' hlen' => ?_
    refine (d.expression rest' (by omega)).seq fun value _ _ => ?_
    split
    · exact .freshSite fun _ => .pure
    · exact .pure
    · exact .throw
  · exact fun _ => .pure

theorem ternary_succ (ts : List Token) (hdepth : 32 * ts.length + 15 ≤ depth + 1) :
    Within ts (Parser.ternary (depth + 1)) (Parser.ternary (depth' + 1)) := by
  unfold Parser.ternary
  refine (d.operation .or ts (by omega)).seq fun condition rest hlen =>
    .accept (by decide) (fun rest' hlen' => ?_) .pure
  refine (d.ternary rest' (by omega)).seq fun yes _ _ => .expect (by decide) fun _ rest'' _ => ?_
  exact (d.ternary rest'' (by omega)).map

theorem operation_succ (level : Level) (ts : List Token)
    (hdepth : 32 * ts.length + 14 ≤ depth + 1 + 2 * level.tightness) :
    Within ts (Parser.operation level (depth + 1)) (Parser.operation level (depth' + 1)) := by
  unfold Parser.operation
  have hlevel := level.tightness_le
  exact (d.operand level ts (by omega)).seq fun first rest _ =>
    d.operationRest level first rest (by omega)

theorem operationRest_succ (level : Level) (left : Expr) (ts : List Token)
    (hdepth : 32 * ts.length + 1 ≤ depth + 1) :
    Within ts (Parser.operationRest level left (depth + 1))
      (Parser.operationRest level left (depth' + 1)) := by
  unfold Parser.operationRest
  refine .peek ?_
  cases hop : level.operator? (frontToken ts).kind with
  | none => exact .pure
  | some op =>
    have hlevel := level.tightness_le
    have hfront : (frontToken ts).kind ≠ .endOfFile := by
      intro h
      rw [h] at hop
      cases level <;> cases hop
    refine .advance hfront fun rest _ => (d.operand level rest (by omega)).seq fun _ rest' _ => ?_
    exact d.operationRest level _ rest' (by omega)

theorem operand_succ (level : Level) (ts : List Token)
    (hdepth : 32 * ts.length + 13 ≤ depth + 1 + 2 * level.tightness) :
    Within ts (Parser.operand level (depth + 1)) (Parser.operand level (depth' + 1)) := by
  unfold Parser.operand
  cases htighter : level.tighter? with
  | some tighter =>
    have := Level.tightness_tighter htighter
    exact d.operation tighter ts (by omega)
  | none =>
    have := level.tightness_le
    exact d.unary ts (by omega)

theorem unary_succ (ts : List Token) (hdepth : 32 * ts.length + 2 ≤ depth + 1) :
    Within ts (Parser.unary (depth + 1)) (Parser.unary (depth' + 1)) := by
  unfold Parser.unary
  refine .peek ?_
  cases hop : UnaryOp.ofKind? (frontToken ts).kind with
  | some op =>
    have hfront : (frontToken ts).kind ≠ .endOfFile := by
      intro h
      rw [h] at hop
      cases hop
    exact .advance hfront fun rest _ => (d.unary rest (by omega)).map
  | none =>
    refine .ite (fun hfn => .advance (by simp [hfn]) fun rest _ => .peek (.ite ?_ ?_)) ?_
    · exact fun _ => .name fun title rest' _ => (d.function _ _ rest' (by omega)).map
    · exact fun _ => (d.function _ _ rest (by omega)).map
    · exact fun _ => (d.primary ts (by omega)).seq fun callee rest _ =>
        d.callRest callee rest (by omega)

theorem function_succ (title : Option Name) (line : Nat) (ts : List Token)
    (hdepth : 32 * ts.length + 1 ≤ depth + 1) :
    Within ts (Parser.function title line (depth + 1))
      (Parser.function title line (depth' + 1)) := by
  unfold Parser.function
  have body (params : List Name) {ts : List Token} (hdepth : 32 * ts.length + 19 ≤ depth) :
      Within ts
        (do
          let _ ← expect .rightParen .parametersClose
          let _ ← expect .leftBrace .functionBody
          let body ← Parser.block depth
          return Function.mk title params body line)
        (do
          let _ ← expect .rightParen .parametersClose
          let _ ← expect .leftBrace .functionBody
          let body ← Parser.block depth'
          return Function.mk title params body line) :=
    .expect (by decide) fun _ _ _ => .expect (by decide) fun _ rest _ =>
      (d.block rest (by omega)).map
  refine .expect (by decide) fun _ rest _ => .peek (.ite (fun _ => body [] (by omega)) fun _ => ?_)
  exact Within.parameters.seq fun params _ _ => body params (by omega)

theorem callRest_succ (callee : Expr) (ts : List Token)
    (hdepth : 32 * ts.length + 1 ≤ depth + 1) :
    Within ts (Parser.callRest callee (depth + 1)) (Parser.callRest callee (depth' + 1)) := by
  unfold Parser.callRest
  have close (es : List Expr) {ts : List Token} (hdepth : 32 * ts.length + 1 ≤ depth) :
      Within ts
        (do
          let close ← expect .rightParen .argumentsClose
          Parser.callRest (.call callee close.line es) depth)
        (do
          let close ← expect .rightParen .argumentsClose
          Parser.callRest (.call callee close.line es) depth') :=
    .expect (by decide) fun _ rest _ => d.callRest _ rest (by omega)
  refine .peek ?_
  generalize hk : (frontToken ts).kind = k
  have hne : k = .leftParen ∨ k = .dot → (frontToken ts).kind ≠ .endOfFile := by
    rintro (rfl | rfl) <;> simp [hk]
  split
  · refine .advance (hne (.inl rfl)) fun rest _ => .peek (.ite (fun _ => close [] (by omega)) ?_)
    exact fun _ => (d.arguments _ rest (by omega)).seq fun es _ _ => close es (by omega)
  · exact .advance (hne (.inr rfl)) fun _ _ => .name fun _ rest _ => d.callRest _ rest (by omega)
  · exact .pure

theorem arguments_succ (room : Nat) (ts : List Token)
    (hdepth : 32 * ts.length + 17 ≤ depth + 1) :
    Within ts (Parser.arguments room (depth + 1)) (Parser.arguments room (depth' + 1)) := by
  unfold Parser.arguments
  cases room with
  | zero => exact .fault
  | succ room =>
    refine (d.expression ts (by omega)).seq fun e rest _ =>
      .accept (by decide) (fun rest' _ => ?_) .pure
    exact (d.arguments room rest' (by omega)).map

theorem primary_succ (ts : List Token) (hdepth : 32 * ts.length + 1 ≤ depth + 1) :
    Within ts (Parser.primary (depth + 1)) (Parser.primary (depth' + 1)) := by
  unfold Parser.primary
  refine .peek ?_
  generalize hk : (frontToken ts).kind = k
  have take {q q' : Unit → Parser Expr} (hne : k ≠ .endOfFile)
      (hq : ∀ rest, rest.length < ts.length → Within rest (q ()) (q' ())) :
      Within ts (Parser.advance >>= q) (Parser.advance >>= q') := .advance (by rwa [hk]) hq
  split
  any_goals exact take (by simp) fun _ _ => .pure
  · exact take (by decide) fun _ _ => .freshSite fun _ => .pure
  · exact take (by decide) fun _ _ => .freshSite fun _ => .pure
  · exact take (by decide) fun rest _ => (d.expression rest (by omega)).seq fun _ _ _ =>
      .expect (by decide) fun _ _ _ => .pure
  · exact .fault

theorem declaration_succ (ts : List Token) (hdepth : 32 * ts.length + 18 ≤ depth + 1) :
    Within ts (Parser.declaration (depth + 1)) (Parser.declaration (depth' + 1)) := by
  unfold Parser.declaration
  refine .peek ?_
  split
  · next hk =>
    exact .advance (by simp [hk]) fun _ _ => .name fun _ _ _ => .expect (by decide) fun _ rest _ =>
      (d.methods rest (by omega)).map
  · next hk => exact .advance (by simp [hk]) fun rest _ => (d.variableRest rest (by omega)).map
  · exact d.statement ts (by omega)

theorem methods_succ (ts : List Token) (hdepth : 32 * ts.length + 1 ≤ depth + 1) :
    Within ts (Parser.methods (depth + 1)) (Parser.methods (depth' + 1)) := by
  unfold Parser.methods
  refine .peek ?_
  split
  · next hk => exact .advance (by simp [hk]) fun _ _ => .pure
  · exact .fault
  · have method {ts : List Token} (hdepth : 32 * ts.length + 1 ≤ depth + 1) :
        Within ts
          (do
            let title ← name .methodName
            let method ← Parser.function (some title) title.line depth
            return method :: (← Parser.methods depth))
          (do
            let title ← name .methodName
            let method ← Parser.function (some title) title.line depth'
            return method :: (← Parser.methods depth')) :=
      .name fun _ rest _ => (d.function _ _ rest (by omega)).seq fun _ rest' _ =>
        (d.methods rest' (by omega)).map
    exact .accept (by decide) (fun _ _ => method (by omega)) (method hdepth)

theorem variableRest_succ (ts : List Token) (hdepth : 32 * ts.length + 1 ≤ depth + 1) :
    Within ts (Parser.variableRest (depth + 1)) (Parser.variableRest (depth' + 1)) := by
  unfold Parser.variableRest
  refine .name fun _ _ _ => .accept (by decide) (fun rest _ => ?_)
    (.expect (by decide) fun _ _ _ => .pure)
  exact (d.expression rest (by omega)).seq fun _ _ _ => .expect (by decide) fun _ _ _ => .pure

theorem optional_succ (close : TokenKind) (what : Expected) (ts : List Token)
    (hclose : close ≠ .endOfFile) (hdepth : 32 * ts.length + 17 ≤ depth + 1) :
    Within ts (Parser.optional close what (depth + 1))
      (Parser.optional close what (depth' + 1)) := by
  unfold Parser.optional
  refine .accept hclose (fun _ _ => .pure) ?_
  exact (d.expression ts (by omega)).seq fun _ _ _ => .expect hclose fun _ _ _ => .pure

theorem statement_succ (ts : List Token) (hdepth : 32 * ts.length + 17 ≤ depth + 1) :
    Within ts (Parser.statement (depth + 1)) (Parser.statement (depth' + 1)) := by
  unfold Parser.statement
  refine .peek ?_
  split
  · next hk =>
    refine .advance (by simp [hk]) fun _ _ => .expect (by decide) fun _ _ _ =>
      .expect (by decide) fun _ rest _ => (d.variableRest rest (by omega)).seq fun _ rest _ => ?_
    refine (d.optional .semicolon _ rest (by decide) (by omega)).seq fun _ rest _ => ?_
    exact (d.optional .rightParen _ rest (by decide) (by omega)).seq fun _ rest _ =>
      (d.statement rest (by omega)).map
  · next hk =>
    refine .advance (by simp [hk]) fun _ _ => .expect (by decide) fun _ rest _ =>
      (d.expression rest (by omega)).seq fun _ _ _ => .expect (by decide) fun _ rest _ =>
      (d.statement rest (by omega)).seq fun _ _ _ => .accept (by decide) (fun rest _ => ?_) .pure
    exact (d.statement rest (by omega)).map
  · next hk =>
    exact .advance (by simp [hk]) fun _ _ => .expect (by decide) fun _ rest _ =>
      (d.expression rest (by omega)).seq fun _ _ _ => .expect (by decide) fun _ rest _ =>
      (d.statement rest (by omega)).map
  · next hk =>
    exact .advance (by simp [hk]) fun rest _ =>
      (d.optional .semicolon _ rest (by decide) (by omega)).map
  · next hk => exact .advance (by simp [hk]) fun _ _ => .expect (by decide) fun _ _ _ => .pure
  · next hk => exact .advance (by simp [hk]) fun _ _ => .expect (by decide) fun _ _ _ => .pure
  · next hk => exact .advance (by simp [hk]) fun rest _ => (d.block rest (by omega)).map
  · next hk =>
    exact .advance (by simp [hk]) fun rest _ => (d.expression rest (by omega)).seq fun _ _ _ =>
      .expect (by decide) fun _ _ _ => .pure
  · refine (d.expression ts (by omega)).seq fun e _ _ => ?_
    split
    · exact .accept (by decide) (fun _ _ => .pure) .pure
    · exact .expect (by decide) fun _ _ _ => .pure

theorem block_succ (ts : List Token) (hdepth : 32 * ts.length + 19 ≤ depth + 1) :
    Within ts (Parser.block (depth + 1)) (Parser.block (depth' + 1)) := by
  unfold Parser.block
  refine .peek ?_
  split
  · next hk => exact .advance (by simp [hk]) fun _ _ => .pure
  · exact .fault
  · exact (d.declaration ts (by omega)).step takes_declaration fun _ rest _ =>
      (d.block rest (by omega)).map

theorem succ : Horizon (depth + 1) (depth' + 1) where
  expression := d.expression_succ
  ternary := d.ternary_succ
  operation := d.operation_succ
  operationRest := d.operationRest_succ
  operand := d.operand_succ
  unary := d.unary_succ
  function := d.function_succ
  callRest := d.callRest_succ
  arguments := d.arguments_succ
  primary := d.primary_succ
  declaration := d.declaration_succ
  methods := d.methods_succ
  variableRest := d.variableRest_succ
  optional := d.optional_succ
  statement := d.statement_succ
  block := d.block_succ

end Horizon

/-- **Every rule of the grammar stays within its tokens**, and would not read anything else if it
    were allowed to descend deeper. -/
theorem horizon : ∀ {depth depth' : Nat}, depth ≤ depth' → Horizon depth depth'
  | 0, depth', _ => horizon_zero depth'
  | _ + 1, _ + 1, h => (horizon (Nat.le_of_succ_le_succ h)).succ

end Parser

end Scriptling
