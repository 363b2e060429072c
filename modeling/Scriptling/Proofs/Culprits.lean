/-
  Culprits — a syntax error stands at the first token that no program goes on with.

  * `Parser.Guides`: how the rules of the grammar are steered, at a depth that suffices for the
    tokens left;
  * `Parser.guides`: all of them are, by induction on the depth;
  * `parseUpTo_led`, `parse_stops`: declaration after declaration, up to where the parser stops;
  * `Grammatical.derives_or_limit`: the table goes no further than to the limits of the language;
  * `syntax_error_at_first_offending`: what was read before the error is the start of a program, and
    it is no longer with the token at the error.
-/
import Scriptling.Proofs.Trails

namespace Scriptling

namespace Parser

theorem takes_primary {depth : Nat} {ts : List Token} :
    Takes ts (primary depth) fun e us _ => ¬e.IsNamed ∧ us ≠ [] := by
  refine ((descent true depth).primary ts).imp fun e us _ h => ⟨?_, h.starts.ne_nil⟩
  exact not_isNamed (Derives.noCall h).not_function

theorem steers_parameters {K : List Token → Prop} (hK : ∃ v, K v) {f : Form} :
    ∀ {room : Nat} {ts : List Token}, Steers ts (parameters room)
      (Spells K (.kind .identifier :: .rule .moreParameters :: .kind .rightParen :: f))
      fun _ => Spells K (.kind .rightParen :: f)
  | 0, _ => .limit (by rintro _ ⟨⟩)
  | _ + 1, _ => .name hK fun _ _ _ => .accept
      (fun hcomma => .at_kind hcomma
        (.first (narrows_present (r := .moreParameters) rfl (refuses_of_not_nullable rfl rfl)))
        (.take hcomma rfl fun _ _ => (steers_parameters hK).map fun _ _ => .rfl))
      (fun hcomma => .narrow (narrows_skip rfl (decide_eq_false hcomma)) (.pure fun _ => .rfl))

/-! ## The rules of the grammar -/

/-- **How the rules of the grammar are steered**, when they descend no deeper than a bound. -/
structure Guides (depth : Nat) : Prop where
  expression (ts : List Token) (K K' : List Token → Prop) : Fits .expression K K' →
    32 * ts.length + 16 ≤ depth →
    Steers ts (expression depth) (Ahead .expression K K') (Behind K K')
  ternary (ts : List Token) (K K' : List Token → Prop) : Fits .ternary K K' →
    32 * ts.length + 15 ≤ depth → Steers ts (ternary depth) (Ahead .ternary K K') (Behind K K')
  operation (level : Level) (ts : List Token) (K K' : List Token → Prop) :
    Fits (.operation level) K K' → 32 * ts.length + 14 ≤ depth + 2 * level.tightness →
    Steers ts (operation level depth) (Ahead (.operation level) K K') (Behind K K')
  operationRest (level : Level) (left : Expr) (ts : List Token) (K K' : List Token → Prop) :
    Fits (.operation level) K K' → 32 * ts.length + 1 ≤ depth →
    Steers ts (operationRest level left depth)
      (Behind (Spells K [.rule (.operations level)]) K' left) (Behind K K')
  operand (level : Level) (ts : List Token) (K K' : List Token → Prop) :
    Fits (.operand level) K K' → 32 * ts.length + 13 ≤ depth + 2 * level.tightness →
    Steers ts (operand level depth) (Ahead (.operand level) K K') (Behind K K')
  unary (ts : List Token) (K K' : List Token → Prop) : Fits .unary K K' →
    32 * ts.length + 2 ≤ depth → Steers ts (unary depth) (Ahead .unary K K') (Behind K K')
  function (title : Option Name) (line : Nat) (ts : List Token) (K : List Token → Prop) :
    (∃ v, K v) → 32 * ts.length + 1 ≤ depth →
    Steers ts (function title line depth) (Spells K [.rule .function]) fun _ => K
  callRest (callee : Expr) (ts : List Token) (K K' : List Token → Prop) : ¬callee.IsNamed →
    Fits .unary K K' → 32 * ts.length + 1 ≤ depth →
    Steers ts (callRest callee depth) (Spells K [.rule .suffixes]) (Behind K K')
  arguments (room : Nat) (ts : List Token) (K : List Token → Prop) (f : Form) : (∃ v, K v) →
    32 * ts.length + 17 ≤ depth → Steers ts (arguments room depth)
      (Spells K (.rule .expression :: .rule .moreArguments :: .kind .rightParen :: f))
      fun _ => Spells K (.kind .rightParen :: f)
  primary (ts : List Token) (K : List Token → Prop) : (∃ v, K v) → 32 * ts.length + 1 ≤ depth →
    Steers ts (primary depth) (Spells K [.rule .primary]) fun _ => K
  declaration (ts : List Token) (K : List Token → Prop) : Follows K →
    32 * ts.length + 18 ≤ depth →
    Steers ts (declaration depth) (Spells K [.rule .declaration]) fun _ => K
  methods (ts : List Token) (K : List Token → Prop) : (∃ v, K v) → 32 * ts.length + 1 ≤ depth →
    Steers ts (methods depth) (Spells K [.rule .methods, .kind .rightBrace]) fun _ => K
  variableRest (ts : List Token) (K : List Token → Prop) : (∃ v, K v) →
    32 * ts.length + 1 ≤ depth → Steers ts (variableRest depth)
      (Spells K [.kind .identifier, .rule .assigned, .kind .semicolon]) fun _ => K
  optional (close : TokenKind) (what : Expected) (ts : List Token) (K : List Token → Prop) :
    (∃ v, K v) → close.ends = true → 32 * ts.length + 17 ≤ depth →
    Steers ts (optional close what depth) (Spells K [.rule .optional, .kind close]) fun _ => K
  statement (ts : List Token) (K : List Token → Prop) : Follows K → 32 * ts.length + 17 ≤ depth →
    Steers ts (statement depth) (Spells K [.rule .statement]) fun _ => K
  block (ts : List Token) (K : List Token → Prop) : (∃ v, K v) → 32 * ts.length + 19 ≤ depth →
    Steers ts (block depth) (Spells K [.rule .declarations, .kind .rightBrace]) fun _ => K

theorem guides_zero : Guides 0 := by
  have none {n : Nat} {l : Level} {P : Prop} (h : n + 13 ≤ 0 + 2 * l.tightness) : P := by
    have := l.tightness_le
    omega
  constructor <;> intros <;> first | omega | exact none ‹_›

namespace Guides

variable {depth : Nat} (d : Guides depth)
include d

/-- An expression that is no statement. -/
theorem inner {ts : List Token} {K : List Token → Prop} (hK : Fits .expression K nowhere)
    (hdepth : 32 * ts.length + 16 ≤ depth) :
    Steers ts (Parser.expression depth) (Spells K [.rule .expression]) fun _ => K :=
  (d.expression ts K nowhere hK hdepth).plain

theorem expression_succ (ts : List Token) (K K' : List Token → Prop) (hK : Fits .expression K K')
    (hdepth : 32 * ts.length + 16 ≤ depth + 1) :
    Steers ts (Parser.expression (depth + 1)) (Ahead .expression K K') (Behind K K') := by
  unfold Parser.expression
  refine .narrow (.of_iff fun _ => splits_expression.ahead) ?_
  refine (d.ternary ts _ _ (splits_expression.fits hK) (by omega)).step takes_ternary ?_
  refine fun target rest hlen => .peek (.ite (fun hsign => ?_) fun hsign => ?_)
  · have assigned := narrows_present (r := .assigned) rfl (hK.ends .equal rfl)
    refine .at_kind hsign ((splits_expression.goes_on hK rfl).trans assigned) ?_
    refine .take hsign rfl fun rest' hlen' => ?_
    refine (d.inner hK.plain (by omega)).seq fun value rest'' _ => ?_
    split
    · exact .freshSite fun _ => .pure fun _ => (behind_of_not (not_isNamed (by rintro _ ⟨⟩))).symm
    · exact .pure fun _ => (behind_of_not (not_isNamed (by rintro _ ⟨⟩))).symm
    · exact .throw (by rintro _ ⟨⟩)
  · exact .narrow (splits_expression.stops (decide_eq_false hsign)) (.pure fun _ => .rfl)

theorem ternary_succ (ts : List Token) (K K' : List Token → Prop) (hK : Fits .ternary K K')
    (hdepth : 32 * ts.length + 15 ≤ depth + 1) :
    Steers ts (Parser.ternary (depth + 1)) (Ahead .ternary K K') (Behind K K') := by
  unfold Parser.ternary
  refine .narrow (.of_iff fun _ => splits_ternary.ahead) ?_
  refine (d.operation .or ts _ _ (splits_ternary.fits hK) (by omega)).step takes_operation ?_
  refine fun condition rest hlen => .accept (fun hquestion => ?_) fun hquestion => ?_
  · have choice := narrows_present (r := .choice) rfl (hK.ends .question rfl)
    refine .at_kind hquestion ((splits_ternary.goes_on hK rfl).trans choice) ?_
    refine .take hquestion rfl fun rest' hlen' => ?_
    have branch {ts : List Token} {K : List Token → Prop} (hK : Fits .ternary K nowhere)
        (hdepth : 32 * ts.length + 15 ≤ depth) :
        Steers ts (Parser.ternary depth) (Spells K [.rule .ternary]) fun _ => K :=
      (d.ternary ts K nowhere hK hdepth).plain
    refine .first (branch (fits_kind hK.inhabited rfl) (by omega)) takes_ternary ?_
    refine fun yes _ _ => .expect hK.inhabited rfl fun _ _ _ => ?_
    exact (branch hK.plain (by omega)).map fun _ _ =>
      (behind_of_not (not_isNamed (by rintro _ ⟨⟩))).symm
  · exact .narrow (splits_ternary.stops (decide_eq_false hquestion)) (.pure fun _ => .rfl)

theorem operation_succ (level : Level) (ts : List Token) (K K' : List Token → Prop)
    (hK : Fits (.operation level) K K')
    (hdepth : 32 * ts.length + 14 ≤ depth + 1 + 2 * level.tightness) :
    Steers ts (Parser.operation level (depth + 1)) (Ahead (.operation level) K K')
      (Behind K K') := by
  unfold Parser.operation
  have hlevel := level.tightness_le
  refine .narrow (.of_iff fun _ => (splits_operation level).ahead) ?_
  refine (d.operand level ts _ _ ((splits_operation level).fits hK) (by omega)).step
    takes_operand fun left rest hlen => ?_
  exact d.operationRest level left rest K K' hK (by omega)

theorem operationRest_succ (level : Level) (left : Expr) (ts : List Token)
    (K K' : List Token → Prop) (hK : Fits (.operation level) K K')
    (hdepth : 32 * ts.length + 1 ≤ depth + 1) :
    Steers ts (Parser.operationRest level left (depth + 1))
      (Behind (Spells K [.rule (.operations level)]) K' left) (Behind K K') := by
  unfold Parser.operationRest
  have hsplits := splits_operation level
  refine .peek ?_
  split
  · next hnone =>
    refine .narrow (hsplits.stops ?_) (.pure fun _ => .rfl)
    rw [Rule.opens, hnone]
    rfl
  · next op hop =>
    have hopens : Rule.opens (.operations level) (frontToken ts).kind = true :=
      Option.isSome_iff_exists.2 ⟨op, hop⟩
    have operations := narrows_present (r := .operations level) rfl
      (hK.refuses (by rw [opens_trail hsplits, hopens, Bool.or_true]))
    refine .narrow ((hsplits.goes_on hK hopens).trans operations) ?_
    refine .advance hopens (by cases level <;> rfl) fun rest hlen => ?_
    refine .narrow (.of_iff fun _ => spells_cons) ?_
    refine (d.operand level rest _ nowhere (hsplits.fits hK.plain) (by omega)).plain.seq ?_
    intro right rest' hlen'
    -- what an operator joins is no longer a named function literal
    have hjoin : ¬(op.join (frontToken ts).line left right).IsNamed := by
      cases op <;> exact not_isNamed (by rintro _ ⟨⟩)
    exact (d.operationRest level _ rest' K K' hK (by omega)).narrow
      (.of_iff fun _ => (behind_of_not hjoin).symm)

theorem operand_succ (level : Level) (ts : List Token) (K K' : List Token → Prop)
    (hK : Fits (.operand level) K K')
    (hdepth : 32 * ts.length + 13 ≤ depth + 1 + 2 * level.tightness) :
    Steers ts (Parser.operand level (depth + 1)) (Ahead (.operand level) K K') (Behind K K') := by
  unfold Parser.operand
  split
  · next tighter htighter =>
    have := Level.tightness_tighter htighter
    exact .narrow (.of_iff fun _ => ahead_operand htighter)
      (d.operation tighter ts K K' (hK.congr (trail_operand htighter)) (by omega))
  · next hnone =>
    have := level.tightness_le
    exact .narrow (.of_iff fun _ => ahead_tightest hnone)
      (d.unary ts K K' (hK.congr (trail_tightest hnone)) (by omega))

theorem unary_succ (ts : List Token) (K K' : List Token → Prop) (hK : Fits .unary K K')
    (hdepth : 32 * ts.length + 2 ≤ depth + 1) :
    Steers ts (Parser.unary (depth + 1)) (Ahead .unary K K') (Behind K K') := by
  unfold Parser.unary
  refine .peek ?_
  split
  · next op hop =>
    have hsign : (UnaryOp.ofKind? (frontToken ts).kind).isSome = true :=
      Option.isSome_iff_exists.2 ⟨op, hop⟩
    have named : Refuses (Spells K' namedFunction) (frontToken ts).kind := by
      refine refuses_kind fun he => ?_
      rw [he] at hop
      cases hop
    refine .narrow ((Narrows.left named).trans (narrows_sign hsign)) ?_
    refine .advance hsign rfl fun rest hlen => ?_
    exact (d.unary rest K nowhere hK.plain (by omega)).plain.map fun e v =>
      (behind_of_not (not_isNamed (by rintro _ ⟨⟩))).symm
  · next hnone =>
    refine .ite (fun hfn => ?_) fun hfn => ?_
    · -- a name behind `fn` opens both a literal of an expression and one that stands alone
      have split : Narrows .fn (Ahead .unary K K') (Spells (fun v => Spells K [.rule .function] v ∨
          Spells (fun v => K v ∨ K' v) [.kind .identifier, .rule .function] v) [.kind .fn]) := by
        refine (narrows_fn.or (.of_iff fun _ => .rfl)).trans (.of_iff fun v => ?_)
        rw [spells_or, ← spells_cons, ← spells_cons, spells_or, ← or_assoc]
        rfl
      refine .at_kind hfn split (.take hfn rfl fun rest hlen => ?_)
      refine .narrow (.of_iff fun _ => spells_nil) (.peek ?_)
      refine .ite (fun htitle => ?_) fun htitle => ?_
      · refine .at_kind htitle (.right (refuses_of_not_nullable rfl rfl)) ?_
        refine .name (hK.inhabited.imp fun _ => .inl) fun title rest hlen => ?_
        refine (d.function _ _ rest _ (hK.inhabited.imp fun _ => .inl) (by omega)).bind
          ((descent true depth).function _ _ rest) ?_
        rintro _ _ _ - ⟨ps, body, rfl, -⟩
        have hnamed : (Expr.function (.mk (some title) ps body (frontToken ts).line)).IsNamed :=
          ⟨title, ps, body, _, rfl⟩
        exact .pure fun v => or_congr_right (and_iff_right hnamed).symm
      · refine .narrow (.left (refuses_kind htitle)) ?_
        refine (d.function _ _ rest _ hK.inhabited (by omega)).bind
          ((descent true depth).function _ _ rest) ?_
        rintro _ _ _ - ⟨ps, body, rfl, -⟩
        exact .pure fun v => (behind_of_not (by rintro ⟨_, _, _, _, h⟩; cases h)).symm
    · refine .narrow ((Narrows.left (refuses_kind hfn)).trans (narrows_call hnone hfn)) ?_
      refine .narrow (.of_iff fun v => (spells_only rfl).trans spells_cons) ?_
      refine (d.primary ts _ (exists_spells _ hK.inhabited) (by omega)).bind takes_primary ?_
      rintro callee us rest rfl ⟨hnot, hne⟩
      have hpos := List.length_pos_iff.2 hne
      rw [List.length_append] at hdepth
      exact d.callRest callee rest K K' hnot hK (by omega)

theorem callRest_succ (callee : Expr) (ts : List Token) (K K' : List Token → Prop)
    (hcallee : ¬callee.IsNamed) (hK : Fits .unary K K') (hdepth : 32 * ts.length + 1 ≤ depth + 1) :
    Steers ts (Parser.callRest callee (depth + 1)) (Spells K [.rule .suffixes]) (Behind K K') := by
  unfold Parser.callRest
  refine .peek ?_
  split
  · next hleft =>
    have call : Narrows .leftParen (Spells K [.rule .suffixes])
        (Spells K [.kind .leftParen, .rule .arguments, .kind .rightParen, .rule .suffixes]) :=
      narrows_rule (by decide) (by decide) fun _ => .inr (hK.ends .leftParen rfl)
    refine .at_kind hleft call (.take hleft rfl fun rest hlen => .peek ?_)
    have close (es : List Expr) {ts : List Token} (hdepth : 32 * ts.length + 1 ≤ depth) :
        Steers ts (do
          let close ← expect .rightParen .argumentsClose
          Parser.callRest (.call callee close.line es) depth)
        (Spells K [.kind .rightParen, .rule .suffixes]) (Behind K K') :=
      .expect hK.inhabited rfl fun _ rest _ =>
        d.callRest _ rest K K' (not_isNamed (by rintro _ ⟨⟩)) hK (by omega)
    refine .ite (fun hright => ?_) fun hright => ?_
    · exact .at_kind hright (narrows_skip rfl rfl) (close [] (by omega))
    · exact .narrow (.first (narrows_present (r := .arguments) rfl (refuses_kind hright)))
        ((d.arguments _ rest K _ hK.inhabited (by omega)).seq fun es _ _ => close es (by omega))
  · next hdot =>
    have property : Narrows .dot (Spells K [.rule .suffixes])
        (Spells K [.kind .dot, .kind .identifier, .rule .suffixes]) :=
      narrows_rule (by decide) (by decide) fun _ => .inr (hK.ends .dot rfl)
    refine .at_kind hdot property (.take hdot rfl fun _ _ => ?_)
    refine .name hK.inhabited fun _ rest _ => ?_
    exact d.callRest _ rest K K' (not_isNamed (by rintro _ ⟨⟩)) hK (by omega)
  · next hleft hdot =>
    refine .narrow (narrows_skip_last rfl ?_) (.pure fun v => (behind_of_not hcallee).symm)
    rw [Rule.opens, decide_eq_false hleft, decide_eq_false hdot]
    rfl

theorem arguments_succ (room : Nat) (ts : List Token) (K : List Token → Prop) (f : Form)
    (hK : ∃ v, K v) (hdepth : 32 * ts.length + 17 ≤ depth + 1) :
    Steers ts (Parser.arguments room (depth + 1))
      (Spells K (.rule .expression :: .rule .moreArguments :: .kind .rightParen :: f))
      fun _ => Spells K (.kind .rightParen :: f) := by
  unfold Parser.arguments
  split
  · exact .limit (by rintro _ ⟨⟩)
  · next room =>
    have hfits : Fits .expression (Spells K (.rule .moreArguments :: .kind .rightParen :: f))
        nowhere :=
      fits_form hK rfl fun k h => by cases k <;> first | rfl | cases h
    refine .first (d.inner hfits (by omega)) takes_expression fun e rest _ => ?_
    refine .accept (fun hcomma => ?_) fun hcomma => ?_
    · refine .at_kind hcomma
        (.first (narrows_present (r := .moreArguments) rfl (refuses_of_not_nullable rfl rfl))) ?_
      refine .take hcomma rfl fun rest _ => ?_
      exact (d.arguments room rest K f hK (by omega)).map fun _ _ => .rfl
    · exact .narrow (narrows_skip rfl (decide_eq_false hcomma)) (.pure fun _ => .rfl)

theorem primary_succ (ts : List Token) (K : List Token → Prop) (hK : ∃ v, K v)
    (hdepth : 32 * ts.length + 1 ≤ depth + 1) :
    Steers ts (Parser.primary (depth + 1)) (Spells K [.rule .primary]) fun _ => K := by
  unfold Parser.primary
  have constant {v : Literal} {k : TokenKind} (hk : (frontToken ts).kind = k)
      (hv : k.constant? = some v) :
      Steers ts (do advance; return Expr.literal v) (Spells K [.rule .primary]) fun _ => K := by
    refine .production hk (f := [.token .constant]) (by decide) ?_ rfl ?_
    · cases k <;> cases hv <;>
        simp [productions, Form.opens, Symbol.opens, Symbol.nullable, Terminal.accepts]
    · exact .advance (by rw [hk]; exact Option.isSome_iff_exists.2 ⟨v, hv⟩) rfl fun _ _ =>
        .pure fun _ => spells_nil
  refine .peek ?_
  split
  · next hk => exact constant hk rfl
  · next hk => exact constant hk rfl
  · next hk => exact constant hk rfl
  · next hk => exact constant hk rfl
  · next hk => exact constant hk rfl
  · next hk =>
    exact .production hk (f := [.kind .this]) (by decide) (by decide) rfl (.take hk rfl fun _ _ =>
      .freshSite fun _ => .pure fun _ => spells_nil)
  · next hk =>
    exact .production hk (f := [.kind .identifier]) (by decide) (by decide) rfl
      (.take hk rfl fun _ _ => .freshSite fun _ => .pure fun _ => spells_nil)
  · next hk =>
    refine .production hk (f := [.kind .leftParen, .rule .expression, .kind .rightParen])
      (by decide) (by decide) rfl (.take hk rfl fun rest _ => ?_)
    refine .first (d.inner (fits_kind hK rfl) (by omega)) takes_expression fun inner _ _ => ?_
    exact .expect hK rfl fun _ _ _ => .pure fun _ => spells_nil
  · refine .fault (exists_spells _ hK) (refuses_of_not_nullable ?_ rfl)
    have : (frontToken ts).kind.opensCall = false := by
      cases hk : (frontToken ts).kind <;> simp_all [TokenKind.opensCall]
    simp [Form.opens, Symbol.opens, Symbol.nullable, Rule.opens, this]

theorem function_succ (title : Option Name) (line : Nat) (ts : List Token)
    (K : List Token → Prop) (hK : ∃ v, K v) (hdepth : 32 * ts.length + 1 ≤ depth + 1) :
    Steers ts (Parser.function title line (depth + 1)) (Spells K [.rule .function]) fun _ => K := by
  unfold Parser.function
  refine .narrow (.of_iff fun _ => spells_only rfl) (.expect hK rfl fun _ rest hlen => .peek ?_)
  have body (ps : List Name) {ts : List Token} (hdepth : 32 * ts.length + 19 ≤ depth) :
      Steers ts (do
        let _ ← expect .rightParen .parametersClose
        let _ ← expect .leftBrace .functionBody
        let body ← Parser.block depth
        return Function.mk title ps body line)
      (Spells K [.kind .rightParen, .kind .leftBrace, .rule .declarations, .kind .rightBrace])
      fun _ => K :=
    .expect hK rfl fun _ _ _ => .expect hK rfl fun _ rest _ =>
      (d.block rest K hK (by omega)).map fun _ _ => .rfl
  refine .ite (fun hright => ?_) fun hright => ?_
  · exact .at_kind hright (narrows_skip rfl rfl) (body [] (by omega))
  · exact .narrow (.first (narrows_present (r := .parameters) rfl (refuses_kind hright)))
      ((steers_parameters hK).seq fun ps _ _ => body ps (by omega))

theorem declaration_succ (ts : List Token) (K : List Token → Prop) (hK : Follows K)
    (hdepth : 32 * ts.length + 18 ≤ depth + 1) :
    Steers ts (Parser.declaration (depth + 1)) (Spells K [.rule .declaration]) fun _ => K := by
  unfold Parser.declaration
  refine .peek ?_
  split
  · next hkey =>
    refine .production hkey (f := [.kind .struct, .kind .identifier, .kind .leftBrace,
      .rule .methods, .kind .rightBrace]) (by decide) (by decide) rfl ?_
    refine .take hkey rfl fun _ _ => .name hK.inhabited fun _ _ _ =>
      .expect hK.inhabited rfl fun _ rest _ => ?_
    exact (d.methods rest K hK.inhabited (by omega)).map fun _ _ => .rfl
  · next hkey =>
    refine .production hkey (f := [.kind .let, .kind .identifier, .rule .assigned,
      .kind .semicolon]) (by decide) (by decide) rfl (.take hkey rfl fun rest _ => ?_)
    exact (d.variableRest rest K hK.inhabited (by omega)).map fun _ _ => .rfl
  · next hstruct hlet =>
    refine .narrow (narrows_production (f := [.rule .statement]) (by decide) ?_ rfl) ?_
    · simp [productions, Form.opens, Symbol.opens, Symbol.nullable, Terminal.accepts]
      exact ⟨hstruct, hlet⟩
    · exact d.statement ts K hK (by omega)

theorem methods_succ (ts : List Token) (K : List Token → Prop) (hK : ∃ v, K v)
    (hdepth : 32 * ts.length + 1 ≤ depth + 1) :
    Steers ts (Parser.methods (depth + 1)) (Spells K [.rule .methods, .kind .rightBrace])
      fun _ => K := by
  unfold Parser.methods
  refine .peek ?_
  split
  · next hbrace =>
    exact .at_kind hbrace (narrows_skip rfl rfl) (.take hbrace rfl fun _ _ =>
      .pure fun _ => spells_nil)
  · next hend => exact .fault (exists_spells _ hK) (hend ▸ refuses_of_not_nullable rfl rfl)
  · next hbrace _ =>
    have rest (title : Name) {ts : List Token} (hdepth : 32 * ts.length + 1 ≤ depth) :
        Steers ts (do
          let method ← Parser.function (some title) title.line depth
          return method :: (← Parser.methods depth))
        (Spells K [.rule .function, .rule .methods, .kind .rightBrace]) fun _ => K := by
      refine .first (d.function _ _ ts _ (exists_spells _ hK) hdepth) takes_function ?_
      exact fun _ rest _ => (d.methods rest K hK (by omega)).map fun _ _ => .rfl
    refine .accept (fun hkey => ?_) fun hkey => ?_
    · refine .at_kind hkey (.first (narrows_rule (f := [.kind .fn, .kind .identifier,
        .rule .function, .rule .methods]) (by decide) (by decide)
        fun _ => .inr (refuses_of_not_nullable rfl rfl))) ?_
      exact .take hkey rfl fun _ _ => .name hK fun title _ _ => rest title (by omega)
    · refine .narrow (.first (narrows_rule (f := [.kind .identifier,
        .rule .function, .rule .methods]) (by decide) ?_ fun _ => .inr (refuses_kind hbrace))) ?_
      · simp [productions, Form.opens, Symbol.opens, Symbol.nullable, Terminal.accepts, hkey]
      · exact .name hK fun title _ _ => rest title (by omega)

theorem variableRest_succ (ts : List Token) (K : List Token → Prop) (hK : ∃ v, K v)
    (hdepth : 32 * ts.length + 1 ≤ depth + 1) :
    Steers ts (Parser.variableRest (depth + 1))
      (Spells K [.kind .identifier, .rule .assigned, .kind .semicolon]) fun _ => K := by
  unfold Parser.variableRest
  refine .name hK fun title rest hlen => .accept (fun hsign => ?_) fun hsign => ?_
  · refine .at_kind hsign
      (.first (narrows_present (r := .assigned) rfl (refuses_of_not_nullable rfl rfl))) ?_
    refine .take hsign rfl fun rest _ => ?_
    refine .first (d.inner (fits_kind hK rfl) (by omega)) takes_expression fun _ _ _ => ?_
    exact .expect hK rfl fun _ _ _ => .pure fun _ => spells_nil
  · refine .narrow (narrows_skip rfl (decide_eq_false hsign)) ?_
    exact .expect hK rfl fun _ _ _ => .pure fun _ => spells_nil

theorem optional_succ (close : TokenKind) (what : Expected) (ts : List Token)
    (K : List Token → Prop) (hK : ∃ v, K v) (hclose : close.ends = true)
    (hdepth : 32 * ts.length + 17 ≤ depth + 1) :
    Steers ts (Parser.optional close what (depth + 1)) (Spells K [.rule .optional, .kind close])
      fun _ => K := by
  unfold Parser.optional
  have hne : Terminal.accepts (.kind close) .endOfFile = false := by
    cases close <;> first | rfl | cases hclose
  refine .accept (fun hk => ?_) fun hk => ?_
  · refine .at_kind hk (narrows_skip rfl ?_) (.take hk hne fun _ _ => .pure fun _ => spells_nil)
    cases close <;> first | rfl | cases hclose
  · refine .narrow (.first (narrows_present (r := .optional) rfl (refuses_kind hk))) ?_
    refine .first (d.inner (fits_kind hK ?_) (by omega)) takes_expression fun _ _ _ => ?_
    · cases close <;> first | rfl | cases hclose
    · exact .expect hK hne fun _ _ _ => .pure fun _ => spells_nil

theorem statement_succ (ts : List Token) (K : List Token → Prop) (hK : Follows K)
    (hdepth : 32 * ts.length + 17 ≤ depth + 1) :
    Steers ts (Parser.statement (depth + 1)) (Spells K [.rule .statement]) fun _ => K := by
  unfold Parser.statement
  have hsome := hK.inhabited
  refine .peek ?_
  split
  · next hkey =>
    refine .production hkey (f := [.kind .for, .kind .leftParen, .kind .let, .kind .identifier,
      .rule .assigned, .kind .semicolon, .rule .optional, .kind .semicolon, .rule .optional,
      .kind .rightParen, .rule .statement]) (by decide) (by decide) rfl ?_
    refine .take hkey rfl fun _ _ => .expect hsome rfl fun _ _ _ =>
      .expect hsome rfl fun _ rest _ => ?_
    refine .front (f := [.kind .identifier, .rule .assigned, .kind .semicolon])
      (d.variableRest rest _ (exists_spells _ hsome) (by omega)) fun _ rest _ => ?_
    refine .front (f := [.rule .optional, .kind .semicolon])
      (d.optional .semicolon _ rest _ (exists_spells _ hsome) rfl (by omega)) fun _ rest _ => ?_
    refine .front (f := [.rule .optional, .kind .rightParen])
      (d.optional .rightParen _ rest _ (exists_spells _ hsome) rfl (by omega)) fun _ rest _ => ?_
    exact (d.statement rest K hK (by omega)).map fun _ _ => .rfl
  · next hkey =>
    refine .production hkey (f := [.kind .if, .kind .leftParen, .rule .expression,
      .kind .rightParen, .rule .statement, .rule .alternative]) (by decide) (by decide) rfl ?_
    refine .take hkey rfl fun _ _ => .expect hsome rfl fun _ _ _ =>
      .first (d.inner (fits_kind hsome rfl) (by omega)) takes_expression fun _ _ _ =>
      .expect hsome rfl fun _ rest _ => ?_
    refine .first (d.statement rest _ (follows_alternative hK) (by omega)) takes_statement
      fun yes rest _ => .accept (fun hword => ?_) fun hword => ?_
    · refine .at_kind hword (narrows_else hK) (.take hword rfl fun rest _ => ?_)
      exact (d.statement rest K hK (by omega)).map fun _ _ => .rfl
    · exact .narrow (narrows_skip_last rfl (decide_eq_false hword)) (.pure fun _ => .rfl)
  · next hkey =>
    refine .production hkey (f := [.kind .while, .kind .leftParen, .rule .expression,
      .kind .rightParen, .rule .statement]) (by decide) (by decide) rfl ?_
    refine .take hkey rfl fun _ _ => .expect hsome rfl fun _ _ _ =>
      .first (d.inner (fits_kind hsome rfl) (by omega)) takes_expression fun _ _ _ =>
      .expect hsome rfl fun _ rest _ => ?_
    exact (d.statement rest K hK (by omega)).map fun _ _ => .rfl
  · next hkey =>
    refine .production hkey (f := [.kind .return, .rule .optional, .kind .semicolon]) (by decide)
      (by decide) rfl (.take hkey rfl fun rest _ => ?_)
    exact (d.optional .semicolon _ rest K hsome rfl (by omega)).map fun _ _ => .rfl
  · next hkey =>
    exact .production hkey (f := [.kind .break, .kind .semicolon]) (by decide) (by decide) rfl
      (.take hkey rfl fun _ _ => .expect hsome rfl fun _ _ _ => .pure fun _ => spells_nil)
  · next hkey =>
    exact .production hkey (f := [.kind .continue, .kind .semicolon]) (by decide) (by decide) rfl
      (.take hkey rfl fun _ _ => .expect hsome rfl fun _ _ _ => .pure fun _ => spells_nil)
  · next hkey =>
    refine .production hkey (f := [.kind .leftBrace, .rule .declarations, .kind .rightBrace])
      (by decide) (by decide) rfl (.take hkey rfl fun rest _ => ?_)
    exact (d.block rest K hsome (by omega)).map fun _ _ => .rfl
  · next hkey =>
    refine .production hkey (f := [.kind .print, .rule .expression, .kind .semicolon])
      (by decide) (by decide) rfl (.take hkey rfl fun _ _ => ?_)
    refine .first (d.inner (fits_kind hsome rfl) (by omega)) takes_expression fun _ _ _ => ?_
    exact .expect hsome rfl fun _ _ _ => .pure fun _ => spells_nil
  · next hfor hif hwhile hreturn hbreak hcontinue hbrace hprint =>
    refine .narrow (narrows_expression hfor hif hwhile hreturn hbreak hcontinue hbrace hprint) ?_
    refine (d.expression ts _ K (fits_expression hK) (by omega)).seq fun e rest _ => ?_
    split
    · next title ps body line =>
      -- the semicolon is left to the statement wherever it can be
      have hnamed : (Expr.function (.mk (some title) ps body line)).IsNamed := ⟨_, _, _, _, rfl⟩
      refine .accept (fun hsemicolon => ?_) fun hsemicolon => ?_
      · refine .at_kind hsemicolon (.left fun v hk hv => hK.semicolon v hk hv.2) ?_
        exact .take hsemicolon rfl fun _ _ => .pure fun _ => spells_nil
      · exact .narrow (.right (refuses_kind hsemicolon)) (.pure fun _ => and_iff_right hnamed)
    · next hnot =>
      refine .narrow (.of_iff fun _ => behind_of_not ?_) ?_
      · rintro ⟨title, ps, body, line, rfl⟩
        exact hnot title ps body line rfl
      · exact .expect hsome rfl fun _ _ _ => .pure fun _ => spells_nil

theorem block_succ (ts : List Token) (K : List Token → Prop) (hK : ∃ v, K v)
    (hdepth : 32 * ts.length + 19 ≤ depth + 1) :
    Steers ts (Parser.block (depth + 1)) (Spells K [.rule .declarations, .kind .rightBrace])
      fun _ => K := by
  unfold Parser.block
  refine .peek ?_
  split
  · next hbrace =>
    exact .at_kind hbrace (narrows_skip rfl rfl) (.take hbrace rfl fun _ _ =>
      .pure fun _ => spells_nil)
  · next hend => exact .fault (exists_spells _ hK) (hend ▸ refuses_of_not_nullable rfl rfl)
  · next hbrace _ =>
    refine .narrow (.first (narrows_present (r := .declarations) rfl (refuses_kind hbrace))) ?_
    refine .first (d.declaration ts _ (follows_block hK) (by omega)) takes_declaration ?_
    intro _ rest _
    exact (d.block rest K hK (by omega)).map fun _ _ => .rfl

theorem succ : Guides (depth + 1) where
  expression := d.expression_succ
  ternary := d.ternary_succ
  operation := d.operation_succ
  operationRest := d.operationRest_succ
  operand := d.operand_succ
  unary := d.unary_succ
  function := d.function_succ
  callRest := d.callRest_succ
  arguments := d.arguments_succ
  primary := d.primary_succ
  declaration := d.declaration_succ
  methods := d.methods_succ
  variableRest := d.variableRest_succ
  optional := d.optional_succ
  statement := d.statement_succ
  block := d.block_succ

end Guides

/-- **Every rule of the grammar is steered.** -/
theorem guides : ∀ depth, Guides depth
  | 0 => guides_zero
  | depth + 1 => (guides depth).succ

end Parser

/-! ## Whole programs -/

theorem follows_program : Follows Grammatical :=
  follows_declarations ⟨[], rfl⟩ (by rintro _ rfl; exact .inr rfl)

/-- A declaration is read where the program may go on. -/
theorem steers_program {depth : Nat} {ts : List Token} (hend : atEnd ts = false)
    (hdepth : 32 * ts.length + 18 ≤ depth) :
    Steers ts (Parser.declaration depth) Grammatical fun _ => Grammatical := by
  have hne : Refuses (· = []) (frontToken ts).kind := by
    rintro _ hk rfl
    rw [atEnd, ← hk] at hend
    cases hend
  refine .narrow (narrows_present (r := .declarations) rfl hne) ?_
  exact .narrow (.of_iff fun _ => spells_cons)
    ((Parser.guides depth).declaration ts _ follows_program hdepth)

/-- **An error among declarations** stands where the program could have gone on, but not with the
    token at hand. -/
theorem parseUpTo_led {depth : Nat} : ∀ (count : Nat) {c c' : Cursor} {ss : List Stmt} {e : Error},
    32 * c.rest.length + 18 ≤ depth → parseUpTo depth count c = ((ss, some e), c') →
    Led c.rest Grammatical (fun _ : Stmt => Grammatical) (.error e c') := by
  intro count
  induction count with
  | zero =>
    intro c c' ss e _ h
    cases h
  | succ count ih =>
    intro c c' ss e hdepth h
    unfold parseUpTo at h
    split at h
    · cases h
    · next hend =>
      have hled := steers_program (Bool.eq_false_iff.2 hend) hdepth c.nextSite
      split at h
      · next s c₁ hs =>
        rcases hrest : parseUpTo depth count c₁ with ⟨⟨ss', e'⟩, c₂⟩
        rw [hrest] at h
        cases h
        obtain ⟨us, hus, hnarrows⟩ : Led _ _ _ (.ok s c₁) := hs ▸ hled
        rw [hus] at hdepth ⊢
        rw [List.length_append] at hdepth
        exact .extend us hnarrows (ih (by omega) hrest)
      · next e' c₁ hs =>
        cases h
        exact hs ▸ hled

/-- The tokens that a parse has left; an error stands at the first of them. -/
def unread (site : Nat) (ts : List Token) : List Token :=
  (parseUpTo (Parser.depthBound ts) ts.length ⟨ts, site⟩).2.rest

/-- Where a parse stops, a program could have gone on, but not with the token at hand. -/
theorem parse_stops {site site' : Nat} {ts : List Token} {e : Error}
    (h : parse site ts = (.error e, site')) :
    e.IsLimit ∨ ∃ us what, ts = us ++ unread site ts ∧
      e = (frontToken (unread site ts)).fault (.expected what) ∧ (∃ v, Grammatical (us ++ v)) ∧
      Refuses (Grammatical <| us ++ ·) (frontToken (unread site ts)).kind := by
  unfold parse parsePartial at h
  unfold unread
  rcases hrun : parseUpTo (Parser.depthBound ts) ts.length ⟨ts, site⟩ with ⟨⟨ss, e'⟩, c⟩
  rw [hrun] at h
  cases e' with
  | none => cases h
  | some e' =>
    cases h
    have hdepth : 32 * ts.length + 18 ≤ Parser.depthBound ts := by
      rw [Parser.depthBound]
      omega
    exact parseUpTo_led _ (c := ⟨ts, site⟩) hdepth hrun

theorem Grammatical.no_end {ts : List Token} (h : Grammatical ts) :
    ∀ t ∈ ts, t.kind ≠ .endOfFile :=
  Spells.no_end (by rintro _ rfl; exact List.forall_mem_nil _) h rfl

/-- What the start of a program has taken of a list with its end of file is no more than what
    stands before the end. -/
theorem Grammatical.before_end {ts us rest v : List Token} {eof : Token}
    (heof : eof.kind = .endOfFile) (h : Grammatical (us ++ v)) (hus : ts ++ [eof] = us ++ rest) :
    ∃ vs, ts = us ++ vs ∧ rest = vs ++ [eof] := by
  rcases List.append_eq_append_iff.1 hus with ⟨vs, rfl, hvs⟩ | ⟨vs, rfl, hvs⟩
  · cases vs with
    | nil => exact ⟨[], by simp, hvs.symm⟩
    | cons t vs =>
      obtain ⟨rfl, -⟩ := List.cons.inj hvs
      have hend := h.no_end
      exact absurd heof (hend eof (by simp))
  · exact ⟨vs, rfl, hvs⟩

/-- **The table goes beyond the language no further than to its limits**: what it spells is derived,
    or the parser stops at the target of an assignment or at a number of parameters or arguments. -/
theorem Grammatical.derives_or_limit {ts : List Token} {eof : Token} (site : Nat)
    (heof : eof.kind = .endOfFile) (h : Grammatical ts) :
    (∃ ss, Derives true (.declarations ss) ts) ∨
      ∃ e site', parse site (ts ++ [eof]) = (.error e, site') ∧ e.IsLimit := by
  have hts := h.no_end
  rcases hparse : parse site (ts ++ [eof]) with ⟨e | ss, site'⟩
  · refine .inr ⟨e, site', rfl, ?_⟩
    rcases parse_stops hparse with hlimit | ⟨us, what, hus, -, ⟨v, hv⟩, hrefuses⟩
    · exact hlimit
    · obtain ⟨vs, rfl, hrest⟩ := Grammatical.before_end heof hv hus
      refine absurd h (hrefuses vs ?_)
      rw [hrest]
      cases vs with
      | nil => exact heof.symm
      | cons t vs => rfl
  · exact .inl ⟨ss, parse_derives hts heof hparse true⟩

/-- **A syntax error stands at the first offending token**, if it is not about the target of an
    assignment or the number of parameters or arguments: the tokens before it are the start of a
    program, and with it they are not.  At the end of the file, all the tokens are no program. -/
theorem syntax_error_at_first_offending {site site' : Nat} {ts : List Token} {eof : Token}
    {e : Error} (hts : ∀ t ∈ ts, t.kind ≠ .endOfFile) (heof : eof.kind = .endOfFile)
    (h : parse site (ts ++ [eof]) = (.error e, site'))
    (hlimit : ∀ line lexeme fault, e = .grammar line lexeme fault →
      fault ≠ .invalidTarget ∧ fault ≠ .tooManyParameters ∧ fault ≠ .tooManyArguments) :
    ∃ k t what, unread site (ts ++ [eof]) = (ts ++ [eof]).drop k ∧
      (ts ++ [eof])[k]? = some t ∧ e = t.fault (.expected what) ∧
      (∃ v, Grammatical (ts.take k ++ v)) ∧
      (k < ts.length → ∀ v, ¬Grammatical (ts.take (k + 1) ++ v)) ∧
      (k = ts.length → ¬Grammatical ts) := by
  rcases parse_stops h with ⟨t, f, rfl, hf⟩ | ⟨us, what, hus, he, ⟨v, hv⟩, hrefuses⟩
  · obtain ⟨htarget, hparameters, harguments⟩ := hlimit _ _ f rfl
    cases f with
    | expected what => exact absurd rfl (hf what)
    | invalidTarget => exact absurd rfl htarget
    | tooManyParameters => exact absurd rfl hparameters
    | tooManyArguments => exact absurd rfl harguments
  · obtain ⟨vs, rfl, hrest⟩ := Grammatical.before_end heof hv hus
    rw [hrest] at he hrefuses
    refine ⟨us.length, frontToken (vs ++ [eof]), what, ?_, ?_, he, ⟨v, by simpa⟩, ?_, ?_⟩
    · rw [hrest, List.append_assoc, List.drop_left]
    · cases vs <;> simp [frontToken]
    · intro hk v hv
      cases vs with
      | nil => simp at hk
      | cons t vs =>
        rw [List.take_append, List.take_of_length_le (Nat.le_succ _)] at hv
        exact hrefuses (t :: v) rfl (by simpa using hv)
    · intro hk
      obtain rfl : vs = [] := by simpa using hk
      exact fun h => hrefuses [] heof.symm h

/-- The tokens of `let x = ;`. -/
def missingValue : List Token :=
  [⟨.let, "let", 1⟩, ⟨.identifier, "x", 1⟩, ⟨.equal, "=", 1⟩, ⟨.semicolon, ";", 1⟩]

/-- The end of a file of one line. -/
def lineEnd : Token := ⟨.endOfFile, "", 1⟩

theorem syntax_error_at_missingValue :
    ((∀ t ∈ missingValue, t.kind ≠ .endOfFile) ∧
      lineEnd.kind = .endOfFile ∧
      parse 0 (missingValue ++ [lineEnd]) =
        (.error (.grammar 1 (some ";") (.expected .expression)), 0) ∧
      ∀ line lexeme fault, Error.grammar 1 (some ";") (.expected .expression) =
        .grammar line lexeme fault →
        fault ≠ .invalidTarget ∧ fault ≠ .tooManyParameters ∧ fault ≠ .tooManyArguments) ∧
    ∃ k t what, unread 0 (missingValue ++ [lineEnd]) =
        (missingValue ++ [lineEnd]).drop k ∧
      (missingValue ++ [lineEnd])[k]? = some t ∧
      Error.grammar 1 (some ";") (.expected .expression) = t.fault (.expected what) ∧
      (∃ v, Grammatical (missingValue.take k ++ v)) ∧
      (k < missingValue.length → ∀ v, ¬Grammatical (missingValue.take (k + 1) ++ v)) ∧
      (k = missingValue.length → ¬Grammatical missingValue) := by
  have hts : ∀ t ∈ missingValue, t.kind ≠ .endOfFile := by decide
  have hparse : parse 0 (missingValue ++ [lineEnd]) =
      (.error (.grammar 1 (some ";") (.expected .expression)), 0) := by rfl
  have hlimit : ∀ line lexeme fault, Error.grammar 1 (some ";") (.expected .expression) =
      .grammar line lexeme fault →
      fault ≠ .invalidTarget ∧ fault ≠ .tooManyParameters ∧ fault ≠ .tooManyArguments := by
    rintro _ _ _ ⟨⟩
    decide
  exact ⟨⟨hts, rfl, hparse, hlimit⟩, syntax_error_at_first_offending hts rfl hparse hlimit⟩

/-- It stands at the semicolon. -/
example : (unread 0 (missingValue ++ [lineEnd])).length = 2 := by rfl

end Scriptling
