/-
  Trails — what can stand behind an expression.

  A statement that starts with a named function literal may end with it, or go on with an operator.
  So the continuations behind an expression come in two parts: those of any expression, and those
  of one that is just a named function literal.

  * `Rule.trail`: what goes on after the first operand of an expression;
  * `Ahead`, `Behind`: the continuations before and after an expression;
  * `Fits`: the next token tells whether the expression goes on;
  * `Rule.Splits`: a rule of expressions that goes on after another one;
  * `Follows`: the same for what can stand behind a statement.
-/
import Scriptling.Proofs.Steering

namespace Scriptling

/-! ## Trails -/

/-- The levels from the tightest to the loosest. -/
def Level.all : List Level := [.product, .sum, .comparison, .equality, .and, .or]

/-- What can follow the first unary expression of a rule. -/
def Rule.trail : Rule → Form
  | operand level => (Level.all.filter (level.tightness < ·.tightness)).map (.rule <| .operations ·)
  | operation level =>
    (Level.all.filter (level.tightness ≤ ·.tightness)).map (.rule <| .operations ·)
  | ternary => Level.all.map (.rule <| .operations ·) ++ [.rule .choice]
  | expression => Level.all.map (.rule <| .operations ·) ++ [.rule .choice, .rule .assigned]
  | _ => []

theorem nullable_trail (r : Rule) : Form.nullable r.trail = true := by
  cases r with
  | operand level | operation level => cases level <;> rfl
  | _ => rfl

/-- A rule of expressions: another one, and what can go on after it. -/
structure Rule.Splits (r r' s : Rule) : Prop where
  production : productions r = [[.rule r', .rule s]]
  trail : r.trail = r'.trail ++ [.rule s]
  nullable : s.nullable = true
  /-- What goes on is told by the next token. -/
  apart : ∀ k, s.opens k = true → Form.opens (.rule .suffixes :: r'.trail) k = false

theorem splits_expression : Rule.Splits .expression .ternary .assigned where
  production := rfl
  trail := rfl
  nullable := rfl
  apart k h := by
    cases of_decide_eq_true h
    rfl

theorem splits_ternary : Rule.Splits .ternary (.operation .or) .choice where
  production := rfl
  trail := rfl
  nullable := rfl
  apart k h := by
    cases of_decide_eq_true h
    rfl

theorem splits_operation (level : Level) :
    Rule.Splits (.operation level) (.operand level) (.operations level) where
  production := rfl
  trail := by cases level <;> rfl
  nullable := rfl
  apart k h := by cases level <;> cases k <;> first | rfl | cases h

/-! ## Before and after an expression -/

/-- The continuations before an expression, with `K'` those of a named function literal alone. -/
def Ahead (r : Rule) (K K' : List Token → Prop) (v : List Token) : Prop :=
  Spells K [.rule r] v ∨ Spells K' namedFunction v

/-- The continuations after an expression. -/
def Behind (K K' : List Token → Prop) (e : Expr) (v : List Token) : Prop := K v ∨ e.IsNamed ∧ K' v

theorem not_isNamed {e : Expr} (h : ∀ f, e ≠ .function f) : ¬e.IsNamed :=
  fun ⟨_, _, _, _, he⟩ => h _ he

/-- No continuation. -/
abbrev nowhere : List Token → Prop := fun _ => False

/-- The next token tells whether an expression goes on. -/
structure Fits (r : Rule) (K K' : List Token → Prop) : Prop where
  inhabited : ∃ v, K v
  ends : ∀ k, Form.opens (.rule .suffixes :: r.trail) k = true → Refuses K k
  /-- Where a named function literal may end or go on, it goes on. -/
  carries : ∀ v, K' v → Form.opens r.trail (frontToken v).kind = true → Spells K r.trail v

section
variable {r r' s : Rule} {K K' : List Token → Prop} {e : Expr} {k : TokenKind} {v : List Token}

theorem spells_nowhere {f : Form} : ¬ Spells nowhere f v := by
  intro h
  induction h with
  | done h => exact h
  | token _ _ ih | rule _ _ ih => exact ih

theorem ahead_nowhere : Ahead r K nowhere v ↔ Spells K [.rule r] v := or_iff_left spells_nowhere

theorem behind_nowhere : Behind K nowhere e v ↔ K v := or_iff_left And.right

/-- An expression is steered alike where a named function literal has no continuations of its
    own. -/
theorem Steers.plain {ts : List Token} {p : Parser Expr}
    (hp : Steers ts p (Ahead r K nowhere) (Behind K nowhere)) :
    Steers ts p (Spells K [.rule r]) fun _ => K :=
  .narrow (.of_iff fun _ => ahead_nowhere.symm) (hp.imp fun _ _ => behind_nowhere)

theorem behind_of_not (he : ¬ e.IsNamed) : Behind K K' e v ↔ K v :=
  or_iff_left fun h => he h.1

theorem Fits.plain (h : Fits r K K') : Fits r K nowhere := 
  ⟨h.inhabited, h.ends, fun _ => False.elim⟩

/-- An expression is fit to stand before what it does not go on with. -/
theorem fits_form {f : Form} (hK : ∃ v, K v) (hf : Form.nullable f = false)
    (hopens : ∀ k, Form.opens (.rule .suffixes :: r.trail) k = true → Form.opens f k = false) :
    Fits r (Spells K f) nowhere where
  inhabited := exists_spells _ hK
  ends k hk := refuses_of_not_nullable (hopens k hk) hf
  carries _ := False.elim

theorem fits_kind {f : Form} (hK : ∃ v, K v)
    (hk : Form.opens (.rule .suffixes :: r.trail) k = false) :
    Fits r (Spells K (.kind k :: f)) nowhere := by
  refine fits_form hK rfl fun k' hk' => ?_
  have hne : k' ≠ k := by
    rintro rfl
    rw [hk] at hk'
    cases hk'
  simp [Form.opens, Symbol.opens, Symbol.nullable, Terminal.accepts, hne]

theorem Fits.refuses (h : Fits r K K') (hk : Form.opens r.trail k = true) : Refuses K k :=
  h.ends k (by rw [Form.opens, hk]; exact Bool.or_true _)

theorem opens_trail (h : r.Splits r' s) :
    Form.opens r.trail k = (Form.opens r'.trail k || s.opens k) := by
  rw [h.trail, Form.opens_append, nullable_trail]
  simp [Form.opens, Symbol.opens]

namespace Rule.Splits

theorem ahead (h : r.Splits r' s) : Ahead r K K' v ↔ Ahead r' (Spells K [.rule s]) K' v := by
  rw [Ahead, spells_only h.production, spells_cons]
  rfl

theorem fits (h : r.Splits r' s) (hK : Fits r K K') : Fits r' (Spells K [.rule s]) K' where
  inhabited := exists_spells _ hK.inhabited
  ends k hk := by
    refine refuses_spells ?_ fun _ => hK.ends k ?_
    · cases hs : s.opens k with
      | false => simp [Form.opens, Symbol.opens, hs]
      | true =>
        rw [h.apart k hs] at hk
        cases hk
    · rw [Form.opens, opens_trail h, Bool.and_or_distrib_left, ← Bool.or_assoc]
      exact Bool.or_eq_true_iff.2 (.inl hk)
  carries v hv hk := by
    have := hK.carries v hv (by rw [opens_trail h, hk, Bool.true_or])
    rwa [h.trail, spells_append] at this

/-- At a token that goes on after the inner rule. -/
theorem goes_on (h : r.Splits r' s) (hK : Fits r K K') (hk : s.opens k = true) :
    Narrows k (Behind (Spells K [.rule s]) K' e) (Spells K [.rule s]) := by
  refine ⟨fun v => .inl, ?_⟩
  rintro v rfl (hv | ⟨-, hv⟩)
  · exact hv
  have hv := hK.carries v hv (by rw [opens_trail h, hk, Bool.or_true])
  rw [h.trail, spells_append] at hv
  -- the inner rule does not go on with this token
  have hr' : Form.opens r'.trail _ = false := (Bool.or_eq_false_iff.1 (h.apart _ hk)).2
  rcases hv.front with ho | ⟨-, hv⟩
  · rw [hr'] at ho
    cases ho
  · exact hv

/-- At a token that does not. -/
theorem stops (h : r.Splits r' s) (hk : s.opens k = false) :
    Narrows k (Behind (Spells K [.rule s]) K' e) (Behind K K' e) :=
  (narrows_skip_last h.nullable hk).or (.of_iff fun _ => .rfl)

end Rule.Splits

theorem Fits.congr (h : Fits r K K') (hr : r.trail = r'.trail) : Fits r' K K' :=
  ⟨h.inhabited, hr ▸ h.ends, hr ▸ h.carries⟩

theorem trail_operand {level tighter : Level} (h : level.tighter? = some tighter) :
    Rule.trail (.operand level) = Rule.trail (.operation tighter) := by
  cases level <;> cases h <;> rfl

theorem trail_tightest {level : Level} (h : level.tighter? = none) :
    Rule.trail (.operand level) = Rule.trail .unary := by
  cases level <;> cases h
  rfl

theorem ahead_operand {level tighter : Level} (h : level.tighter? = some tighter) :
    Ahead (.operand level) K K' v ↔ Ahead (.operation tighter) K K' v := by
  rw [Ahead, spells_only (productions_operand h)]
  rfl

theorem ahead_tightest {level : Level} (h : level.tighter? = none) :
    Ahead (.operand level) K K' v ↔ Ahead .unary K K' v := by
  rw [Ahead, spells_only (r := .operand level) (by rw [productions, h])]
  rfl

end

/-! ## After a sign -/

/-- A rule of expressions is a unary expression with what follows it. -/
def Rule.Headed (r : Rule) : Prop :=
  ∀ K v, Spells K [.rule r] v ↔ Spells K (.rule .unary :: r.trail) v

theorem Rule.Splits.headed {r r' s : Rule} (h : r.Splits r' s) (hr' : r'.Headed) : r.Headed := by
  intro K v
  rw [spells_only h.production, spells_cons, hr', ← spells_append, h.trail]
  rfl

theorem headed_operand : ∀ level : Level, (Rule.operand level).Headed := by
  refine Level.loosen (fun K v => spells_only rfl) fun htighter h K v => ?_
  rw [spells_only (productions_operand htighter), (splits_operation _).headed h,
    trail_operand htighter]

theorem headed_expression : Rule.Headed .expression :=
  splits_expression.headed (splits_ternary.headed ((splits_operation .or).headed
    (headed_operand .or)))

/-- At a sign, a unary expression is one with that sign. -/
theorem narrows_sign {K : List Token → Prop} {k : TokenKind}
    (hk : (UnaryOp.ofKind? k).isSome = true) :
    Narrows k (Spells K [.rule .unary]) (Spells K [.token .sign, .rule .unary]) :=
  narrows_production (.head _) (by cases k <;> first | (cases hk; done) | decide) rfl

/-- Only a sign or `fn` starts a unary expression that is no call. -/
theorem narrows_call {K : List Token → Prop} {k : TokenKind} (hsign : UnaryOp.ofKind? k = none)
    (hfn : k ≠ .fn) : Narrows k (Spells K [.rule .unary]) (Spells K [.rule .call]) := by
  refine narrows_production (by decide) ?_ rfl
  simp [productions, Form.opens, Symbol.opens, Symbol.nullable, Terminal.accepts, hsign, hfn]

theorem narrows_fn {K : List Token → Prop} : Narrows .fn (Spells K [.rule .unary])
    fun v => Spells K [.kind .fn, .rule .function] v ∨ Spells K namedFunction v := by
  refine ⟨fun v h => spells_rule.2 ?_, fun v hk h => ?_⟩
  · exact h.elim (fun h => ⟨_, .tail _ (.head _), h⟩) fun h => ⟨_, .tail _ (.tail _ (.head _)), h⟩
  · obtain ⟨f, hf, h⟩ := spells_rule.1 h
    simp only [productions, List.mem_cons, List.not_mem_nil, or_false] at hf
    rcases hf with rfl | rfl | rfl | rfl
    · exact absurd h (refuses_of_not_nullable rfl rfl v hk)
    · exact .inl h
    · exact .inr h
    · exact absurd h (refuses_of_not_nullable rfl rfl v hk)

/-- An expression that starts with a sign can be read as the rest of a sum. -/
theorem spells_trail_of_sign {K : List Token → Prop} {v : List Token}
    (h : Spells K [.rule .expression] v)
    (hsign : (UnaryOp.ofKind? (frontToken v).kind).isSome = true)
    (hsum : (Level.sum.operator? (frontToken v).kind).isSome = true) :
    Spells K (Rule.trail .expression) v := by
  have h := spells_cons.1 ((headed_expression K v).1 h)
  obtain ⟨t, w, rfl, -, hw⟩ := spells_token.1 ((narrows_sign hsign).2 v rfl h)
  refine spells_skip rfl (.rule (.tail _ (.head _)) (.token hsum ?_))
  -- the operand of the sign is that of the sum
  refine spells_cons.2 ((headed_operand .sum _ _).2 (spells_append.1 ?_))
  exact spells_cons.2 hw

/-! ## Behind a statement -/

/-- The next token tells whether a statement goes on. -/
structure Follows (K : List Token → Prop) : Prop where
  inhabited : ∃ v, K v
  /-- A semicolon belongs to the statement. -/
  semicolon : Refuses K .semicolon
  /-- An `else` can belong to the statement. -/
  alternative : ∀ v, K v → (frontToken v).kind = .else → Spells K [.kind .else, .rule .statement] v
  /-- An operator can belong to the statement. -/
  carries : ∀ v, K v → Form.opens (Rule.trail .expression) (frontToken v).kind = true →
    Spells (Spells K [.kind .semicolon]) (Rule.trail .expression) v

section
variable {K : List Token → Prop}

theorem fits_expression (hK : Follows K) : Fits .expression (Spells K [.kind .semicolon]) K :=
  { fits_kind hK.inhabited rfl with carries := hK.carries }

/-- At an `else`, the nearest `if` takes it. -/
theorem narrows_else (hK : Follows K) :
    Narrows .else (Spells K [.rule .alternative]) (Spells K [.kind .else, .rule .statement]) := by
  refine ⟨fun v h => .rule (.tail _ (.head _)) h, fun v hk h => ?_⟩
  obtain ⟨f, hf, h⟩ := spells_rule.1 h
  simp only [productions, List.mem_cons, List.not_mem_nil, or_false] at hf
  rcases hf with rfl | rfl
  · exact hK.alternative v (spells_nil.1 h) hk
  · exact h

theorem follows_alternative (hK : Follows K) : Follows (Spells K [.rule .alternative]) := by
  have later (v : List Token) (hv : K v) : Spells K [.rule .alternative] v :=
    spells_skip rfl (.done hv)
  constructor
  case inhabited => exact exists_spells _ hK.inhabited
  case semicolon => exact refuses_spells rfl fun _ => hK.semicolon
  case alternative =>
    intro v hv hk
    exact ((narrows_else hK).2 v hk hv).mono later
  case carries =>
    intro v hv hk
    have hne : Rule.opens .alternative (frontToken v).kind = false := by
      refine decide_eq_false fun he => ?_
      rw [he] at hk
      cases hk
    have hv : K v := (narrows_skip_last rfl hne).2 v rfl hv
    exact (hK.carries v hv hk).mono fun _ h => h.mono later

/-- Only a sign can both go on with an expression and start a declaration. -/
theorem sign_of_opens {k : TokenKind} (htrail : Form.opens (Rule.trail .expression) k = true)
    (hdeclaration : k.opensDeclaration = true) : k = .plus ∨ k = .minus := by
  cases k <;> first
    | exact .inl rfl
    | exact .inr rfl
    | (cases hdeclaration; done)
    | cases htrail

/-- A declaration that starts with a sign is an expression. -/
theorem narrows_signed {k : TokenKind} (hk : k = .plus ∨ k = .minus) :
    Narrows k (Spells K [.rule .declaration])
      (Spells K [.rule .expression, .kind .semicolon]) := by
  have statement : Narrows k (Spells K [.rule .declaration]) (Spells K [.rule .statement]) :=
    narrows_production (by decide) (by rcases hk with rfl | rfl <;> decide) rfl
  exact statement.trans
    (narrows_production (by decide) (by rcases hk with rfl | rfl <;> decide) rfl)

/-- What stands behind a declaration in a block or a program. -/
theorem follows_declarations (hK : ∃ v, K v)
    (hclose : ∀ v, K v → (frontToken v).kind = .rightBrace ∨ (frontToken v).kind = .endOfFile) :
    Follows (Spells K [.rule .declarations]) := by
  have closed {k : TokenKind} (hbrace : k ≠ .rightBrace) (hend : k ≠ .endOfFile) : Refuses K k := by
    rintro v rfl hv
    exact (hclose v hv).elim hbrace hend
  constructor
  case inhabited => exact exists_spells _ hK
  case semicolon => exact refuses_spells rfl fun _ => closed (by decide) (by decide)
  case alternative =>
    intro v hv hk
    have : Refuses (Spells K [.rule .declarations]) .else :=
      refuses_spells rfl fun _ => closed (by decide) (by decide)
    exact absurd hv (this v hk)
  case carries =>
    intro v hv hk
    have hdeclaration : (frontToken v).kind.opensDeclaration = true := by
      rcases hv.front with ho | ⟨-, hv⟩
      · simpa [Form.opens, Symbol.opens, Rule.opens] using ho
      · rcases hclose v hv with he | he <;> rw [he] at hk <;> cases hk
    have hsign := sign_of_opens hk hdeclaration
    have refused : Refuses K (frontToken v).kind := by
      rcases hsign with h | h <;> rw [h] <;> exact closed (by decide) (by decide)
    have hv := (narrows_present (r := .declarations) rfl refused).2 v rfl hv
    have hv := (narrows_signed hsign).2 v rfl (spells_cons.1 hv)
    refine spells_trail_of_sign (spells_cons.1 hv) ?_ ?_ <;>
      rcases hsign with h | h <;> rw [h] <;> rfl

/-- What stands behind a declaration in a block. -/
theorem follows_block (hK : ∃ v, K v) :
    Follows (Spells K [.rule .declarations, .kind .rightBrace]) := by
  have split : Spells K [.rule .declarations, .kind .rightBrace] =
      Spells (Spells K [.kind .rightBrace]) [.rule .declarations] :=
    funext fun _ => propext spells_cons
  rw [split]
  refine follows_declarations (exists_spells _ hK) fun v hv => ?_
  obtain ⟨t, w, rfl, ht, -⟩ := spells_token.1 hv
  exact .inl (of_decide_eq_true ht)

/-- A statement without a keyword is an expression, or just a named function literal. -/
theorem narrows_expression {k : TokenKind} (hfor : k ≠ .for) (hif : k ≠ .if) (hwhile : k ≠ .while)
    (hreturn : k ≠ .return) (hbreak : k ≠ .break) (hcontinue : k ≠ .continue)
    (hbrace : k ≠ .leftBrace) (hprint : k ≠ .print) :
    Narrows k (Spells K [.rule .statement])
      (Ahead .expression (Spells K [.kind .semicolon]) K) := by
  refine ⟨fun v h => spells_rule.2 ?_, fun v hk h => ?_⟩
  · exact h.elim (fun h => ⟨_, .head _, spells_cons.2 h⟩) fun h => ⟨_, .tail _ (.head _), h⟩
  · obtain ⟨f, hf, h⟩ := spells_rule.1 h
    simp only [productions, List.mem_cons, List.not_mem_nil, or_false] at hf
    rcases hf with rfl | rfl | rfl | rfl | rfl | rfl | rfl | rfl | rfl | rfl
    · exact .inl (spells_cons.1 h)
    · exact .inr h
    · exact absurd h (refuses_kind hfor v hk)
    · exact absurd h (refuses_kind hwhile v hk)
    · exact absurd h (refuses_kind hif v hk)
    · exact absurd h (refuses_kind hprint v hk)
    · exact absurd h (refuses_kind hreturn v hk)
    · exact absurd h (refuses_kind hbreak v hk)
    · exact absurd h (refuses_kind hcontinue v hk)
    · exact absurd h (refuses_kind hbrace v hk)

end

end Scriptling
