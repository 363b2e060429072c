/-
  Forms — the grammar without its trees, as a table.

  The table has the productions of the language, but for two things: whatever can stand between
  `?` and `:` can stand on the left of `=`, and parameters and arguments are not counted.

  * `productions`: the table; the optional and repeated parts have rules of their own;
  * `Spells`: which tokens a form spells, with something given behind them;
  * `Spells.front`: the tokens that a form can start with;
  * `exists_spells`: every form spells something; `Spells.no_end`: none spells an end of file;
  * `Derives.covers`, `Derives.grammatical`: what the language derives, the table spells.
-/
import Mathlib.Tactic.CasesM
import Scriptling.Proofs.Ambiguity

namespace Scriptling

/-! ## The table -/

/-- What is said of a single token. -/
inductive Terminal where
  | kind (k : TokenKind)
  | constant
  /-- A unary operator. -/
  | sign
  /-- A binary operator of a level. -/
  | operator (level : Level)
deriving DecidableEq

/-- The kinds of tokens that a terminal stands for. -/
def Terminal.accepts : Terminal → TokenKind → Bool
  | kind k, k' => k' = k
  | constant, k => k.constant?.isSome
  | sign, k => (UnaryOp.ofKind? k).isSome
  | operator level, k => (level.operator? k).isSome

/-- The rules of the table. -/
inductive Rule where
  | declarations | declaration | methods | statement
  /-- An optional `else`. -/
  | alternative
  /-- A function from its opening parenthesis on. -/
  | function
  | parameters | moreParameters
  /-- An optional expression. -/
  | optional
  | expression
  /-- An optional `=` with what is assigned. -/
  | assigned
  | ternary
  /-- An optional `?` with the two branches. -/
  | choice
  | operation (level : Level)
  /-- The operators of a level with their right operands. -/
  | operations (level : Level)
  | operand (level : Level)
  | unary | call
  /-- Calls and property reads. -/
  | suffixes
  | arguments | moreArguments
  | primary
deriving DecidableEq

inductive Symbol where
  | token (x : Terminal)
  | rule (r : Rule)
deriving DecidableEq

/-- What is still to be read, symbol by symbol. -/
abbrev Form := List Symbol

/-- The single token of a kind. -/
abbrev Symbol.kind (k : TokenKind) : Symbol := .token (.kind k)

open Scriptling.Symbol in
/-- **The productions.**  `fn` before a method is optional, and so is the semicolon after a named
    function. -/
def productions : Rule → List Form
  | .declarations => [[], [rule .declaration, rule .declarations]]
  | .declaration =>
    [[kind .struct, kind .identifier, kind .leftBrace, rule .methods, kind .rightBrace],
      [kind .let, kind .identifier, rule .assigned, kind .semicolon],
      [rule .statement]]
  | .methods =>
    [[], [kind .identifier, rule .function, rule .methods],
      [kind .fn, kind .identifier, rule .function, rule .methods]]
  | .statement =>
    [[rule .expression, kind .semicolon],
      [kind .fn, kind .identifier, rule .function],
      [kind .for, kind .leftParen, kind .let, kind .identifier, rule .assigned, kind .semicolon,
        rule .optional, kind .semicolon, rule .optional, kind .rightParen, rule .statement],
      [kind .while, kind .leftParen, rule .expression, kind .rightParen, rule .statement],
      [kind .if, kind .leftParen, rule .expression, kind .rightParen, rule .statement,
        rule .alternative],
      [kind .print, rule .expression, kind .semicolon],
      [kind .return, rule .optional, kind .semicolon],
      [kind .break, kind .semicolon],
      [kind .continue, kind .semicolon],
      [kind .leftBrace, rule .declarations, kind .rightBrace]]
  | .alternative => [[], [kind .else, rule .statement]]
  | .function =>
    [[kind .leftParen, rule .parameters, kind .rightParen, kind .leftBrace, rule .declarations,
      kind .rightBrace]]
  | .parameters => [[], [kind .identifier, rule .moreParameters]]
  | .moreParameters => [[], [kind .comma, kind .identifier, rule .moreParameters]]
  | .optional => [[], [rule .expression]]
  | .expression => [[rule .ternary, rule .assigned]]
  | .assigned => [[], [kind .equal, rule .expression]]
  | .ternary => [[rule (.operation .or), rule .choice]]
  | .choice => [[], [kind .question, rule .ternary, kind .colon, rule .ternary]]
  | .operation level => [[rule (.operand level), rule (.operations level)]]
  | .operations level =>
    [[], [token (.operator level), rule (.operand level), rule (.operations level)]]
  | .operand level =>
    match level.tighter? with
    | some tighter => [[rule (.operation tighter)]]
    | none => [[rule .unary]]
  | .unary =>
    [[token .sign, rule .unary], [kind .fn, rule .function],
      [kind .fn, kind .identifier, rule .function], [rule .call]]
  | .call => [[rule .primary, rule .suffixes]]
  | .suffixes =>
    [[], [kind .leftParen, rule .arguments, kind .rightParen, rule .suffixes],
      [kind .dot, kind .identifier, rule .suffixes]]
  | .arguments => [[], [rule .expression, rule .moreArguments]]
  | .moreArguments => [[], [kind .comma, rule .expression, rule .moreArguments]]
  | .primary =>
    [[token .constant], [kind .this], [kind .identifier],
      [kind .leftParen, rule .expression, kind .rightParen]]

/-! ## What forms spell -/

/-- **A form spells a list of tokens**, at the end of which stands one of the given lists: the form
    is read from the left, and a rule replaced by any of its productions. -/
inductive Spells (K : List Token → Prop) : Form → List Token → Prop
  | done {v} : K v → Spells K [] v
  | token {x t f v} : x.accepts t.kind = true → Spells K f v → Spells K (.token x :: f) (t :: v)
  | rule {r f g v} : f ∈ productions r → Spells K (f ++ g) v → Spells K (.rule r :: g) v

/-- A program of the table. -/
def Grammatical (ts : List Token) : Prop := Spells (· = []) [.rule .declarations] ts

section
variable {K L : List Token → Prop} {f g : Form} {v : List Token}

theorem spells_nil : Spells K [] v ↔ K v := ⟨fun | .done h => h, .done⟩

theorem spells_token {x : Terminal} :
    Spells K (.token x :: f) v ↔ ∃ t w, v = t :: w ∧ x.accepts t.kind = true ∧ Spells K f w := by
  constructor
  · rintro (_ | ⟨ht, h⟩)
    exact ⟨_, _, rfl, ht, h⟩
  · rintro ⟨t, w, rfl, ht, h⟩
    exact .token ht h

theorem spells_rule {r : Rule} :
    Spells K (.rule r :: g) v ↔ ∃ f ∈ productions r, Spells K (f ++ g) v := by
  constructor
  · rintro (_ | _ | ⟨hf, h⟩)
    exact ⟨_, hf, h⟩
  · rintro ⟨f, hf, h⟩
    exact .rule hf h

/-- The only production of a rule. -/
theorem spells_only {r : Rule} (hr : productions r = [f]) :
    Spells K [.rule r] v ↔ Spells K f v := by
  rw [spells_rule, hr]
  simp

theorem Spells.mono (hKL : ∀ v, K v → L v) (h : Spells K f v) : Spells L f v := by
  induction h with
  | done h => exact .done (hKL _ h)
  | token ht _ ih => exact .token ht ih
  | rule hf _ ih => exact .rule hf ih

/-- The end of a form belongs to what stands behind it. -/
theorem spells_append : Spells K (f ++ g) v ↔ Spells (Spells K g) f v := by
  constructor
  · intro h
    generalize he : f ++ g = e at h
    induction h generalizing f with
    | done h =>
      obtain ⟨rfl, rfl⟩ := List.append_eq_nil_iff.1 he
      exact .done (.done h)
    | token ht h ih =>
      cases f with
      | nil =>
        subst he
        exact .done (.token ht h)
      | cons s f =>
        cases he
        exact .token ht (ih rfl)
    | @rule r f' g' _ hf h ih =>
      cases f with
      | nil =>
        subst he
        exact .done (.rule hf h)
      | cons s f =>
        cases he
        exact .rule hf (ih (List.append_assoc ..))
  · intro h
    induction h with
    | done h => exact h
    | token ht _ ih => exact .token ht ih
    | rule hf _ ih =>
      rw [List.append_assoc] at ih
      exact .rule hf ih

theorem spells_cons {s : Symbol} : Spells K (s :: f) v ↔ Spells (Spells K f) [s] v :=
  spells_append (f := [s])

end

/-! ## First tokens -/

/-- The tokens that what a rule spells can start with. -/
def Rule.opens : Rule → TokenKind → Bool
  | declarations, k | declaration, k => k.opensDeclaration
  | methods, k => k = .identifier || k = .fn
  | statement, k => k.opensStatement
  | alternative, k => k = .else
  | function, k => k = .leftParen
  | parameters, k => k = .identifier
  | moreParameters, k | moreArguments, k => k = .comma
  | optional, k | expression, k | ternary, k | operation _, k | operand _, k | unary, k
  | arguments, k => k.opensExpression
  | assigned, k => k = .equal
  | choice, k => k = .question
  | operations level, k => (level.operator? k).isSome
  | call, k | primary, k => k.opensCall
  | suffixes, k => k = .leftParen || k = .dot

/-- The rule may spell nothing. -/
def Rule.nullable (r : Rule) : Bool := [] ∈ productions r

def Symbol.opens : Symbol → TokenKind → Bool
  | token x => x.accepts
  | rule r => r.opens

def Symbol.nullable : Symbol → Bool
  | token _ => false
  | rule r => r.nullable

/-- The tokens that what a form spells can start with. -/
def Form.opens : Form → TokenKind → Bool
  | [], _ => false
  | s :: f, k => s.opens k || (s.nullable && Form.opens f k)

/-- The form may spell nothing. -/
def Form.nullable (f : Form) : Bool := f.all Symbol.nullable

theorem Form.opens_append {f g : Form} {k : TokenKind} :
    Form.opens (f ++ g) k = (Form.opens f k || (Form.nullable f && Form.opens g k)) := by
  induction f with
  | nil => simp [Form.opens, Form.nullable]
  | cons s f ih =>
    simp only [List.cons_append, Form.opens, ih, Form.nullable, List.all_cons]
    cases s.opens k <;> cases s.nullable <;> simp

theorem Form.nullable_append {f g : Form} :
    Form.nullable (f ++ g) = (Form.nullable f && Form.nullable g) := List.all_append

/-- A production is empty, or starts with a symbol that spells something. -/
theorem not_nullable_head {r : Rule} :
    ∀ f ∈ productions r, ∀ s ∈ f.head?, s.nullable = false := by
  cases r with
  | operation level | operations level | operand level => cases level <;> decide
  | _ => decide

/-- What the first symbol of a production can start with, its rule can. -/
theorem opens_of_head {r : Rule} {s : Symbol} {f : Form} (hf : s :: f ∈ productions r)
    {k : TokenKind} (h : s.opens k = true) : r.opens k = true := by
  have constant (h : k.constant?.isSome = true) : k.opensCall = true :=
    let ⟨_, hv⟩ := Option.isSome_iff_exists.1 h
    TokenKind.opensCall_of_constant? hv
  have sign (h : (UnaryOp.ofKind? k).isSome = true) : k.opensExpression = true :=
    let ⟨_, hop⟩ := Option.isSome_iff_exists.1 h
    UnaryOp.opensExpression_of_ofKind? hop
  cases r with
  | operand level => cases level <;> cases List.mem_singleton.1 hf <;> exact h
  | _ =>
    simp only [productions, List.mem_cons, List.not_mem_nil, or_false, List.cons.injEq,
      reduceCtorEq, false_or] at hf
    casesm* _ ∨ _, _ ∧ _
    all_goals
      subst s
      first
        | exact h
        | exact constant h
        | exact sign h
        | exact k.opensExpression_of_opensCall h
        | exact k.opensStatement_of_opensExpression h
        | exact k.opensDeclaration_of_opensStatement h
        | (cases of_decide_eq_true h; rfl)

/-- A production that may spell nothing is empty. -/
theorem eq_nil_of_nullable {r : Rule} {f : Form} (hf : f ∈ productions r)
    (h : Form.nullable f = true) : f = [] := by
  cases f with
  | nil => rfl
  | cons s f =>
    have hs := not_nullable_head _ hf s rfl
    simp [Form.nullable, hs] at h

/-- What a production can start with, its rule can. -/
theorem opens_of_mem_productions {r : Rule} {f : Form} (hf : f ∈ productions r) {k : TokenKind}
    (h : Form.opens f k = true) : r.opens k = true := by
  cases f with
  | nil => cases h
  | cons s f =>
    rw [Form.opens, not_nullable_head _ hf s rfl, Bool.false_and, Bool.or_false] at h
    exact opens_of_head hf h

/-- **A form starts with a token that it can start with**, or it spells nothing. -/
theorem Spells.front {K : List Token → Prop} {f : Form} {v : List Token} (h : Spells K f v) :
    Form.opens f (frontToken v).kind = true ∨ Form.nullable f = true ∧ K v := by
  induction h with
  | done h => exact .inr ⟨rfl, h⟩
  | @token x t f v ht _ _ => exact .inl (by simp [Form.opens, Symbol.opens, frontToken, ht])
  | @rule r f g v hf _ ih =>
    rw [Form.opens_append, Form.nullable_append] at ih
    simp only [Bool.or_eq_true, Bool.and_eq_true] at ih
    have nullable (hn : Form.nullable f = true) : r.nullable = true := by
      rw [eq_nil_of_nullable hf hn] at hf
      exact decide_eq_true hf
    simp only [Form.opens, Form.nullable, List.all_cons, Symbol.opens, Symbol.nullable,
      Bool.or_eq_true, Bool.and_eq_true]
    rcases ih with (ho | ⟨hn, ho⟩) | ⟨⟨hn, hg⟩, hK⟩
    · exact .inl (.inl (opens_of_mem_productions hf ho))
    · exact .inl (.inr ⟨nullable hn, ho⟩)
    · exact .inr ⟨⟨nullable hn, hg⟩, hK⟩

/-! ## Parts of forms -/

section
variable {K : List Token → Prop} {f g : Form} {v : List Token}

/-- A rule that may spell nothing can be left out. -/
theorem spells_skip {r : Rule} (hr : r.nullable = true) (h : Spells K g v) :
    Spells K (.rule r :: g) v := .rule (of_decide_eq_true hr) h

theorem spells_skip_last {r : Rule} (hr : r.nullable = true) (h : Spells K f v) :
    Spells K (f ++ [.rule r]) v :=
  spells_append.2 (h.mono fun _ hv => spells_skip hr (.done hv))

theorem productions_operand {level tighter : Level} (h : level.tighter? = some tighter) :
    productions (.operand level) = [[.rule (.operation tighter)]] := by rw [productions, h]

/-- From the tightest level to the loosest. -/
theorem Level.loosen {P : Level → Prop} (product : P .product)
    (widen : ∀ {level tighter : Level}, level.tighter? = some tighter → P tighter → P level) :
    ∀ level, P level := by
  have sum : P .sum := widen rfl product
  have comparison : P .comparison := widen rfl sum
  have equality : P .equality := widen rfl comparison
  have and : P .and := widen rfl equality
  have or : P .or := widen rfl and
  intro level
  cases level <;> assumption

/-- A unary expression is an operand of every level. -/
theorem spells_operand (h : Spells K [.rule .unary] v) :
    ∀ level : Level, Spells K [.rule (.operand level)] v := by
  refine Level.loosen ((spells_only rfl).2 h) fun htighter h => ?_
  exact (spells_only (productions_operand htighter)).2
    ((spells_only rfl).2 (spells_skip_last rfl h))

theorem spells_ternary (h : Spells K [.rule .unary] v) : Spells K [.rule .ternary] v :=
  (spells_only rfl).2 (spells_skip_last (f := [_]) rfl
    ((spells_only rfl).2 (spells_skip_last (f := [_]) rfl (spells_operand h .or))))

/-- A rule whose productions end with itself, like a loop, may be repeated. -/
theorem spells_repeat {r : Rule} (hr : ∀ f ∈ productions r, f = [] ∨ f.getLast? = some (.rule r))
    (h : Spells (Spells K [.rule r]) [.rule r] v) : Spells K [.rule r] v := by
  -- what stands before the rule is read on the way
  suffices ∀ e, Spells (Spells K [.rule r]) e v → ∀ f, e = f ++ [.rule r] →
      Spells K (f ++ [.rule r]) v from this _ h [] rfl
  clear h
  intro e h
  induction h with
  | done => exact fun f he => absurd he.symm (List.append_ne_nil_of_right_ne_nil f nofun)
  | token ht _ ih =>
    rintro (_ | ⟨s, f⟩) he
    · cases he
    · cases he
      exact .token ht (ih f rfl)
  | @rule r' f' g v hf h ih =>
    rintro (_ | ⟨s, f⟩) he
    · cases he
      rcases hr f' hf with rfl | hlast
      · exact spells_nil.1 h
      obtain ⟨g, rfl⟩ := List.getLast?_eq_some_iff.1 hlast
      exact .rule hf (by simpa using ih g (List.append_nil _))
    · cases he
      exact .rule hf (by simpa using ih (f' ++ f) (List.append_assoc ..).symm)

end

/-! ## Every form spells something -/

/-- A symbol spells something, whatever stands behind it. -/
def Symbol.Filled (s : Symbol) : Prop := ∀ K : List Token → Prop, (∃ v, K v) → ∃ v, Spells K [s] v

theorem exists_spells_of_filled {f : Form} (hf : ∀ s ∈ f, s.Filled) {K : List Token → Prop}
    (hK : ∃ v, K v) : ∃ v, Spells K f v := by
  induction f with
  | nil =>
    obtain ⟨v, hv⟩ := hK
    exact ⟨v, .done hv⟩
  | cons s f ih =>
    obtain ⟨hs, hf⟩ := List.forall_mem_cons.1 hf
    obtain ⟨v, hv⟩ := hs (Spells K f) (ih hf)
    exact ⟨v, spells_cons.2 hv⟩

theorem filled_of_production {r : Rule} (f : Form) (hf : f ∈ productions r)
    (hs : ∀ s ∈ f, s.Filled) : (Symbol.rule r).Filled := by
  intro K hK
  obtain ⟨v, hv⟩ := exists_spells_of_filled hs hK
  exact ⟨v, .rule hf (by rwa [List.append_nil])⟩

theorem filled_token (x : Terminal) : (Symbol.token x).Filled := by
  rintro K ⟨v, hv⟩
  obtain ⟨k, hk⟩ : ∃ k, x.accepts k = true := by
    cases x with
    | kind k => exact ⟨k, decide_eq_true rfl⟩
    | constant => exact ⟨.null, rfl⟩
    | sign => exact ⟨.minus, rfl⟩
    | operator level =>
      cases level
      · exact ⟨.or, rfl⟩
      · exact ⟨.and, rfl⟩
      · exact ⟨.equalEqual, rfl⟩
      · exact ⟨.less, rfl⟩
      · exact ⟨.plus, rfl⟩
      · exact ⟨.star, rfl⟩
  exact ⟨⟨k, "", 0⟩ :: v, .token hk (.done hv)⟩

theorem filled_of_nullable {r : Rule} (h : r.nullable = true) : (Symbol.rule r).Filled :=
  filled_of_production [] (of_decide_eq_true h) nofun

theorem filled_rule : ∀ r : Rule, (Symbol.rule r).Filled := by
  have primary : (Symbol.rule .primary).Filled :=
    filled_of_production [.kind .this] (by decide) (by simp [filled_token])
  have call : (Symbol.rule .call).Filled :=
    filled_of_production [.rule .primary, .rule .suffixes] (by decide)
      (by simp [primary, filled_of_nullable (r := .suffixes) rfl])
  have unary : (Symbol.rule .unary).Filled :=
    filled_of_production [.rule .call] (by decide) (by simp [call])
  have operand (level : Level) : (Symbol.rule (.operand level)).Filled := fun K hK =>
    let ⟨v, hv⟩ := unary K hK
    ⟨v, spells_operand hv level⟩
  have ternary : (Symbol.rule .ternary).Filled := fun K hK =>
    let ⟨v, hv⟩ := unary K hK
    ⟨v, spells_ternary hv⟩
  have statement : (Symbol.rule .statement).Filled :=
    filled_of_production [.kind .break, .kind .semicolon] (by decide) (by simp [filled_token])
  intro r
  cases r with
  | primary => exact primary
  | call => exact call
  | unary => exact unary
  | operand level => exact operand level
  | operation level =>
    exact filled_of_production [.rule (.operand level), .rule (.operations level)]
      (by simp [productions]) (by simp [operand, filled_of_nullable (r := .operations level) rfl])
  | ternary => exact ternary
  | expression =>
    exact filled_of_production [.rule .ternary, .rule .assigned] (by decide)
      (by simp [ternary, filled_of_nullable (r := .assigned) rfl])
  | statement => exact statement
  | declaration => exact filled_of_production [.rule .statement] (by decide) (by simp [statement])
  | function =>
    exact filled_of_production _ (List.mem_singleton_self _) (by
      simp [filled_token, filled_of_nullable (r := .parameters) rfl,
        filled_of_nullable (r := .declarations) rfl])
  | _ => exact filled_of_nullable rfl

/-- **Every form spells something.** -/
theorem exists_spells (f : Form) {K : List Token → Prop} (hK : ∃ v, K v) : ∃ v, Spells K f v :=
  exists_spells_of_filled (fun s _ => match s with
    | .token x => filled_token x
    | .rule r => filled_rule r) hK

/-! ## No form spells an end of file -/

/-- No token of the form is an end of file. -/
def Form.endless (f : Form) : Bool := f.all fun
  | .token x => !x.accepts .endOfFile
  | .rule _ => true

theorem endless_productions {r : Rule} : ∀ f ∈ productions r, Form.endless f = true := by
  cases r with
  | operation level | operations level | operand level => cases level <;> decide
  | _ => decide

/-- **What a form spells has no end of file**, if what stands behind it has none. -/
theorem Spells.no_end {K : List Token → Prop} (hK : ∀ v, K v → ∀ t ∈ v, t.kind ≠ .endOfFile)
    {f : Form} {v : List Token} (h : Spells K f v) (hf : Form.endless f = true) :
    ∀ t ∈ v, t.kind ≠ .endOfFile := by
  induction h with
  | done h => exact hK _ h
  | token ht _ ih =>
    rw [Form.endless, List.all_cons, Bool.and_eq_true] at hf
    refine List.forall_mem_cons.2 ⟨fun he => ?_, ih hf.2⟩
    rw [he] at ht
    simp [ht] at hf
  | rule hf' _ ih =>
    rw [Form.endless, List.all_cons, Bool.and_eq_true] at hf
    refine ih ?_
    rw [Form.endless, List.all_append, Bool.and_eq_true]
    exact ⟨endless_productions _ hf', hf.2⟩

/-! ## What the language derives -/

/-- The form of a phrase. -/
def Phrase.form : Phrase → Form
  | .declarations _ => [.rule .declarations]
  | .declaration _ _ => [.rule .declaration]
  | .statement _ _ => [.rule .statement]
  | .binding _ _ => [.kind .identifier, .rule .assigned, .kind .semicolon]
  | .methods _ => [.rule .methods]
  | .function _ _ => [.rule .function]
  | .optionalParameters _ => [.rule .parameters]
  | .parameters _ => [.kind .identifier, .rule .moreParameters]
  | .optionalArguments _ => [.rule .arguments]
  | .arguments _ => [.rule .expression, .rule .moreArguments]
  | .optionalExpression _ => [.rule .optional]
  | .expression _ => [.rule .expression]
  | .ternary _ => [.rule .ternary]
  | .operation level _ => [.rule (.operation level)]
  | .operand level _ => [.rule (.operand level)]
  | .unary _ => [.rule .unary]
  | .call _ => [.rule .call]
  | .primary _ => [.rule .primary]

/-- A named function literal. -/
def namedFunction : Form := [.kind .fn, .kind .identifier, .rule .function]

/-- A phrase that is just a named function literal. -/
def Phrase.IsNamed : Phrase → Prop
  | .expression e | .ternary e | .operation _ e | .operand _ e | .unary e => e.IsNamed
  | _ => False

/-- The form spells the tokens, whatever stands behind them. -/
def Form.Covers (f : Form) (ts : List Token) : Prop :=
  ∀ (K : List Token → Prop) (v : List Token), K v → Spells K f (ts ++ v)

namespace Form.Covers

variable {f g : Form} {ts us : List Token}

theorem nil : Covers [] [] := fun _ _ hv => .done hv

theorem token {x : Terminal} {t : Token} (ht : x.accepts t.kind = true) (h : Covers f ts) :
    Covers (.token x :: f) (t :: ts) := fun K v hv => .token ht (h K v hv)

theorem kind {k : TokenKind} {t : Token} (ht : t.kind = k) (h : Covers f ts) :
    Covers (.kind k :: f) (t :: ts) := h.token (decide_eq_true ht)

theorem append (hf : Covers f ts) (hg : Covers g us) : Covers (f ++ g) (ts ++ us) := by
  intro K v hv
  rw [List.append_assoc]
  exact spells_append.2 (hf _ _ (hg K v hv))

theorem rule {r : Rule} (h : Covers f ts)
    (hf : f ∈ productions r := by simp [productions, Phrase.form, namedFunction]) :
    Covers [.rule r] ts :=
  fun K v hv => .rule hf (by rw [List.append_nil]; exact h K v hv)

theorem skip {r : Rule} (hr : r.nullable = true) : Covers [.rule r] [] :=
  rule nil (of_decide_eq_true hr)

theorem skipLast {r : Rule} (h : Covers f ts) (hr : r.nullable = true) :
    Covers (f ++ [.rule r]) ts := fun K v hv => spells_skip_last hr (h K v hv)

theorem ternary (h : Covers [.rule .unary] ts) : Covers [.rule .ternary] ts :=
  fun K v hv => spells_ternary (h K v hv)

/-- A rule that ends with a loop goes on with the loop. -/
theorem loop {r r' s : Rule} (hr : productions r = [[.rule r', .rule s]])
    (hs : ∀ f ∈ productions s, f = [] ∨ f.getLast? = some (.rule s)) (h : Covers [.rule r] ts)
    (hus : Covers [.rule s] us) : Covers [.rule r] (ts ++ us) := by
  intro K v hv
  rw [List.append_assoc]
  have h := (spells_only hr).1 (h _ _ (hus K v hv))
  exact (spells_only hr).2
    (spells_cons.2 ((spells_cons.1 h).mono fun _ => spells_repeat hs))

theorem operations {level : Level} (h : Covers [.rule (.operation level)] ts)
    (hus : Covers [.rule (.operations level)] us) : Covers [.rule (.operation level)] (ts ++ us) :=
  h.loop rfl (by simp [productions]) hus

theorem suffixes (h : Covers [.rule .call] ts) (hus : Covers [.rule .suffixes] us) :
    Covers [.rule .call] (ts ++ us) :=
  h.loop rfl (by simp [productions]) hus

theorem property {dot title : Token} (h : Covers [.rule .call] ts) (hdot : dot.kind = .dot)
    (htitle : title.kind = .identifier) : Covers [.rule .call] (ts ++ [dot, title]) :=
  h.suffixes (.rule (.kind hdot (.kind htitle (.skip (r := .suffixes) rfl))))

end Form.Covers

/-- **What the language derives, the table spells.** -/
theorem Derives.covers {strict : Bool} {p : Phrase} {ts : List Token} (h : Derives strict p ts) :
    Form.Covers p.form ts ∧ (p.IsNamed → Form.Covers namedFunction ts) := by
  induction h with
  | nil => exact ⟨.skip rfl, nofun⟩
  | cons _ _ _ ihs ihss => exact ⟨.rule (ihs.1.append ihss.1), nofun⟩
  | struct hkey htitle hleft _ hright ih =>
    exact ⟨.rule (.kind hkey (.kind htitle (.kind hleft (ih.1.append (.kind hright .nil))))), nofun⟩
  | «let» hkey _ ih => exact ⟨.rule (.kind hkey ih.1), nofun⟩
  | statement _ ih => exact ⟨.rule ih.1, nofun⟩
  | noMethods => exact ⟨.skip rfl, nofun⟩
  | method htitle _ _ ihf ihfs => exact ⟨.rule (.kind htitle (ihf.1.append ihfs.1)), nofun⟩
  | fnMethod hkey htitle _ _ ihf ihfs =>
    exact ⟨.rule (.kind hkey (.kind htitle (ihf.1.append ihfs.1))), nofun⟩
  | unset htitle hsemicolon =>
    exact ⟨.kind htitle ((Form.Covers.skip rfl).append (.kind hsemicolon .nil)), nofun⟩
  | initialized htitle hsign _ hsemicolon ih =>
    have assigned := Form.Covers.rule (r := .assigned) (.kind hsign ih.1)
    exact ⟨.kind htitle (assigned.append (.kind hsemicolon .nil)), nofun⟩
  | «for» hkey hleft hword _ _ hsemicolon _ hright _ ihb ihc ihs ih =>
    exact ⟨.rule (.kind hkey (.kind hleft (.kind hword (ihb.1.append (ihc.1.append
      (.kind hsemicolon (ihs.1.append (.kind hright ih.1)))))))), nofun⟩
  | «while» hkey hleft _ hright _ ihc ih =>
    exact ⟨.rule (.kind hkey (.kind hleft (ihc.1.append (.kind hright ih.1)))), nofun⟩
  | «if» hkey hleft _ hright _ ihc ih =>
    have yes := ih.1.skipLast (r := .alternative) rfl
    exact ⟨.rule (.kind hkey (.kind hleft (ihc.1.append (.kind hright yes)))), nofun⟩
  | ifElse hkey hleft _ hright _ _ hword _ ihc ihyes ihno =>
    have alternative := Form.Covers.rule (r := .alternative) (.kind hword ihno.1)
    exact ⟨.rule (.kind hkey (.kind hleft (ihc.1.append (.kind hright
      (ihyes.1.append alternative))))), nofun⟩
  | print hkey _ hsemicolon ih | «return» hkey _ hsemicolon ih =>
    exact ⟨.rule (.kind hkey (ih.1.append (.kind hsemicolon .nil))), nofun⟩
  | «break» hkey hsemicolon | «continue» hkey hsemicolon =>
    exact ⟨.rule (.kind hkey (.kind hsemicolon .nil)), nofun⟩
  | block hleft _ hright ih =>
    exact ⟨.rule (.kind hleft (ih.1.append (.kind hright .nil))), nofun⟩
  | expression _ hsemicolon ih => exact ⟨.rule (ih.1.append (.kind hsemicolon .nil)), nofun⟩
  | bare _ ih => exact ⟨.rule (ih.2 ⟨_, _, _, _, rfl⟩), nofun⟩
  | noExpression => exact ⟨.skip rfl, nofun⟩
  | someExpression _ ih => exact ⟨.rule ih.1, nofun⟩
  | assign htitle hsign _ ih =>
    have title := Form.Covers.rule (r := .primary) (.kind htitle .nil)
    have call := Form.Covers.rule (r := .call) (title.skipLast (r := .suffixes) rfl)
    have assigned := Form.Covers.rule (r := .assigned) (.kind hsign ih.1)
    exact ⟨.rule ((Form.Covers.rule call).ternary.append assigned), nofun⟩
  | set _ hdot htitle hsign _ iho ih =>
    have assigned := Form.Covers.rule (r := .assigned) (.kind hsign ih.1)
    have target := (Form.Covers.rule (iho.1.property hdot htitle)).ternary
    exact ⟨.rule (by simpa using target.append assigned), nofun⟩
  | noAssignment _ ih => exact ⟨.rule (ih.1.skipLast (r := .assigned) rfl), ih.2⟩
  | choice _ hquestion _ hcolon _ ihc ihyes ihno =>
    have branches := Form.Covers.rule (r := .choice)
      (.kind hquestion (ihyes.1.append (.kind hcolon ihno.1)))
    exact ⟨.rule (ihc.1.append branches), nofun⟩
  | noChoice _ ih => exact ⟨.rule (ih.1.skipLast (r := .choice) rfl), ih.2⟩
  | @first level _ _ _ ih => exact ⟨.rule (ih.1.skipLast (r := .operations level) rfl), ih.2⟩
  | @join level op _ _ _ _ _ _ hop _ ihl ihr =>
    have right := ihr.1.skipLast (r := .operations level) rfl
    refine ⟨ihl.1.operations (.rule (right.token (x := .operator level) ?_)), ?_⟩
    · exact Option.isSome_iff_exists.2 ⟨op, hop⟩
    rintro ⟨_, _, _, _, h⟩
    cases op <;> cases h
  | tighter htighter _ ih => exact ⟨.rule ih.1 (by simp [productions, htighter, Phrase.form]), ih.2⟩
  | tightest hnone _ ih => exact ⟨.rule ih.1 (by simp [productions, hnone, Phrase.form]), ih.2⟩
  | unary hop _ ih =>
    exact ⟨.rule (ih.1.token (x := .sign) (Option.isSome_iff_exists.2 ⟨_, hop⟩)), nofun⟩
  | anonymous hkey _ ih => exact ⟨.rule (.kind hkey ih.1), nofun⟩
  | named hkey htitle _ ih =>
    exact ⟨.rule (.kind hkey (.kind htitle ih.1)), fun _ => .kind hkey (.kind htitle ih.1)⟩
  | noFunction h ih =>
    exact ⟨.rule ih.1, fun ⟨_, _, _, _, he⟩ => absurd he (h.not_function _)⟩
  | function hleft _ hright hbrace _ hbrace' ihps ih =>
    exact ⟨.rule (.kind hleft (ihps.1.append (.kind hright (.kind hbrace
      (ih.1.append (.kind hbrace' .nil)))))), nofun⟩
  | noParameters => exact ⟨.skip rfl, nofun⟩
  | someParameters _ _ ih => exact ⟨.rule ih.1, nofun⟩
  | lastParameter htitle => exact ⟨.kind htitle (.skip rfl), nofun⟩
  | parameter htitle hcomma _ ih => exact ⟨.kind htitle (.rule (.kind hcomma ih.1)), nofun⟩
  | noCall _ ih => exact ⟨.rule (ih.1.skipLast (r := .suffixes) rfl), nofun⟩
  | call _ hleft _ hright ihc ih =>
    have suffix := Form.Covers.rule (r := .suffixes)
      (.kind hleft (ih.1.append (.kind hright (.skip (r := .suffixes) rfl))))
    exact ⟨ihc.1.suffixes suffix, nofun⟩
  | get _ hdot htitle ih => exact ⟨ih.1.property hdot htitle, nofun⟩
  | noArguments => exact ⟨.skip rfl, nofun⟩
  | someArguments _ _ ih => exact ⟨.rule ih.1, nofun⟩
  | lastArgument _ ih => exact ⟨ih.1.skipLast (r := .moreArguments) rfl, nofun⟩
  | argument _ hcomma _ ihe ih =>
    exact ⟨ihe.1.append (.rule (.kind hcomma ih.1)), nofun⟩
  | constant hv =>
    exact ⟨.rule (.token (x := .constant) (Option.isSome_iff_exists.2 ⟨_, hv⟩) .nil), nofun⟩
  | receiver hk | reference hk => exact ⟨.rule (.kind hk .nil), nofun⟩
  | group hleft _ hright ih => exact ⟨.rule (.kind hleft (ih.1.append (.kind hright .nil))), nofun⟩

/-- What the language derives is a program of the table. -/
theorem Derives.grammatical {strict : Bool} {ss : List Stmt} {ts : List Token}
    (h : Derives strict (.declarations ss) ts) : Grammatical ts := by
  have h := h.covers.1 (· = []) [] rfl
  rwa [List.append_nil] at h

end Scriptling
