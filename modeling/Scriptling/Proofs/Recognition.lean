/-
  Recognition — what is derived, the parser reads.

  Along a strict derivation every rule succeeds: it takes the tokens of its phrase and gives
  the tree of the derivation, up to the numbers of its sites.  The rules are greedy, so each
  needs to know of the token after its phrase that it does not carry on.

  * `Gives`: a rule takes given tokens and gives a result with a property;
  * `Phrase.Read`: the rule of a phrase reads it, if the bound on the descent is no smaller
    than 32 for each token and a rank of the rule;
  * `Derives.read`: this holds of every strict derivation, one lemma for a production.
-/
import Scriptling.Proofs.Descent

namespace Scriptling

namespace Parser

/-! ## What rules give -/

/-- In front of the rest, a rule takes the given tokens and gives a result with a property. -/
def Gives {α : Type} (p : Parser α) (ts rest : List Token) (R : α → Prop) : Prop :=
  ∀ site, ∃ a site', p ⟨ts ++ rest, site⟩ = .ok a ⟨rest, site'⟩ ∧ R a

namespace Gives

variable {α β : Type} {ts us rest : List Token} {R : β → Prop} {t : Token}

theorem pure {b : β} (h : R b) : Gives (Pure.pure b) [] rest R := fun site => ⟨b, site, rfl, h⟩

theorem bind {p : Parser α} {q : α → Parser β} {S : α → Prop} (hp : Gives p ts (us ++ rest) S)
    (hq : ∀ a, S a → Gives (q a) us rest R) : Gives (p >>= q) (ts ++ us) rest R := by
  intro site
  obtain ⟨a, site₁, hrun, ha⟩ := hp site
  obtain ⟨b, site₂, hrun', hb⟩ := hq a ha site₁
  refine ⟨b, site₂, ?_, hb⟩
  simp only [Bind.bind, EStateM.bind, List.append_assoc, hrun, hrun']

theorem last {p : Parser α} {q : α → Parser β} {S : α → Prop} (hp : Gives p ts rest S)
    (hq : ∀ a, S a → Gives (q a) [] rest R) : Gives (p >>= q) ts rest R := by
  have h := hp.bind hq
  rwa [List.append_nil] at h

theorem map {p : Parser α} {f : α → β} {S : α → Prop} (hp : Gives p ts rest S)
    (hf : ∀ a, S a → R (f a)) : Gives (p >>= fun a => Pure.pure (f a)) ts rest R := by
  intro site
  obtain ⟨a, site', hrun, ha⟩ := hp site
  exact ⟨f a, site', by simp only [Bind.bind, EStateM.bind, hrun]; rfl, hf a ha⟩

theorem peek {q : Token → Parser β} (hq : Gives (q t) (t :: ts) rest R) :
    Gives (Parser.peek >>= q) (t :: ts) rest R := fun site => hq site

theorem lookahead {q : Token → Parser β} (hq : Gives (q (frontToken rest)) [] rest R) :
    Gives (Parser.peek >>= q) [] rest R := fun site => hq site

theorem freshSite {q : Nat → Parser β} (hq : ∀ site, Gives (q site) ts rest R) :
    Gives (Parser.freshSite >>= q) ts rest R := fun site => hq site (site + 1)

theorem advance {q : Unit → Parser β} (hq : Gives (q ()) ts rest R) :
    Gives (Parser.advance >>= q) (t :: ts) rest R := fun site => hq site

theorem expect {kind : TokenKind} {what : Expected} {q : Token → Parser β} (ht : t.kind = kind)
    (hq : Gives (q t) ts rest R) : Gives (Parser.expect kind what >>= q) (t :: ts) rest R := by
  intro site
  obtain ⟨b, site', hrun, hb⟩ := hq site
  refine ⟨b, site', ?_, hb⟩
  simpa [Parser.expect, Parser.peek, Parser.advance, frontToken, ht, Bind.bind, EStateM.bind,
    Pure.pure, EStateM.pure] using hrun

theorem name {what : Expected} {q : Name → Parser β} (ht : t.kind = .identifier)
    (hq : Gives (q t.toName) ts rest R) : Gives (Parser.name what >>= q) (t :: ts) rest R := by
  have h : Gives (Parser.name what) [t] (ts ++ rest) (· = t.toName) :=
    expect ht (pure rfl)
  refine h.bind ?_
  rintro _ rfl
  exact hq

theorem accept {kind : TokenKind} {q : Bool → Parser β} (ht : t.kind = kind)
    (hq : Gives (q true) ts rest R) : Gives (Parser.accept kind >>= q) (t :: ts) rest R := by
  intro site
  obtain ⟨b, site', hrun, hb⟩ := hq site
  refine ⟨b, site', ?_, hb⟩
  simpa [Parser.accept, Parser.peek, Parser.advance, frontToken, ht, Bind.bind, EStateM.bind,
    Pure.pure, EStateM.pure] using hrun

theorem refuse {kind : TokenKind} {q : Bool → Parser β}
    (ht : (frontToken (ts ++ rest)).kind ≠ kind) (hq : Gives (q false) ts rest R) :
    Gives (Parser.accept kind >>= q) ts rest R := by
  intro site
  obtain ⟨b, site', hrun, hb⟩ := hq site
  refine ⟨b, site', ?_, hb⟩
  simpa [Parser.accept, Parser.peek, ht, Bind.bind, EStateM.bind, Pure.pure, EStateM.pure]
    using hrun

end Gives

end Parser

/-! ## What follows a phrase -/

theorem Level.quiet_of_operator? {l : Level} {k : TokenKind} {op : InfixOp}
    (h : l.operator? k = some op) : Quiet (l.tightness + 1) k := by
  intro l' hl
  cases l <;> cases k <;> cases h <;> cases l' <;> first | rfl | simp [tightness] at hl

/-- No call and no property read carries a tree on; a function literal is never carried on. -/
def CallEnds (e : Expr) (k : TokenKind) : Prop := k = .leftParen ∨ k = .dot → ∃ f, e = .function f

theorem callEnds_of_operator? {l : Level} {k : TokenKind} {op : InfixOp} (e : Expr)
    (h : l.operator? k = some op) : CallEnds e k := by
  rintro (rfl | rfl) <;> cases l <;> cases h

theorem CallEnds.of_not_function {e : Expr} {k : TokenKind} (h : CallEnds e k)
    (hne : ∀ f, e ≠ .function f) (e' : Expr) : CallEnds e' k := by
  intro hk
  obtain ⟨f, hf⟩ := h hk
  exact absurd hf (hne f)

/-- A token after a tree carries on no call, no operation and no condition. -/
structure Closed (e : Expr) (k : TokenKind) : Prop where
  call : CallEnds e k
  quiet : Level.Quiet 0 k
  choice : k ≠ .question

theorem Closed.of_not_function {e : Expr} {k : TokenKind} (h : Closed e k)
    (hne : ∀ f, e ≠ .function f) (e' : Expr) : Closed e' k :=
  ⟨h.call.of_not_function hne e', h.quiet, h.choice⟩

theorem closed_equal (e : Expr) : Closed e .equal := by
  refine ⟨?_, fun l _ => ?_, nofun⟩
  · rintro (hk | hk) <;> cases hk
  · cases l <;> rfl

/-- A token after a statement does not belong to it. -/
structure After (bare : Bool) (s : Stmt) (k : TokenKind) : Prop where
  closed : bare = true → Level.Quiet 0 k ∧ k ≠ .question ∧ k ≠ .equal ∧ k ≠ .semicolon
  dangling : s.EndsOpen → k ≠ .else

theorem After.of_part {bare : Bool} {s s' : Stmt} {k : TokenKind} (h : After bare s k)
    (hs : s'.EndsOpen → s.EndsOpen) : After bare s' k := ⟨h.closed, fun h' => h.dangling (hs h')⟩

/-- A token that carries on no tree. -/
theorem After.of_kind {bare : Bool} {s : Stmt} {k : TokenKind}
    (hk : k = .else ∨ k = .rightBrace ∨ k = .endOfFile) (hs : s.EndsOpen → k ≠ .else) :
    After bare s k := by
  refine ⟨fun _ => ?_, hs⟩
  rcases hk with rfl | rfl | rfl <;>
    exact ⟨fun l _ => by cases l <;> rfl, nofun, nofun, nofun⟩

/-- A token ends any expression in front of it. -/
def TokenKind.ends : TokenKind → Bool
  | .semicolon | .rightParen | .comma | .colon => Bool.true
  | _ => Bool.false

theorem TokenKind.not_ends_of_opensExpression {k : TokenKind} (h : k.opensExpression) :
    k.ends = Bool.false := by
  cases k <;> first | rfl | cases h

theorem closed_of_ends {k : TokenKind} (e : Expr) (h : k.ends = true) :
    Closed e k ∧ k ≠ .equal := by
  refine ⟨⟨?_, ?_, ?_⟩, ?_⟩
  · rintro (rfl | rfl) <;> cases h
  · intro l _
    cases l <;> cases k <;> first | rfl | cases h
  · rintro rfl; cases h
  · rintro rfl; cases h

/-! ## What the rules read -/

/-- The rule of a phrase reads it, whatever follows that does not carry it on, if it may descend
    deep enough.  Operations and calls leave the rest of their level for the loop that joins
    them. -/
def Phrase.Read (ts : List Token) : Phrase → Prop
  | .declarations ss => ∀ depth brace rest, 32 * ts.length + 19 ≤ depth →
      brace.kind = .rightBrace →
      Parser.Gives (Parser.block depth) (ts ++ [brace]) rest
        (Stmt.outlineAll · = Stmt.outlineAll ss)
  | .declaration bare s => ∀ depth rest, 32 * ts.length + 18 ≤ depth →
      After bare s (frontToken rest).kind →
      Parser.Gives (Parser.declaration depth) ts rest (·.outline = s.outline)
  | .statement bare s => ∀ depth rest, 32 * ts.length + 17 ≤ depth →
      After bare s (frontToken rest).kind →
      Parser.Gives (Parser.statement depth) ts rest (·.outline = s.outline)
  | .binding name value => ∀ depth rest, 32 * ts.length + 1 ≤ depth →
      Parser.Gives (Parser.variableRest depth) ts rest fun r =>
        r.1 = name ∧ Expr.outlineOpt r.2 = Expr.outlineOpt value
  | .methods fs => ∀ depth brace rest, 32 * ts.length + 1 ≤ depth → brace.kind = .rightBrace →
      Parser.Gives (Parser.methods depth) (ts ++ [brace]) rest
        (Function.outlineAll · = Function.outlineAll fs)
  | .function ps body => ∀ depth title line rest, 32 * ts.length + 1 ≤ depth →
      Parser.Gives (Parser.function title line depth) ts rest
        (·.outline = (Function.mk title ps body line).outline)
  | .optionalParameters ps => (ts = [] ∧ ps = []) ∨
      (Opens (· = .identifier) ts ∧ ∀ close rest, close.kind = .rightParen →
        Parser.Gives (Parser.parameters maxArguments) ts (close :: rest) (· = ps))
  | .parameters ps => ∀ room rest, ps.length ≤ room → (frontToken rest).kind ≠ .comma →
      Parser.Gives (Parser.parameters room) ts rest (· = ps)
  | .optionalArguments es => (ts = [] ∧ es = []) ∨
      (Opens TokenKind.opensExpression ts ∧ ∀ depth close rest, 32 * ts.length + 17 ≤ depth →
        close.kind = .rightParen →
        Parser.Gives (Parser.arguments maxArguments depth) ts (close :: rest)
          (Expr.outlineAll · = Expr.outlineAll es))
  | .arguments es => ∀ depth room close rest, 32 * ts.length + 17 ≤ depth → es.length ≤ room →
      close.kind = .rightParen →
      Parser.Gives (Parser.arguments room depth) ts (close :: rest)
        (Expr.outlineAll · = Expr.outlineAll es)
  | .optionalExpression e => ∀ depth close what t rest, 32 * ts.length + 17 ≤ depth →
      close.ends = true → t.kind = close →
      Parser.Gives (Parser.optional close what depth) (ts ++ [t]) rest
        (Expr.outlineOpt · = Expr.outlineOpt e)
  | .expression e => ∀ depth rest, 32 * ts.length + 16 ≤ depth →
      Closed e (frontToken rest).kind → (frontToken rest).kind ≠ .equal →
      Parser.Gives (Parser.expression depth) ts rest (·.outline = e.outline)
  | .ternary e => ∀ depth rest, 32 * ts.length + 15 ≤ depth → Closed e (frontToken rest).kind →
      Parser.Gives (Parser.ternary depth) ts rest (·.outline = e.outline)
  | .operation l e => ∀ depth rest site, 32 * ts.length + 13 ≤ depth + 2 * l.tightness →
      Level.Quiet (l.tightness + 1) (frontToken rest).kind → CallEnds e (frontToken rest).kind →
      ∃ e' depth' site', e'.outline = e.outline ∧ depth ≤ depth' + ts.length ∧
        Parser.operation l (depth + 1) ⟨ts ++ rest, site⟩ =
          Parser.operationRest l e' depth' ⟨rest, site'⟩
  | .operand l e => ∀ depth rest, 32 * ts.length + 13 ≤ depth + 2 * l.tightness →
      Level.Quiet (l.tightness + 1) (frontToken rest).kind → CallEnds e (frontToken rest).kind →
      Parser.Gives (Parser.operand l depth) ts rest (·.outline = e.outline)
  | .unary e => ∀ depth rest, 32 * ts.length + 2 ≤ depth → CallEnds e (frontToken rest).kind →
      Parser.Gives (Parser.unary depth) ts rest (·.outline = e.outline)
  | .call e => ∀ depth rest site, 32 * ts.length + 1 ≤ depth →
      ∃ e' depth' site', e'.outline = e.outline ∧ depth ≤ depth' + ts.length ∧
        (Parser.primary depth >>= fun callee => Parser.callRest callee depth) ⟨ts ++ rest, site⟩ =
          Parser.callRest e' depth' ⟨rest, site'⟩
  | .primary e => ∀ depth rest, 32 * ts.length + 1 ≤ depth →
      Parser.Gives (Parser.primary depth) ts rest (·.outline = e.outline)

namespace Phrase

open Scriptling.Parser

variable {ts us vs ws : List Token} {l : Level} {e : Expr} {t key title opening closing : Token}

/-- An expression is read up to a token that ends it. -/
theorem ended {k : TokenKind} {rest : List Token} {depth : Nat} (h : (Phrase.expression e).Read ts)
    (hk : closing.kind = k) (hends : k.ends = true) (hdepth : 32 * ts.length + 16 ≤ depth) :
    Gives (Parser.expression depth) ts (closing :: rest) (·.outline = e.outline) := by
  rw [← hk] at hends
  obtain ⟨hclosed, hequal⟩ := closed_of_ends e hends
  exact h depth (closing :: rest) hdepth hclosed hequal

/-! ### Calls -/

theorem read_constant {v : Literal} (h : t.kind.constant? = some v) :
    (Phrase.primary (.literal v)).Read [t] := by
  intro depth rest hdepth
  rcases depth with _ | depth
  · omega
  unfold Parser.primary
  refine .peek ?_
  unfold TokenKind.constant? at h
  split at h <;> cases h
  all_goals
    next hk =>
      simp only [hk]
      exact .advance (.pure rfl)

theorem read_receiver {site : Nat} (h : t.kind = .this) :
    (Phrase.primary (.this site t.line)).Read [t] := by
  intro depth rest hdepth
  rcases depth with _ | depth
  · omega
  unfold Parser.primary
  refine .peek ?_
  simp only [h]
  exact .advance (.freshSite fun _ => .pure rfl)

theorem read_reference {site : Nat} (h : t.kind = .identifier) :
    (Phrase.primary (.variable site t.toName)).Read [t] := by
  intro depth rest hdepth
  rcases depth with _ | depth
  · omega
  unfold Parser.primary
  refine .peek ?_
  simp only [h]
  exact .advance (.freshSite fun _ => .pure rfl)

theorem read_group (hopen : opening.kind = .leftParen) (he : (Phrase.expression e).Read ts)
    (hclose : closing.kind = .rightParen) :
    (Phrase.primary (.group e)).Read (opening :: (ts ++ [closing])) := by
  intro depth rest hdepth
  simp only [List.length_cons, List.length_append] at hdepth
  rcases depth with _ | depth
  · omega
  unfold Parser.primary
  refine .peek ?_
  simp only [hopen]
  refine .advance ((ended he hclose rfl (by omega)).bind fun e' he' => ?_)
  exact .expect hclose (.pure (by simp only [Expr.outline, he']))

theorem read_noCall (h : (Phrase.primary e).Read ts) : (Phrase.call e).Read ts := by
  intro depth rest site hdepth
  obtain ⟨e', site', hrun, he⟩ := h depth rest hdepth site
  exact ⟨e', depth, site', he, by omega, by simp only [Bind.bind, EStateM.bind, hrun]⟩

theorem read_get {dot : Token} (h : (Phrase.call e).Read ts) (hdot : dot.kind = .dot)
    (htitle : title.kind = .identifier) :
    (Phrase.call (.get e title.toName)).Read (ts ++ [dot, title]) := by
  intro depth rest site hdepth
  simp only [List.length_cons, List.length_append, List.length_nil] at hdepth ⊢
  obtain ⟨e', depth', site', he, hd, hrun⟩ := h depth (dot :: title :: rest) site (by omega)
  rcases depth' with _ | depth'
  · omega
  refine ⟨.get e' title.toName, depth', site', by simp only [Expr.outline, he], by omega, ?_⟩
  rw [List.append_assoc]
  refine hrun.trans ?_
  rw [Parser.callRest]
  simp [Bind.bind, EStateM.bind, peek, frontToken, hdot, advance, name, Parser.expect, htitle,
    Pure.pure, EStateM.pure, Token.toName]

theorem read_lastArgument (h : (Phrase.expression e).Read ts) :
    (Phrase.arguments [e]).Read ts := by
  intro depth room close rest hdepth hroom hclose
  rcases depth with _ | depth
  · omega
  rcases room with _ | room
  · simp at hroom
  unfold Parser.arguments
  refine (ended h hclose rfl (by omega)).last fun e' he' => ?_
  refine .refuse ?_ (.pure (by simp only [Expr.outlineAll, he']))
  simp only [List.nil_append, frontToken, List.headD_cons, hclose]
  decide

theorem read_argument {comma : Token} {es : List Expr} (h : (Phrase.expression e).Read ts)
    (hcomma : comma.kind = .comma) (hes : (Phrase.arguments es).Read us) :
    (Phrase.arguments (e :: es)).Read (ts ++ comma :: us) := by
  intro depth room close rest hdepth hroom hclose
  simp only [List.length_cons, List.length_append] at hdepth hroom
  rcases depth with _ | depth
  · omega
  rcases room with _ | room
  · omega
  unfold Parser.arguments
  refine (ended h hcomma rfl (by omega)).bind fun e' he' => ?_
  refine .accept hcomma ((hes depth room close rest (by omega) (by omega) hclose).map ?_)
  exact fun es' hes' => by simp only [Expr.outlineAll, he', hes']

theorem read_someArguments {es : List Expr} (hopens : Opens TokenKind.opensExpression ts)
    (h : (Phrase.arguments es).Read ts) (hle : es.length ≤ maxArguments) :
    (Phrase.optionalArguments es).Read ts :=
  Or.inr ⟨hopens, fun depth close rest hdepth hclose =>
    h depth maxArguments close rest hdepth hle hclose⟩

theorem read_call {callee : Expr} {es : List Expr} (h : (Phrase.call callee).Read ts)
    (hopen : opening.kind = .leftParen) (hes : (Phrase.optionalArguments es).Read us)
    (hclose : closing.kind = .rightParen) :
    (Phrase.call (.call callee closing.line es)).Read (ts ++ opening :: (us ++ [closing])) := by
  intro depth rest site hdepth
  simp only [List.length_cons, List.length_append, List.length_nil] at hdepth ⊢
  obtain ⟨callee', depth', site', hcallee, hd, hrun⟩ :=
    h depth (opening :: (us ++ closing :: rest)) site (by omega)
  rcases depth' with _ | depth'
  · omega
  rw [List.append_assoc]
  rcases hes with ⟨rfl, rfl⟩ | ⟨⟨t, us, rfl, ht⟩, hes⟩
  · refine ⟨.call callee' closing.line [], depth', site', ?_, by omega, ?_⟩
    · simp only [Expr.outline, hcallee, Expr.outlineAll]
    · refine Eq.trans ?_ (hrun.trans ?_)
      · simp
      rw [Parser.callRest]
      simp [Bind.bind, EStateM.bind, peek, frontToken, hopen, advance, Parser.expect, hclose,
        Pure.pure, EStateM.pure]
  · obtain ⟨es', site₂, hrun', hes'⟩ := hes depth' closing rest (by omega) hclose site'
    refine ⟨.call callee' closing.line es', depth', site₂, ?_, by omega, ?_⟩
    · simp only [Expr.outline, hcallee, hes']
    · refine Eq.trans ?_ (hrun.trans ?_)
      · simp
      have hne : t.kind ≠ .rightParen := by
        intro hk
        rw [hk] at ht
        cases ht
      rw [Parser.callRest]
      simp only [List.cons_append] at hrun'
      simp [Bind.bind, EStateM.bind, peek, frontToken, hopen, advance, Parser.expect, hclose,
        hne, hrun', Pure.pure, EStateM.pure]

/-! ### Operators -/

theorem callRest_eq {depth : Nat} {c : Cursor} (hopen : (frontToken c.rest).kind ≠ .leftParen)
    (hdot : (frontToken c.rest).kind ≠ .dot) : callRest e (depth + 1) c = .ok e c := by
  unfold callRest
  simp only [Bind.bind, EStateM.bind, peek]
  rfl

theorem read_noFunction (hopens : Opens TokenKind.opensCall ts) (hne : ∀ f, e ≠ .function f)
    (h : (Phrase.call e).Read ts) : (Phrase.unary e).Read ts := by
  intro depth rest hdepth hcall
  rcases depth with _ | depth
  · omega
  obtain ⟨t, us, rfl, ht⟩ := hopens
  obtain ⟨hop, hfn⟩ := UnaryOp.ofKind?_of_opensCall ht
  unfold Parser.unary
  refine .peek ?_
  simp only [hop]
  rw [if_neg hfn]
  intro site
  obtain ⟨e', depth', site', he, hd, hrun⟩ := h depth rest site (by omega)
  rcases depth' with _ | depth'
  · omega
  refine ⟨e', site', hrun.trans (callRest_eq (fun hk => ?_) fun hk => ?_), he⟩
  · obtain ⟨f, hf⟩ := hcall (Or.inl hk)
    exact hne f hf
  · obtain ⟨f, hf⟩ := hcall (Or.inr hk)
    exact hne f hf

theorem read_unary {sign : Token} {op : UnaryOp} (hop : UnaryOp.ofKind? sign.kind = some op)
    (h : (Phrase.unary e).Read ts) : (Phrase.unary (.unary op sign.line e)).Read (sign :: ts) := by
  intro depth rest hdepth hcall
  simp only [List.length_cons] at hdepth
  rcases depth with _ | depth
  · omega
  unfold Parser.unary
  refine .peek ?_
  simp only [hop]
  refine .advance ((h depth rest (by omega) (hcall.of_not_function (fun _ h => by cases h) e)).map fun e' he' => ?_)
  simp only [Expr.outline, he']

theorem read_anonymous {ps : List Name} {body : List Stmt} (hkey : key.kind = .fn)
    (hopens : Opens (· = .leftParen) ts) (h : (Phrase.function ps body).Read ts) :
    (Phrase.unary (.function (.mk none ps body key.line))).Read (key :: ts) := by
  intro depth rest hdepth hcall
  simp only [List.length_cons] at hdepth
  rcases depth with _ | depth
  · omega
  obtain ⟨t, us, rfl, ht⟩ := hopens
  unfold Parser.unary
  refine .peek ?_
  simp only [hkey, UnaryOp.ofKind?, if_true]
  refine .advance (.peek ?_)
  have hne : t.kind ≠ .identifier := by
    rw [of_decide_eq_true ht]
    decide
  rw [if_neg hne]
  exact (h depth none key.line rest (by omega)).map fun f hf => by simp only [Expr.outline, hf]

theorem read_named {ps : List Name} {body : List Stmt} (hkey : key.kind = .fn)
    (htitle : title.kind = .identifier) (h : (Phrase.function ps body).Read ts) :
    (Phrase.unary (.function (.mk (some title.toName) ps body key.line))).Read
      (key :: title :: ts) := by
  intro depth rest hdepth hcall
  simp only [List.length_cons] at hdepth
  rcases depth with _ | depth
  · omega
  unfold Parser.unary
  refine .peek ?_
  simp only [hkey, UnaryOp.ofKind?, if_true]
  refine .advance (.peek ?_)
  rw [if_pos htitle]
  refine .name htitle ((h depth (some title.toName) key.line rest (by omega)).map fun f hf => ?_)
  simp only [Expr.outline, hf]

theorem read_tightest (htight : l.tighter? = none) (h : (Phrase.unary e).Read ts) :
    (Phrase.operand l e).Read ts := by
  intro depth rest hdepth hquiet hcall
  have hle : l.tightness ≤ 5 := by cases l <;> decide
  rcases depth with _ | depth
  · omega
  unfold Parser.operand
  rw [htight]
  exact h depth rest (by omega) hcall

theorem operationRest_eq {depth : Nat} {c : Cursor}
    (h : l.operator? (frontToken c.rest).kind = none) :
    operationRest l e (depth + 1) c = .ok e c := by
  unfold operationRest
  simp only [Bind.bind, EStateM.bind, peek, h]
  rfl

theorem read_tighter {k : Level} (htight : l.tighter? = some k)
    (h : (Phrase.operation k e).Read ts) : (Phrase.operand l e).Read ts := by
  intro depth rest hdepth hquiet hcall site
  have hk := Level.tightness_tighter htight
  have hle : k.tightness ≤ 5 := by cases k <;> decide
  rw [← hk] at hquiet
  rcases depth with _ | _ | depth
  · omega
  · omega
  have hquiet' : Level.Quiet (k.tightness + 1) (frontToken rest).kind :=
    fun l' hl => hquiet l' (by omega)
  obtain ⟨e', depth', site', he, hd, hrun⟩ := h depth rest site (by omega) hquiet' hcall
  rcases depth' with _ | depth'
  · omega
  refine ⟨e', site', ?_, he⟩
  unfold Parser.operand
  rw [htight]
  exact hrun.trans (operationRest_eq (hquiet k (Nat.le_refl _)))

theorem read_first (h : (Phrase.operand l e).Read ts) : (Phrase.operation l e).Read ts := by
  intro depth rest site hdepth hquiet hcall
  obtain ⟨e', site', hrun, he⟩ := h depth rest hdepth hquiet hcall site
  refine ⟨e', depth, site', he, by omega, ?_⟩
  unfold Parser.operation
  simp only [Bind.bind, EStateM.bind, hrun]

theorem outline_join {op : InfixOp} {line : Nat} {left left' right right' : Expr}
    (hl : left'.outline = left.outline) (hr : right'.outline = right.outline) :
    (op.join line left' right').outline = (op.join line left right).outline := by
  cases op <;> simp only [InfixOp.join, Expr.outline, hl, hr]

theorem read_join {sign : Token} {op : InfixOp} {left right : Expr}
    (hleft : (Phrase.operation l left).Read ts) (hop : l.operator? sign.kind = some op)
    (hright : (Phrase.operand l right).Read us) :
    (Phrase.operation l (op.join sign.line left right)).Read (ts ++ sign :: us) := by
  intro depth rest site hdepth hquiet hcall
  simp only [List.length_cons, List.length_append] at hdepth ⊢
  have hle : l.tightness ≤ 5 := by cases l <;> decide
  obtain ⟨left', depth', site₁, hl, hd, hrun⟩ := hleft depth (sign :: (us ++ rest)) site
    (by omega) (Level.quiet_of_operator? hop) (callEnds_of_operator? left hop)
  rcases depth' with _ | depth'
  · omega
  have hcall' := hcall.of_not_function (by cases op <;> nofun) right
  obtain ⟨right', site₂, hrun', hr⟩ := hright depth' rest (by omega) hquiet hcall' site₁
  refine ⟨op.join sign.line left' right', depth', site₂, outline_join hl hr, by omega, ?_⟩
  rw [List.append_assoc]
  refine hrun.trans ?_
  rw [operationRest]
  simp only [Bind.bind, EStateM.bind, peek, frontToken, List.headD_cons, hop, advance,
    List.tail_cons, hrun']

theorem operation_read (h : (Phrase.operation .or e).Read ts) (depth : Nat) (rest : List Token)
    (hdepth : 32 * ts.length + 14 ≤ depth) (hcall : CallEnds e (frontToken rest).kind)
    (hquiet : Level.Quiet 0 (frontToken rest).kind) :
    Gives (Parser.operation .or depth) ts rest (·.outline = e.outline) := by
  intro site
  rcases depth with _ | depth
  · omega
  obtain ⟨e', depth', site', he, hd, hrun⟩ := h depth rest site (by omega)
    (fun l _ => hquiet l (Nat.zero_le _)) hcall
  rcases depth' with _ | depth'
  · omega
  exact ⟨e', site', hrun.trans (operationRest_eq (hquiet .or (Nat.zero_le _))), he⟩

/-! ### Expressions -/

theorem read_noChoice (h : (Phrase.operation .or e).Read ts) : (Phrase.ternary e).Read ts := by
  intro depth rest hdepth hclosed
  rcases depth with _ | depth
  · omega
  unfold Parser.ternary
  refine (operation_read h depth rest (by omega) hclosed.call hclosed.quiet).last fun e' he' => ?_
  exact .refuse hclosed.choice (.pure he')

theorem read_choice {question colon : Token} {c yes no : Expr}
    (hc : (Phrase.operation .or c).Read ts) (hquestion : question.kind = .question)
    (hyes : (Phrase.ternary yes).Read us) (hcolon : colon.kind = .colon)
    (hno : (Phrase.ternary no).Read vs) :
    (Phrase.ternary (.ternary c yes no)).Read (ts ++ question :: (us ++ colon :: vs)) := by
  intro depth rest hdepth hclosed
  simp only [List.length_cons, List.length_append] at hdepth
  rcases depth with _ | depth
  · omega
  have hquiet : Level.Quiet 0 question.kind := by
    rw [hquestion]
    intro l _
    cases l <;> rfl
  have hcall : CallEnds c question.kind := by
    rw [hquestion]
    rintro (hk | hk) <;> cases hk
  have hends := closed_of_ends (k := colon.kind) yes (by rw [hcolon]; rfl)
  have hclosed' := hclosed.of_not_function nofun no
  unfold Parser.ternary
  refine (operation_read hc depth (question :: (us ++ colon :: vs ++ rest)) (by omega) hcall
    hquiet).bind fun c' hc' => ?_
  refine .accept hquestion ((hyes depth (colon :: (vs ++ rest)) (by omega) hends.1).bind ?_)
  intro yes' hyes'
  refine .expect hcolon ((hno depth rest (by omega) hclosed').map fun no' hno' => ?_)
  simp only [Expr.outline, hc', hyes', hno']

/-- What is read as a call is read as a condition, through all levels of operators. -/
theorem read_ternary_of_call (hopens : Opens TokenKind.opensCall ts) (hne : ∀ f, e ≠ .function f)
    (h : (Phrase.call e).Read ts) : (Phrase.ternary e).Read ts :=
  have product := read_first (l := .product) (read_tightest rfl (read_noFunction hopens hne h))
  have sum := read_first (l := .sum) (read_tighter rfl product)
  have comparison := read_first (l := .comparison) (read_tighter rfl sum)
  have equality := read_first (l := .equality) (read_tighter rfl comparison)
  have and := read_first (l := .and) (read_tighter rfl equality)
  read_noChoice (read_first (read_tighter rfl and))

theorem read_noAssignment (h : (Phrase.ternary e).Read ts) : (Phrase.expression e).Read ts := by
  intro depth rest hdepth hclosed hequal
  rcases depth with _ | depth
  · omega
  unfold Parser.expression
  refine (h depth rest (by omega) hclosed).last fun e' he' => .lookahead ?_
  rw [if_neg hequal]
  exact .pure he'

theorem outline_variable {e : Expr} {site : Nat} {n : Name}
    (h : e.outline = (Expr.variable site n).outline) : ∃ site', e = .variable site' n := by
  cases e <;> cases h
  exact ⟨_, rfl⟩

theorem outline_get {e object : Expr} {n : Name} (h : e.outline = (Expr.get object n).outline) :
    ∃ object', e = .get object' n ∧ object'.outline = object.outline := by
  cases e <;> simp only [Expr.outline] at h <;> try cases h
  injection h with hobject hn
  exact ⟨_, by rw [hn], hobject⟩

theorem outline_named {e : Expr} {n : Name} {ps : List Name} {body : List Stmt} {line : Nat}
    (h : e.outline = (Expr.function (.mk (some n) ps body line)).outline) :
    ∃ body', e = .function (.mk (some n) ps body' line) := by
  cases e <;> simp only [Expr.outline] at h <;> try cases h
  next f =>
    cases f
    simp only [Function.outline] at h
    injection h with hf
    injection hf with hn hps hbody hline
    exact ⟨_, by rw [hn, hps, hline]⟩

theorem read_assign {sign : Token} {site : Nat} (htitle : title.kind = .identifier)
    (hsign : sign.kind = .equal) (h : (Phrase.expression e).Read ts) :
    (Phrase.expression (.assign site title.toName e)).Read (title :: sign :: ts) := by
  intro depth rest hdepth hclosed hequal
  simp only [List.length_cons] at hdepth
  rcases depth with _ | depth
  · omega
  have htarget : (Phrase.ternary (.variable site title.toName)).Read [title] :=
    read_ternary_of_call (.head htitle rfl) nofun (read_noCall (read_reference htitle))
  have hclosed' : Closed (.variable site title.toName) sign.kind := hsign ▸ closed_equal _
  have hvalue := hclosed.of_not_function nofun e
  unfold Parser.expression
  refine (htarget depth (sign :: ts ++ rest) (by simp; omega) hclosed').bind fun target ht => ?_
  obtain ⟨site', rfl⟩ := outline_variable ht
  refine .peek ?_
  rw [if_pos hsign]
  refine .advance ((h depth rest (by omega) hvalue hequal).last fun value hvalue => ?_)
  exact .freshSite fun site => .pure (by simp only [Expr.outline, hvalue])

theorem read_set {dot sign : Token} {object : Expr} (hopens : Opens TokenKind.opensCall ts)
    (hobject : (Phrase.call object).Read ts) (hdot : dot.kind = .dot)
    (htitle : title.kind = .identifier) (hsign : sign.kind = .equal)
    (h : (Phrase.expression e).Read us) :
    (Phrase.expression (.set object title.toName e)).Read
      (ts ++ dot :: title :: sign :: us) := by
  intro depth rest hdepth hclosed hequal
  simp only [List.length_cons, List.length_append] at hdepth
  rcases depth with _ | depth
  · omega
  have htarget : (Phrase.ternary (.get object title.toName)).Read (ts ++ [dot, title]) :=
    read_ternary_of_call (hopens.append _) nofun (read_get hobject hdot htitle)
  have hclosed' : Closed (.get object title.toName) sign.kind := hsign ▸ closed_equal _
  have hvalue := hclosed.of_not_function nofun e
  have hsplit : ts ++ dot :: title :: sign :: us = ts ++ [dot, title] ++ sign :: us := by simp
  rw [hsplit]
  unfold Parser.expression
  refine (htarget depth (sign :: us ++ rest) (by simp; omega) hclosed').bind fun target ht => ?_
  obtain ⟨object', rfl, hobject'⟩ := outline_get ht
  refine .peek ?_
  rw [if_pos hsign]
  refine .advance ((h depth rest (by omega) hvalue hequal).last fun value hvalue => ?_)
  exact .pure (by simp only [Expr.outline, hvalue, hobject'])

/-! ### Functions -/

theorem read_lastParameter (htitle : title.kind = .identifier) :
    (Phrase.parameters [title.toName]).Read [title] := by
  intro room rest hroom hcomma
  rcases room with _ | room
  · simp at hroom
  unfold Parser.parameters
  exact .name htitle (.refuse hcomma (.pure rfl))

theorem read_parameter {comma : Token} {ps : List Name} (htitle : title.kind = .identifier)
    (hcomma : comma.kind = .comma) (h : (Phrase.parameters ps).Read ts) :
    (Phrase.parameters (title.toName :: ps)).Read (title :: comma :: ts) := by
  intro room rest hroom hrest
  rcases room with _ | room
  · simp at hroom
  unfold Parser.parameters
  refine .name htitle (.accept hcomma ?_)
  exact (h room rest (Nat.le_of_succ_le_succ hroom) hrest).map fun ps' hps' => by rw [hps']

theorem read_someParameters {ps : List Name} (hopens : Opens (· = .identifier) ts)
    (h : (Phrase.parameters ps).Read ts) (hle : ps.length ≤ maxArguments) :
    (Phrase.optionalParameters ps).Read ts := by
  refine Or.inr ⟨hopens, fun close rest hclose => h maxArguments (close :: rest) hle ?_⟩
  simp only [frontToken, List.headD_cons, hclose]
  decide

theorem read_function {brace brace' : Token} {ps : List Name} {body : List Stmt}
    (hopen : opening.kind = .leftParen) (hps : (Phrase.optionalParameters ps).Read ts)
    (hclose : closing.kind = .rightParen) (hbrace : brace.kind = .leftBrace)
    (hbody : (Phrase.declarations body).Read us) (hbrace' : brace'.kind = .rightBrace) :
    (Phrase.function ps body).Read (opening :: (ts ++ closing :: brace :: (us ++ [brace']))) := by
  intro depth name line rest hdepth
  simp only [List.length_cons, List.length_append] at hdepth
  rcases depth with _ | depth
  · omega
  have hend (ps' : List Name) (hps' : ps' = ps) : Gives (do
        let _ ← Parser.expect .rightParen .parametersClose
        let _ ← Parser.expect .leftBrace .functionBody
        let body ← block depth
        return Function.mk name ps' body line)
      (closing :: brace :: (us ++ [brace'])) rest
      (·.outline = (Function.mk name ps body line).outline) := by
    refine .expect hclose (.expect hbrace ((hbody depth brace' rest (by omega) hbrace').map ?_))
    exact fun body' hbody' => by simp only [Function.outline, hbody', hps']
  unfold Parser.function
  refine .expect hopen ?_
  rcases hps with ⟨rfl, rfl⟩ | ⟨⟨t, ts, rfl, ht⟩, hps⟩
  · refine .peek ?_
    rw [if_pos hclose]
    exact hend [] rfl
  · refine .peek ?_
    have hne : t.kind ≠ .rightParen := by
      rw [of_decide_eq_true ht]
      decide
    rw [if_neg hne]
    exact (hps closing (brace :: (us ++ [brace']) ++ rest) hclose).bind hend

theorem read_methods_nil : (Phrase.methods []).Read [] := by
  intro depth brace rest hdepth hbrace
  rcases depth with _ | depth
  · omega
  unfold Parser.methods
  refine .peek ?_
  simp only [hbrace]
  exact .advance (.pure rfl)

/-- The methods after a title: the function that it names, and the methods that follow. -/
theorem gives_method {ps : List Name} {body : List Stmt} {fs : List Function} {brace : Token}
    {rest : List Token} {depth : Nat} (hf : (Phrase.function ps body).Read ts)
    (hfs : (Phrase.methods fs).Read us) (hbrace : brace.kind = .rightBrace)
    (hdepth : 32 * (ts.length + us.length) + 1 ≤ depth) :
    Gives (do
        let method ← Parser.function (some title.toName) title.toName.line depth
        return method :: (← Parser.methods depth)) (ts ++ (us ++ [brace])) rest
      (Function.outlineAll · =
        Function.outlineAll (.mk (some title.toName) ps body title.line :: fs)) := by
  refine (hf depth (some title.toName) title.line (us ++ [brace] ++ rest) (by omega)).bind ?_
  intro f hf
  refine (hfs depth brace rest (by omega) hbrace).map fun fs' hfs' => ?_
  simp only [Function.outlineAll, hf, hfs']

theorem read_method {ps : List Name} {body : List Stmt} {fs : List Function}
    (htitle : title.kind = .identifier) (hf : (Phrase.function ps body).Read ts)
    (hfs : (Phrase.methods fs).Read us) :
    (Phrase.methods (.mk (some title.toName) ps body title.line :: fs)).Read
      (title :: (ts ++ us)) := by
  intro depth brace rest hdepth hbrace
  simp only [List.length_cons, List.length_append] at hdepth
  rcases depth with _ | depth
  · omega
  rw [List.cons_append, List.append_assoc]
  unfold Parser.methods
  refine .peek ?_
  simp only [htitle]
  refine .refuse ?_ (.name htitle (gives_method hf hfs hbrace (by omega)))
  simp only [List.cons_append, frontToken, List.headD_cons, htitle]
  decide

theorem read_fnMethod {ps : List Name} {body : List Stmt} {fs : List Function}
    (hkey : key.kind = .fn) (htitle : title.kind = .identifier)
    (hf : (Phrase.function ps body).Read ts) (hfs : (Phrase.methods fs).Read us) :
    (Phrase.methods (.mk (some title.toName) ps body title.line :: fs)).Read
      (key :: title :: (ts ++ us)) := by
  intro depth brace rest hdepth hbrace
  simp only [List.length_cons, List.length_append] at hdepth
  rcases depth with _ | depth
  · omega
  rw [List.cons_append, List.cons_append, List.append_assoc]
  unfold Parser.methods
  refine .peek ?_
  simp only [hkey]
  exact .accept hkey (.name htitle (gives_method hf hfs hbrace (by omega)))

/-! ### Statements -/

theorem read_unset {semicolon : Token} (htitle : title.kind = .identifier)
    (hsemicolon : semicolon.kind = .semicolon) :
    (Phrase.binding title.toName none).Read [title, semicolon] := by
  intro depth rest hdepth
  rcases depth with _ | depth
  · omega
  unfold Parser.variableRest
  refine .name htitle (.refuse ?_ (.expect hsemicolon (.pure ⟨rfl, rfl⟩)))
  simp only [List.cons_append, frontToken, List.headD_cons, hsemicolon]
  decide

theorem read_initialized {sign semicolon : Token} (htitle : title.kind = .identifier)
    (hsign : sign.kind = .equal) (h : (Phrase.expression e).Read ts)
    (hsemicolon : semicolon.kind = .semicolon) :
    (Phrase.binding title.toName (some e)).Read (title :: sign :: (ts ++ [semicolon])) := by
  intro depth rest hdepth
  simp only [List.length_cons, List.length_append] at hdepth
  rcases depth with _ | depth
  · omega
  unfold Parser.variableRest
  refine .name htitle (.accept hsign ?_)
  refine (ended h hsemicolon rfl (by omega)).bind fun e' he' => ?_
  exact .expect hsemicolon (.pure ⟨rfl, by simp only [Expr.outlineOpt, he']⟩)

theorem read_noExpression : (Phrase.optionalExpression none).Read [] := by
  intro depth close what t rest hdepth _ ht
  rcases depth with _ | depth
  · omega
  unfold Parser.optional
  exact .accept ht (.pure rfl)

theorem read_someExpression (hopens : Opens TokenKind.opensExpression ts)
    (h : (Phrase.expression e).Read ts) : (Phrase.optionalExpression (some e)).Read ts := by
  intro depth close what t rest hdepth hclose ht
  rcases depth with _ | depth
  · omega
  obtain ⟨front, us, rfl, hfront⟩ := hopens
  have hne : front.kind ≠ close := by
    rintro rfl
    rw [TokenKind.not_ends_of_opensExpression hfront] at hclose
    cases hclose
  unfold Parser.optional
  refine .refuse hne ?_
  refine (ended h ht hclose (by omega)).bind fun e' he' => ?_
  exact .expect ht (.pure (by simp only [Expr.outlineOpt, he']))

theorem read_while {condition : Expr} {bare : Bool} {body : Stmt} (hkey : key.kind = .while)
    (hopen : opening.kind = .leftParen) (hc : (Phrase.expression condition).Read ts)
    (hclose : closing.kind = .rightParen) (h : (Phrase.statement bare body).Read us) :
    (Phrase.statement bare (.while condition body)).Read
      (key :: opening :: (ts ++ closing :: us)) := by
  intro depth rest hdepth hafter
  simp only [List.length_cons, List.length_append] at hdepth
  rcases depth with _ | depth
  · omega
  unfold Parser.statement
  refine .peek ?_
  simp only [hkey]
  refine .advance (.expect hopen ?_)
  refine (ended hc hclose rfl (by omega)).bind fun c' hc' => ?_
  refine .expect hclose ((h depth rest (by omega) (hafter.of_part .while)).map fun s' hs' => ?_)
  simp only [Stmt.outline, hc', hs']

theorem read_if {condition : Expr} {bare : Bool} {yes : Stmt} (hkey : key.kind = .if)
    (hopen : opening.kind = .leftParen) (hc : (Phrase.expression condition).Read ts)
    (hclose : closing.kind = .rightParen) (h : (Phrase.statement bare yes).Read us) :
    (Phrase.statement bare (.if condition yes none)).Read
      (key :: opening :: (ts ++ closing :: us)) := by
  intro depth rest hdepth hafter
  simp only [List.length_cons, List.length_append] at hdepth
  rcases depth with _ | depth
  · omega
  unfold Parser.statement
  refine .peek ?_
  simp only [hkey]
  refine .advance (.expect hopen ?_)
  refine (ended hc hclose rfl (by omega)).bind fun c' hc' => ?_
  refine .expect hclose ((h depth rest (by omega) (hafter.of_part fun _ => .if)).last ?_)
  intro yes' hyes'
  refine .refuse (hafter.dangling .if) (.pure ?_)
  simp only [Stmt.outline, Stmt.outlineOpt, hc', hyes']

theorem read_ifElse {word : Token} {condition : Expr} {bare bare' : Bool} {yes no : Stmt}
    (hkey : key.kind = .if) (hopen : opening.kind = .leftParen)
    (hc : (Phrase.expression condition).Read ts) (hclose : closing.kind = .rightParen)
    (hyes : (Phrase.statement bare yes).Read us) (hdangling : ¬yes.EndsOpen)
    (hword : word.kind = .else) (hno : (Phrase.statement bare' no).Read vs) :
    (Phrase.statement bare' (.if condition yes (some no))).Read
      (key :: opening :: (ts ++ closing :: (us ++ word :: vs))) := by
  intro depth rest hdepth hafter
  simp only [List.length_cons, List.length_append] at hdepth
  rcases depth with _ | depth
  · omega
  have hafter' : After bare yes word.kind :=
    .of_kind (Or.inl hword) fun h => absurd h hdangling
  unfold Parser.statement
  refine .peek ?_
  simp only [hkey]
  refine .advance (.expect hopen ?_)
  refine (ended hc hclose rfl (by omega)).bind ?_
  intro c' hc'
  refine .expect hclose ((hyes depth (word :: vs ++ rest) (by omega) hafter').bind ?_)
  intro yes' hyes'
  refine .accept hword ((hno depth rest (by omega) (hafter.of_part .else)).map fun no' hno' => ?_)
  simp only [Stmt.outline, Stmt.outlineOpt, hc', hyes', hno']

theorem read_for {word semicolon : Token} {name : Name} {value condition step : Option Expr}
    {bare : Bool} {body : Stmt} (hkey : key.kind = .for) (hopen : opening.kind = .leftParen)
    (hword : word.kind = .let) (hb : (Phrase.binding name value).Read ts)
    (hc : (Phrase.optionalExpression condition).Read us) (hsemicolon : semicolon.kind = .semicolon)
    (hstep : (Phrase.optionalExpression step).Read vs) (hclose : closing.kind = .rightParen)
    (h : (Phrase.statement bare body).Read ws) :
    (Phrase.statement bare (.for name value condition step body)).Read
      (key :: opening :: word :: (ts ++ (us ++ semicolon :: (vs ++ closing :: ws)))) := by
  intro depth rest hdepth hafter
  simp only [List.length_cons, List.length_append] at hdepth
  rcases depth with _ | depth
  · omega
  -- the closing token of each clause is read with the clause
  have hsplit : ts ++ (us ++ semicolon :: (vs ++ closing :: ws)) =
      ts ++ ((us ++ [semicolon]) ++ ((vs ++ [closing]) ++ ws)) := by simp
  rw [hsplit]
  unfold Parser.statement
  refine .peek ?_
  simp only [hkey]
  refine .advance (.expect hopen (.expect hword ?_))
  refine (hb depth _ (by omega)).bind ?_
  rintro ⟨name', value'⟩ ⟨rfl, hvalue⟩
  refine (hc depth .semicolon .forCondition semicolon _ (by omega) rfl hsemicolon).bind ?_
  intro condition' hcondition'
  refine (hstep depth .rightParen .forClose closing _ (by omega) rfl hclose).bind ?_
  intro step' hstep'
  refine (h depth rest (by omega) (hafter.of_part .for)).map fun body' hbody' => ?_
  simp only [Stmt.outline, hvalue, hcondition', hstep', hbody']

theorem read_return {semicolon : Token} {value : Option Expr} (hkey : key.kind = .return)
    (h : (Phrase.optionalExpression value).Read ts) (hsemicolon : semicolon.kind = .semicolon) :
    (Phrase.statement false (.return key.line value)).Read (key :: (ts ++ [semicolon])) := by
  intro depth rest hdepth _
  simp only [List.length_cons, List.length_append] at hdepth
  rcases depth with _ | depth
  · omega
  unfold Parser.statement
  refine .peek ?_
  simp only [hkey]
  refine .advance ((h depth .semicolon .returnEnd semicolon rest (by omega) rfl hsemicolon).map ?_)
  exact fun value' hvalue' => by simp only [Stmt.outline, hvalue']

theorem read_print {semicolon : Token} (hkey : key.kind = .print)
    (h : (Phrase.expression e).Read ts) (hsemicolon : semicolon.kind = .semicolon) :
    (Phrase.statement false (.print e)).Read (key :: (ts ++ [semicolon])) := by
  intro depth rest hdepth _
  simp only [List.length_cons, List.length_append] at hdepth
  rcases depth with _ | depth
  · omega
  unfold Parser.statement
  refine .peek ?_
  simp only [hkey]
  refine .advance ((ended h hsemicolon rfl (by omega)).bind fun e' he' => ?_)
  exact .expect hsemicolon (.pure (by simp only [Stmt.outline, he']))

theorem read_break {semicolon : Token} (hkey : key.kind = .break)
    (hsemicolon : semicolon.kind = .semicolon) :
    (Phrase.statement false (.break key.line)).Read [key, semicolon] := by
  intro depth rest hdepth _
  rcases depth with _ | depth
  · omega
  unfold Parser.statement
  refine .peek ?_
  simp only [hkey]
  exact .advance (.expect hsemicolon (.pure rfl))

theorem read_continue {semicolon : Token} (hkey : key.kind = .continue)
    (hsemicolon : semicolon.kind = .semicolon) :
    (Phrase.statement false (.continue key.line)).Read [key, semicolon] := by
  intro depth rest hdepth _
  rcases depth with _ | depth
  · omega
  unfold Parser.statement
  refine .peek ?_
  simp only [hkey]
  exact .advance (.expect hsemicolon (.pure rfl))

theorem read_block {body : List Stmt} (hopen : opening.kind = .leftBrace)
    (h : (Phrase.declarations body).Read ts) (hclose : closing.kind = .rightBrace) :
    (Phrase.statement false (.block body)).Read (opening :: (ts ++ [closing])) := by
  intro depth rest hdepth _
  simp only [List.length_cons, List.length_append, List.length_nil] at hdepth
  rcases depth with _ | depth
  · omega
  unfold Parser.statement
  refine .peek ?_
  simp only [hopen]
  refine .advance ((h depth closing rest (by omega) hclose).map fun body' hbody' => ?_)
  simp only [Stmt.outline, hbody']

/-- A statement that starts as an expression does is read as one. -/
theorem gives_statement {depth : Nat} {rest : List Token} {R : Stmt → Prop}
    (hopens : Opens TokenKind.opensExpression ts)
    (h : Gives (do
        let e ← Parser.expression depth
        match e with
        | .function (.mk (some _) _ _ _) =>
          let _ ← Parser.accept .semicolon
          return Stmt.expression e
        | _ =>
          let _ ← Parser.expect .semicolon .statementEnd
          return Stmt.expression e) ts rest R) :
    Gives (Parser.statement (depth + 1)) ts rest R := by
  obtain ⟨t, us, rfl, ht⟩ := hopens
  unfold Parser.statement
  refine .peek ?_
  split
  iterate 8
    · next hk =>
      rw [hk] at ht
      cases ht
  · exact h

theorem read_expression {semicolon : Token} (hopens : Opens TokenKind.opensExpression ts)
    (h : (Phrase.expression e).Read ts) (hsemicolon : semicolon.kind = .semicolon) :
    (Phrase.statement false (.expression e)).Read (ts ++ [semicolon]) := by
  intro depth rest hdepth _
  simp only [List.length_append] at hdepth
  rcases depth with _ | depth
  · omega
  refine gives_statement (hopens.append _) ?_
  refine (ended h hsemicolon rfl (by omega)).bind fun e' he' => ?_
  split
  · exact .accept hsemicolon (.pure (by simp only [Stmt.outline, he']))
  · exact .expect hsemicolon (.pure (by simp only [Stmt.outline, he']))

theorem read_bare {name : Name} {ps : List Name} {body : List Stmt} {line : Nat}
    (hopens : Opens TokenKind.opensExpression ts)
    (h : (Phrase.expression (.function (.mk (some name) ps body line))).Read ts) :
    (Phrase.statement true (.expression (.function (.mk (some name) ps body line)))).Read ts := by
  intro depth rest hdepth hafter
  rcases depth with _ | depth
  · omega
  obtain ⟨hquiet, hchoice, hequal, hsemicolon⟩ := hafter.closed rfl
  refine gives_statement hopens ?_
  refine (h depth rest (by omega) ⟨fun _ => ⟨_, rfl⟩, hquiet, hchoice⟩ hequal).last ?_
  intro e' he'
  obtain ⟨body', rfl⟩ := outline_named he'
  exact .refuse hsemicolon (.pure (by simp only [Stmt.outline, he']))

/-! ### Declarations -/

theorem read_struct {fs : List Function} (hkey : key.kind = .struct)
    (htitle : title.kind = .identifier) (hopen : opening.kind = .leftBrace)
    (h : (Phrase.methods fs).Read ts) (hclose : closing.kind = .rightBrace) :
    (Phrase.declaration false (.struct title.toName fs)).Read
      (key :: title :: opening :: (ts ++ [closing])) := by
  intro depth rest hdepth _
  simp only [List.length_cons, List.length_append] at hdepth
  rcases depth with _ | depth
  · omega
  unfold Parser.declaration
  refine .peek ?_
  simp only [hkey]
  refine .advance (.name htitle (.expect hopen ((h depth closing rest (by omega) hclose).map ?_)))
  exact fun fs' hfs' => by simp only [Stmt.outline, hfs']

theorem read_let {name : Name} {value : Option Expr} (hkey : key.kind = .let)
    (h : (Phrase.binding name value).Read ts) :
    (Phrase.declaration false (.let name value)).Read (key :: ts) := by
  intro depth rest hdepth _
  simp only [List.length_cons] at hdepth
  rcases depth with _ | depth
  · omega
  unfold Parser.declaration
  refine .peek ?_
  simp only [hkey]
  refine .advance ((h depth rest (by omega)).map ?_)
  rintro ⟨name', value'⟩ ⟨rfl, hvalue⟩
  simp only [Stmt.outline, hvalue]

theorem read_statement {bare : Bool} {s : Stmt} (hopens : Opens TokenKind.opensStatement ts)
    (h : (Phrase.statement bare s).Read ts) : (Phrase.declaration bare s).Read ts := by
  intro depth rest hdepth hafter
  rcases depth with _ | depth
  · omega
  obtain ⟨t, us, rfl, ht⟩ := hopens
  unfold Parser.declaration
  refine .peek ?_
  split
  iterate 2
    · next hk =>
      rw [hk] at ht
      cases ht
  · exact h depth rest (by omega) hafter

theorem read_nil : (Phrase.declarations []).Read [] := by
  intro depth brace rest hdepth hbrace
  rcases depth with _ | depth
  · omega
  unfold Parser.block
  refine .peek ?_
  simp only [hbrace]
  exact .advance (.pure rfl)

/-- What follows a declaration, up to a token that ends the list, does not belong to it. -/
theorem after_declaration {bare : Bool} {s : Stmt} {rest : List Token}
    (hts : ts = [] ∨ Opens TokenKind.opensDeclaration ts)
    (hjoins : bare = true → ¬(frontToken ts).kind.Joins)
    (hrest : (frontToken rest).kind = .rightBrace ∨ (frontToken rest).kind = .endOfFile) :
    After bare s (frontToken (ts ++ rest)).kind := by
  rcases hts with rfl | ⟨t, us, rfl, ht⟩
  · rw [List.nil_append]
    refine .of_kind (Or.inr hrest) fun _ helse => ?_
    rcases hrest with hrest | hrest <;> cases hrest.symm.trans helse
  · have hne {k : TokenKind} (hk : k.opensDeclaration = false) : t.kind ≠ k := by
      rintro rfl
      rw [ht] at hk
      cases hk
    exact ⟨fun hbare => ⟨Level.not_joins_iff.1 (hjoins hbare), hne rfl, hne rfl, hne rfl⟩,
      fun _ => hne rfl⟩

theorem read_cons {bare : Bool} {s : Stmt} {ss : List Stmt}
    (hopens : Opens TokenKind.opensDeclaration ts) (h : (Phrase.declaration bare s).Read ts)
    (hus : us = [] ∨ Opens TokenKind.opensDeclaration us) (hss : (Phrase.declarations ss).Read us)
    (hjoins : bare = true → ¬(frontToken us).kind.Joins) :
    (Phrase.declarations (s :: ss)).Read (ts ++ us) := by
  intro depth brace rest hdepth hbrace
  obtain ⟨t, ts, rfl, ht⟩ := hopens
  simp only [List.length_cons, List.length_append] at hdepth
  rcases depth with _ | depth
  · omega
  have hafter : After bare s (frontToken (us ++ ([brace] ++ rest))).kind :=
    after_declaration hus hjoins (Or.inl hbrace)
  rw [List.append_assoc]
  unfold Parser.block
  refine .peek ?_
  split
  iterate 2
    · next hk =>
      rw [hk] at ht
      cases ht
  · rw [← List.append_assoc] at hafter
    refine (h depth _ (by simp; omega) hafter).bind fun s' hs' => ?_
    refine (hss depth brace rest (by omega) hbrace).map fun ss' hss' => ?_
    simp only [Stmt.outlineAll, hs', hss']

end Phrase

/-- **The rule of a phrase reads what derives it**, and gives its tree. -/
theorem Derives.read {p : Phrase} {ts : List Token} (h : Derives true p ts) : p.Read ts := by
  induction h with
  | nil => exact Phrase.read_nil
  | cons hs hss hjoins ihs ihss =>
    exact Phrase.read_cons hs.starts ihs hss.starts ihss (hjoins rfl)
  | struct hkey htitle hopen _ hclose ih => exact Phrase.read_struct hkey htitle hopen ih hclose
  | «let» hkey _ ih => exact Phrase.read_let hkey ih
  | statement hs ih => exact Phrase.read_statement hs.starts ih
  | noMethods => exact Phrase.read_methods_nil
  | method htitle _ _ ihf ihfs => exact Phrase.read_method htitle ihf ihfs
  | fnMethod hkey htitle _ _ ihf ihfs => exact Phrase.read_fnMethod hkey htitle ihf ihfs
  | unset htitle hsemicolon => exact Phrase.read_unset htitle hsemicolon
  | initialized htitle hsign _ hsemicolon ih =>
    exact Phrase.read_initialized htitle hsign ih hsemicolon
  | «for» hkey hopen hword _ _ hsemicolon _ hclose _ ihb ihc ihs ih =>
    exact Phrase.read_for hkey hopen hword ihb ihc hsemicolon ihs hclose ih
  | «while» hkey hopen _ hclose _ ihc ih => exact Phrase.read_while hkey hopen ihc hclose ih
  | «if» hkey hopen _ hclose _ ihc ih => exact Phrase.read_if hkey hopen ihc hclose ih
  | ifElse hkey hopen _ hclose _ hdangling hword _ ihc ihyes ihno =>
    exact Phrase.read_ifElse hkey hopen ihc hclose ihyes (hdangling rfl) hword ihno
  | print hkey _ hsemicolon ih => exact Phrase.read_print hkey ih hsemicolon
  | «return» hkey _ hsemicolon ih => exact Phrase.read_return hkey ih hsemicolon
  | «break» hkey hsemicolon => exact Phrase.read_break hkey hsemicolon
  | «continue» hkey hsemicolon => exact Phrase.read_continue hkey hsemicolon
  | block hopen _ hclose ih => exact Phrase.read_block hopen ih hclose
  | expression he hsemicolon ih => exact Phrase.read_expression he.starts ih hsemicolon
  | bare he ih => exact Phrase.read_bare he.starts ih
  | noExpression => exact Phrase.read_noExpression
  | someExpression he ih => exact Phrase.read_someExpression he.starts ih
  | assign htitle hsign _ ih => exact Phrase.read_assign htitle hsign ih
  | set ho hdot htitle hsign _ iho ih =>
    exact Phrase.read_set ho.starts iho hdot htitle hsign ih
  | noAssignment _ ih => exact Phrase.read_noAssignment ih
  | choice _ hquestion _ hcolon _ ihc ihyes ihno =>
    exact Phrase.read_choice ihc hquestion ihyes hcolon ihno
  | noChoice _ ih => exact Phrase.read_noChoice ih
  | first _ ih => exact Phrase.read_first ih
  | join _ hop _ ihl ihr => exact Phrase.read_join ihl hop ihr
  | tighter htight _ ih => exact Phrase.read_tighter htight ih
  | tightest htight _ ih => exact Phrase.read_tightest htight ih
  | unary hop _ ih => exact Phrase.read_unary hop ih
  | anonymous hkey hf ih => exact Phrase.read_anonymous hkey hf.starts ih
  | named hkey htitle _ ih => exact Phrase.read_named hkey htitle ih
  | noFunction he ih => exact Phrase.read_noFunction he.starts he.not_function ih
  | function hopen _ hclose hbrace _ hbrace' ihps ih =>
    exact Phrase.read_function hopen ihps hclose hbrace ih hbrace'
  | noParameters => exact Or.inl ⟨rfl, rfl⟩
  | someParameters hps hle ih => exact Phrase.read_someParameters hps.starts ih hle
  | lastParameter htitle => exact Phrase.read_lastParameter htitle
  | parameter htitle hcomma _ ih => exact Phrase.read_parameter htitle hcomma ih
  | noCall _ ih => exact Phrase.read_noCall ih
  | call _ hopen _ hclose ih ihes => exact Phrase.read_call ih hopen ihes hclose
  | get _ hdot htitle ih => exact Phrase.read_get ih hdot htitle
  | noArguments => exact Or.inl ⟨rfl, rfl⟩
  | someArguments hes hle ih => exact Phrase.read_someArguments hes.starts ih hle
  | lastArgument _ ih => exact Phrase.read_lastArgument ih
  | argument _ hcomma _ ih ihes => exact Phrase.read_argument ih hcomma ihes
  | constant hv => exact Phrase.read_constant hv
  | receiver ht => exact Phrase.read_receiver ht
  | reference ht => exact Phrase.read_reference ht
  | group hopen _ hclose ih => exact Phrase.read_group hopen ih hclose

/-! ## Whole programs -/

theorem parseUpTo_read {depth : Nat} {eof : Token} (heof : eof.kind = .endOfFile) :
    ∀ {ss : List Stmt} {ts : List Token} (count site : Nat), Derives true (.declarations ss) ts →
      ts.length ≤ count → 32 * ts.length + 18 ≤ depth →
      ∃ ss' site', parseUpTo depth count ⟨ts ++ [eof], site⟩ = ((ss', none), ⟨[eof], site'⟩) ∧
        Stmt.outlineAll ss' = Stmt.outlineAll ss := by
  intro ss
  induction ss with
  | nil =>
    intro ts count site h _ _
    cases h
    refine ⟨[], site, ?_, rfl⟩
    cases count with
    | zero => rfl
    | succ count => simp [parseUpTo, atEnd, frontToken, heof]
  | cons s ss ih =>
    intro ts count site h hcount hdepth
    cases h with
    | @cons bare _ _ ts us hs hss hjoins =>
      obtain ⟨t, vs, rfl, ht⟩ := hs.starts
      simp only [List.length_append, List.length_cons] at hcount hdepth
      rcases count with _ | count
      · omega
      have hafter : After bare s (frontToken (us ++ [eof])).kind :=
        Phrase.after_declaration hss.starts (hjoins rfl) (Or.inr heof)
      obtain ⟨s', site₁, hrun, hs'⟩ :=
        hs.read depth (us ++ [eof]) (by simp only [List.length_cons]; omega) hafter site
      obtain ⟨ss', site₂, hrun', hss'⟩ := ih count site₁ hss (by omega) (by omega)
      have hne : atEnd (t :: vs ++ us ++ [eof]) = false := by
        have := (Derives.cons hs hss hjoins).no_end t (by simp)
        simpa [atEnd, frontToken] using this
      refine ⟨s' :: ss', site₂, ?_, by simp only [Stmt.outlineAll, hs', hss']⟩
      rw [parseUpTo, hne, List.append_assoc, hrun]
      simp only [hrun', Bool.false_eq_true, if_false]

theorem parse_read {ts : List Token} {eof : Token} {ss : List Stmt} (site : Nat)
    (h : Derives true (.declarations ss) ts) (heof : eof.kind = .endOfFile) :
    ∃ ss' site', parse site (ts ++ [eof]) = (.ok ss', site') ∧
      Stmt.outlineAll ss' = Stmt.outlineAll ss := by
  have hdepth : 32 * ts.length + 18 ≤ Parser.depthBound (ts ++ [eof]) := by
    simp only [Parser.depthBound, List.length_append]
    omega
  obtain ⟨ss', site', hrun, hss⟩ := parseUpTo_read heof (ts ++ [eof]).length site h
    (by simp) hdepth
  refine ⟨ss', site', ?_, hss⟩
  simp only [parse, parsePartial, hrun]

end Scriptling
