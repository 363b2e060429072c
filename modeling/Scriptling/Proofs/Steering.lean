/-
  Steering — what can come next tells the parser where to go.

  What is still to be read is kept as a set of continuations: the lists of tokens that would
  complete what was read.

  * `Narrows`: at a given next token, some continuations are all that there are;
  * `Steers`: a rule of the parser takes tokens and leaves the continuations that go on from there;
    if it fails, then some list would have continued, but none that starts with the token at hand;
  * `Steers.bind` and the other laws: how this passes from the parts of a rule to the rule.
-/
import Scriptling.Proofs.Forms

namespace Scriptling

/-! ## Continuations -/

/-- No continuation starts with a token of the kind. -/
def Refuses (K : List Token → Prop) (k : TokenKind) : Prop :=
  ∀ v, (frontToken v).kind = k → ¬ K v

/-- All continuations `A` that start with a token of the kind are among `A'`, of which all are. -/
def Narrows (k : TokenKind) (A A' : List Token → Prop) : Prop :=
  (∀ v, A' v → A v) ∧ ∀ v, (frontToken v).kind = k → A v → A' v

section
variable {K L A A' A'' B B' : List Token → Prop} {k : TokenKind} {f g : Form} {r : Rule}

theorem refuses_spells (hopens : Form.opens f k = false)
    (hK : Form.nullable f = true → Refuses K k) : Refuses (Spells K f) k := by
  rintro v rfl h
  rcases h.front with ho | ⟨hn, hv⟩
  · rw [hopens] at ho
    cases ho
  · exact hK hn v rfl hv

theorem refuses_of_not_nullable (hopens : Form.opens f k = false)
    (hf : Form.nullable f = false) : Refuses (Spells K f) k :=
  refuses_spells hopens fun h => absurd (hf.symm.trans h) Bool.false_ne_true

theorem Narrows.of_iff (h : ∀ v, A v ↔ A' v) : Narrows k A A' :=
  ⟨fun v => (h v).2, fun v _ => (h v).1⟩

theorem Narrows.trans (h : Narrows k A A') (h' : Narrows k A' A'') : Narrows k A A'' :=
  ⟨fun v hv => h.1 v (h'.1 v hv), fun v hk hv => h'.2 v hk (h.2 v hk hv)⟩

theorem Narrows.or (h : Narrows k A A') (h' : Narrows k B B') :
    Narrows k (fun v => A v ∨ B v) (fun v => A' v ∨ B' v) :=
  ⟨fun v => Or.imp (h.1 v) (h'.1 v), fun v hk => Or.imp (h.2 v hk) (h'.2 v hk)⟩

theorem Narrows.left (h : Refuses B k) : Narrows k (fun v => A v ∨ B v) A :=
  ⟨fun _ => .inl, fun v hk hv => hv.resolve_right (h v hk)⟩

theorem Narrows.right (h : Refuses A k) : Narrows k (fun v => A v ∨ B v) B :=
  ⟨fun _ => .inr, fun v hk hv => hv.resolve_left (h v hk)⟩

theorem refuses_kind {k' : TokenKind} (h : k ≠ k') : Refuses (Spells K (.kind k' :: f)) k :=
  refuses_of_not_nullable
    (by simp [Form.opens, Symbol.opens, Symbol.nullable, Terminal.accepts, h]) rfl

/-- A continuation is one of two kinds that a form ends with. -/
theorem spells_or {v : List Token} :
    Spells (fun v => K v ∨ L v) f v ↔ Spells K f v ∨ Spells L f v := by
  constructor
  · intro h
    induction h with
    | done h => exact h.imp .done .done
    | token ht _ ih => exact ih.imp (.token ht) (.token ht)
    | rule hf _ ih => exact ih.imp (.rule hf) (.rule hf)
  · rintro (h | h)
    · exact h.mono fun _ => .inl
    · exact h.mono fun _ => .inr

/-- At a token that only one production can start with, a rule is that production. -/
theorem narrows_rule (hf : f ∈ productions r)
    (hothers : ∀ f' ∈ productions r, f' = f ∨ Form.opens f' k = false)
    (hK : r.nullable = true → f = [] ∨ Refuses K k) :
    Narrows k (Spells K [.rule r]) (Spells K f) := by
  refine ⟨fun v h => .rule hf (by rwa [List.append_nil]), ?_⟩
  rintro v rfl h
  obtain ⟨f', hf', h⟩ := spells_rule.1 h
  rw [List.append_nil] at h
  rcases hothers f' hf' with rfl | hopens
  · exact h
  rcases h.front with ho | ⟨hn, hv⟩
  · rw [hopens] at ho
    cases ho
  · -- the rule spells nothing
    obtain rfl := eq_nil_of_nullable hf' hn
    rcases hK (decide_eq_true hf') with rfl | hK
    · exact h
    · exact absurd hv (hK v rfl)

theorem narrows_production (hf : f ∈ productions r)
    (hothers : ∀ f' ∈ productions r, f' = f ∨ Form.opens f' k = false)
    (hr : r.nullable = false) : Narrows k (Spells K [.rule r]) (Spells K f) :=
  narrows_rule hf hothers fun h => absurd (hr.symm.trans h) Bool.false_ne_true

/-- Where nothing else goes on, what is optional is there. -/
theorem narrows_present (hr : productions r = [[], f]) (hK : Refuses K k) :
    Narrows k (Spells K [.rule r]) (Spells K f) :=
  narrows_rule (by rw [hr]; exact .tail _ (.head _)) (by rw [hr]; simp [Form.opens])
    fun _ => .inr hK

/-- What a rule comes to, it comes to at the front of a form. -/
theorem Narrows.first (h : Narrows k (Spells (Spells K g) [.rule r]) (Spells (Spells K g) f)) :
    Narrows k (Spells K (.rule r :: g)) (Spells K (f ++ g)) :=
  (Narrows.of_iff fun _ => spells_cons).trans (h.trans (.of_iff fun _ => spells_append.symm))

/-- At a token that it cannot start with, a rule is left out. -/
theorem narrows_skip (hr : r.nullable = true) (hk : r.opens k = false) :
    Narrows k (Spells K (.rule r :: g)) (Spells K g) := by
  refine ⟨fun v h => spells_skip hr h, ?_⟩
  rintro v rfl h
  rcases (spells_cons.1 h).front with ho | ⟨-, hv⟩
  · simp [Form.opens, Symbol.opens, Symbol.nullable, hr, hk] at ho
  · exact hv

theorem narrows_skip_last (hr : r.nullable = true) (hk : r.opens k = false) :
    Narrows k (Spells K [.rule r]) K :=
  (narrows_skip hr hk).trans (.of_iff fun _ => spells_nil)

end

/-! ## Steered rules -/

/-- A fault other than that something was expected. -/
def Error.IsLimit (e : Error) : Prop := ∃ (t : Token) (f : SyntaxFault),
  e = t.fault f ∧ ∀ what, f ≠ .expected what

/-- How a rule ends that was started where the continuations are `A`.  It leaves tokens before
    which the continuations are `B` of its result, as far as the next token can tell.  If it fails
    with something expected, then it does so where a list would have continued, but none that starts
    with the next token. -/
def Led {α : Type} (ts : List Token) (A : List Token → Prop) (B : α → List Token → Prop) :
    EStateM.Result Error Cursor α → Prop
  | .ok a c => ∃ us, ts = us ++ c.rest ∧ Narrows (frontToken c.rest).kind (A <| us ++ ·) (B a)
  | .error e c => e.IsLimit ∨ ∃ us what, ts = us ++ c.rest ∧
    e = (frontToken c.rest).fault (.expected what) ∧ (∃ v, A (us ++ v)) ∧
    Refuses (A <| us ++ ·) (frontToken c.rest).kind

/-- **A rule is steered** from continuations to continuations. -/
def Steers {α : Type} (ts : List Token) (p : Parser α) (A : List Token → Prop)
    (B : α → List Token → Prop) : Prop := ∀ site, Led ts A B (p ⟨ts, site⟩)

section
variable {A A' B : List Token → Prop} {k : TokenKind} {us rest : List Token}

theorem frontToken_append {v : List Token} (h : (frontToken v).kind = (frontToken rest).kind) :
    (frontToken (us ++ v)).kind = (frontToken (us ++ rest)).kind := by
  cases us with
  | nil => exact h
  | cons u us => rfl

theorem Narrows.after (h : Narrows (frontToken (us ++ rest)).kind A A') :
    Narrows (frontToken rest).kind (A <| us ++ ·) (A' <| us ++ ·) :=
  ⟨fun v => h.1 (us ++ v), fun _ hk => h.2 _ (frontToken_append hk)⟩

theorem Refuses.of_narrows (h : Narrows k A A') (hA' : Refuses A' k) : Refuses A k :=
  fun v hk hv => hA' v hk (h.2 v hk hv)

/-- What is led from where some tokens are taken, is led from before them. -/
theorem Led.extend (us : List Token) {α : Type} {C : α → List Token → Prop}
    {r : EStateM.Result Error Cursor α}
    (h : Narrows (frontToken rest).kind (A <| us ++ ·) A') (hr : Led rest A' C r) :
    Led (us ++ rest) A C r := by
  cases r with
  | ok a c =>
    obtain ⟨vs, rfl, hC⟩ := hr
    refine ⟨us ++ vs, (List.append_assoc ..).symm, ?_⟩
    simp only [List.append_assoc]
    exact h.after.trans hC
  | error e c =>
    refine hr.imp_right ?_
    rintro ⟨vs, what, rfl, he, ⟨v, hv⟩, hr⟩
    refine ⟨us ++ vs, what, (List.append_assoc ..).symm, he, ⟨v, ?_⟩, ?_⟩
    · rw [List.append_assoc]
      exact h.1 _ hv
    · simp only [List.append_assoc]
      exact hr.of_narrows h.after

end

namespace Steers

open Scriptling.Parser

variable {α β : Type} {ts : List Token} {A A' K : List Token → Prop}
  {B B' : α → List Token → Prop} {C : β → List Token → Prop} {f : Form}

theorem pure {a : α} (h : ∀ v, A v ↔ B a v) : Steers ts (Pure.pure a) A B :=
  fun _ => ⟨[], rfl, .of_iff h⟩

theorem fault {what : Expected} (hA : ∃ v, A v) (hk : Refuses A (frontToken ts).kind) :
    Steers ts (Parser.fault (.expected what)) A B := fun _ => .inr ⟨[], what, rfl, rfl, hA, hk⟩

theorem limit {fault : SyntaxFault} (h : ∀ what, fault ≠ .expected what) :
    Steers ts (Parser.fault fault) A B := fun _ => .inl ⟨_, _, rfl, h⟩

theorem throw {t : Token} {fault : SyntaxFault} (h : ∀ what, fault ≠ .expected what) :
    Steers ts (MonadExcept.throw (t.fault fault)) A B := fun _ => .inl ⟨_, _, rfl, h⟩

/-- The next token narrows the continuations before a rule. -/
theorem narrow {p : Parser α} (h : Narrows (frontToken ts).kind A A') (hp : Steers ts p A' B) :
    Steers ts p A B := fun site => Led.extend [] h (hp site)

theorem at_kind {p : Parser α} {k : TokenKind} (hk : (frontToken ts).kind = k)
    (h : Narrows k A A') (hp : Steers ts p A' B) : Steers ts p A B := by
  subst hk
  exact hp.narrow h

theorem imp {p : Parser α} (hp : Steers ts p A B) (h : ∀ a v, B a v ↔ B' a v) :
    Steers ts p A B' := by
  have : B = B' := funext fun a => funext fun v => propext (h a v)
  exact this ▸ hp

/-- **Rules in sequence**: the second one is steered by what the first one leaves. -/
theorem bind {p : Parser α} {q : α → Parser β} {Q : α → List Token → List Token → Prop}
    (hp : Steers ts p A B) (ht : Takes ts p Q)
    (hq : ∀ a us rest, ts = us ++ rest → Q a us rest → Steers rest (q a) (B a) C) :
    Steers ts (p >>= q) A C := by
  intro site
  have h := hp site
  simp only [Bind.bind, EStateM.bind]
  cases hpc : p ⟨ts, site⟩ with
  | error e c =>
    rw [hpc] at h
    exact h
  | ok a c =>
    rw [hpc] at h
    obtain ⟨us, rfl, hB⟩ := h
    obtain ⟨us', hus, hQ⟩ := ht site a c hpc
    obtain rfl : us = us' := List.append_cancel_right hus
    exact .extend us hB (hq a us c.rest rfl hQ c.nextSite)

theorem takes {p : Parser α} (hp : Steers ts p A B) : Takes ts p fun _ _ _ => True := by
  intro site a c hc
  have h := hp site
  rw [hc] at h
  obtain ⟨us, hus, -⟩ := h
  exact ⟨us, hus, trivial⟩

/-- Rules in sequence, of which the first one may take nothing. -/
theorem seq {p : Parser α} {q : α → Parser β} (hp : Steers ts p A B)
    (hq : ∀ a rest, rest.length ≤ ts.length → Steers rest (q a) (B a) C) :
    Steers ts (p >>= q) A C := by
  refine hp.bind hp.takes ?_
  rintro a us rest rfl -
  exact hq a rest (by rw [List.length_append]; omega)

/-- Rules in sequence, of which the first one takes something. -/
theorem step {p : Parser α} {q : α → Parser β} (hp : Steers ts p A B)
    (ht : Takes ts p fun _ us _ => us ≠ [])
    (hq : ∀ a rest, rest.length < ts.length → Steers rest (q a) (B a) C) :
    Steers ts (p >>= q) A C := by
  refine hp.bind ht ?_
  rintro a us rest rfl hne
  have hpos := List.length_pos_iff.2 hne
  exact hq a rest (by rw [List.length_append]; omega)

theorem map {p : Parser α} {g : α → β} (hp : Steers ts p A B) (h : ∀ a v, B a v ↔ C (g a) v) :
    Steers ts (p >>= fun a => Pure.pure (g a)) A C := hp.seq fun a _ _ => .pure (h a)

theorem peek {q : Token → Parser β} (hq : Steers ts (q (frontToken ts)) A C) :
    Steers ts (Parser.peek >>= q) A C := fun site => hq site

theorem freshSite {q : Nat → Parser β} (hq : ∀ site, Steers ts (q site) A C) :
    Steers ts (Parser.freshSite >>= q) A C := fun site => hq site (site + 1)

theorem ite {c : Prop} [Decidable c] {p q : Parser β} (hp : c → Steers ts p A C)
    (hq : ¬c → Steers ts q A C) : Steers ts (if c then p else q) A C := by
  split
  · exact hp ‹c›
  · exact hq ‹¬c›

/-- A token is taken. -/
theorem advance {x : Terminal} {q : Unit → Parser β} (hx : x.accepts (frontToken ts).kind = true)
    (hne : x.accepts .endOfFile = false)
    (hq : ∀ rest, rest.length < ts.length → Steers rest (q ()) (Spells K f) C) :
    Steers ts (Parser.advance >>= q) (Spells K (.token x :: f)) C := by
  cases ts with
  | nil => exact absurd (hne.symm.trans hx) Bool.false_ne_true
  | cons t rest =>
    have token (v : List Token) : Spells K (.token x :: f) (t :: v) ↔ Spells K f v := by
      rw [spells_token]
      refine ⟨?_, fun h => ⟨t, v, rfl, hx, h⟩⟩
      rintro ⟨_, _, he, _, h⟩
      cases he
      exact h
    exact fun site => .extend [t] (.of_iff token) (hq rest (Nat.lt_succ_self _) site)

theorem take {kind : TokenKind} {q : Unit → Parser β} (hk : (frontToken ts).kind = kind)
    (hne : Terminal.accepts (.kind kind) .endOfFile = false)
    (hq : ∀ rest, rest.length < ts.length → Steers rest (q ()) (Spells K f) C) :
    Steers ts (Parser.advance >>= q) (Spells K (.kind kind :: f)) C :=
  .advance (decide_eq_true hk) hne hq

/-- A token of a kind is taken, or asked for. -/
theorem expect {kind : TokenKind} {what : Expected} {q : Token → Parser β} (hK : ∃ v, K v)
    (hne : Terminal.accepts (.kind kind) .endOfFile = false)
    (hq : ∀ t rest, rest.length < ts.length → Steers rest (q t) (Spells K f) C) :
    Steers ts (Parser.expect kind what >>= q) (Spells K (.kind kind :: f)) C := by
  have h : Parser.expect kind what >>= q = Parser.peek >>= fun t =>
      if t.kind = kind then Parser.advance >>= fun _ => q t else Parser.fault (.expected what) := by
    rw [Parser.expect, bind_assoc]
    refine bind_congr fun t => ?_
    split
    · rw [bind_assoc]
      simp only [pure_bind]
    · rfl
  rw [h]
  exact .peek (.ite (fun hk => .take hk hne (hq _)) fun hk =>
    .fault (exists_spells _ hK) (refuses_kind hk))

theorem name {what : Expected} {q : Name → Parser β} (hK : ∃ v, K v)
    (hq : ∀ n rest, rest.length < ts.length → Steers rest (q n) (Spells K f) C) :
    Steers ts (Parser.name what >>= q) (Spells K (.kind .identifier :: f)) C := by
  have h : Parser.name what >>= q =
      Parser.expect .identifier what >>= fun t => q ⟨t.lexeme, t.line⟩ := by
    rw [Parser.name, bind_assoc]
    simp only [pure_bind]
  rw [h]
  exact .expect hK rfl fun _ => hq _

theorem accept {kind : TokenKind} {q : Bool → Parser β}
    (yes : (frontToken ts).kind = kind → Steers ts (Parser.advance >>= fun _ => q true) A C)
    (no : (frontToken ts).kind ≠ kind → Steers ts (q false) A C) :
    Steers ts (Parser.accept kind >>= q) A C := by
  have h : Parser.accept kind >>= q = Parser.peek >>= fun t =>
      if t.kind = kind then Parser.advance >>= fun _ => q true else q false := by
    rw [Parser.accept, bind_assoc]
    refine bind_congr fun t => ?_
    split
    · rw [bind_assoc]
      simp only [pure_bind]
    · rw [pure_bind]
  rw [h]
  exact .peek (.ite yes no)

/-- At a token that only one production can start with, the rule goes on with that one. -/
theorem production {r : Rule} {p : Parser α} {k : TokenKind} (hk : (frontToken ts).kind = k)
    (hf : f ∈ productions r) (hothers : ∀ f' ∈ productions r, f' = f ∨ Form.opens f' k = false)
    (hr : r.nullable = false) (hp : Steers ts p (Spells K f) B) :
    Steers ts p (Spells K [.rule r]) B := hp.narrow (narrows_production hf (hk ▸ hothers) hr)

/-- A rule reads the front of a form. -/
theorem front {g : Form} {p : Parser α} {q : α → Parser β}
    (hp : Steers ts p (Spells (Spells K g) f) fun _ => Spells K g)
    (hq : ∀ a rest, rest.length ≤ ts.length → Steers rest (q a) (Spells K g) C) :
    Steers ts (p >>= q) (Spells K (f ++ g)) C :=
  narrow (.of_iff fun _ => spells_append) (hp.seq hq)

/-- The rule at the front of a form. -/
theorem first {r : Rule} {p : Parser α} {q : α → Parser β}
    (hp : Steers ts p (Spells (Spells K f) [.rule r]) fun _ => Spells K f)
    (ht : Takes ts p fun _ us _ => us ≠ [])
    (hq : ∀ a rest, rest.length < ts.length → Steers rest (q a) (Spells K f) C) :
    Steers ts (p >>= q) (Spells K (.rule r :: f)) C :=
  narrow (.of_iff fun _ => spells_cons) (hp.step ht hq)

end Steers

end Scriptling
