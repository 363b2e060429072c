/-
  Receivers — which method a `this` belongs to.

  * `Part.Uses`: a `this` stands in a part, so many scopes further in, and no method is around
    it there;
  * `Pass.Accepts.not_uses`: no program with a `this` outside of methods is accepted;
  * `Pass.Visits.lookup_this`: each `this` of a method is recorded with the number of scopes
    that are between it and the scope of the receiver;
  * `Part.Spares`: a part neither declares `this` nor assigns to it; parsed programs spare it
    (`Eval.spares_of_load`).
-/
import Scriptling.Proofs.Descent
import Scriptling.Proofs.Nesting
import Scriptling.Proofs.Shadows

namespace Scriptling

/-! ## Uses of `this` -/

namespace Part

/-- How many scopes a part opens for what stands directly inside it. -/
def opens : Part → Nat
  | method _ | function _ | stmt (.block _) | stmt (.for _ _ _ _ _) => 1
  | _ => 0

/-- What stands directly inside a part is for methods of a struct. -/
def isStruct : Part → Bool
  | stmt (.struct _ _) | methods _ | method _ => true
  | _ => false

/-- **The `this` at a site stands in a part, so many scopes further in, and no struct is around
    it there.** -/
inductive Uses (site line : Nat) : Nat → Part → Prop
  | here : Uses site line 0 (.expr (.this site line))
  | inside {n q p} : q.Inside p → p.isStruct = false → Uses site line n q →
      Uses site line (n + p.opens) p

end Part

/-- What is made of pieces opens no scope for them. -/
theorem Part.opens_of_piece {q p : Part} {names : List String} (h : (q, names) ∈ p.pieces) :
    p.opens = 0 := by
  cases p with
  | function | method => cases h
  | stmt s => cases s <;> first | rfl | cases h
  | _ => rfl

/-- How far out the nearest scope of a receiver is. -/
def Layer.receiver? (Γ : List Layer) : Option Nat :=
  (Γ.map Layer.final).findIdx? fun s => s.contains "this"

namespace Layer

@[simp] theorem receiver?_assure (names : List String) (Γ : List Layer) :
    receiver? (assure names Γ) = receiver? Γ := by
  unfold receiver?
  rw [map_final_assure]

@[simp] theorem receiver?_await (x : String) (Γ : List Layer) :
    receiver? (await x Γ) = receiver? Γ := by
  unfold receiver?
  rw [map_final_await]

/-- A scope that has no `this` of its own. -/
theorem receiver?_cons {l : Layer} {Γ : List Layer} (h : l.final.contains "this" ≠ true) :
    receiver? (l :: Γ) = (receiver? Γ).map (· + 1) := by
  unfold receiver?
  rw [List.map_cons, List.findIdx?_cons, if_neg h]

end Layer

namespace Pass

variable {p : Pass} {ds : List (Nat × Nat)} {Γ : List Layer} {w : Walk} {part : Part}

/-- **The walk comes to what stands directly inside a part.**  Only a struct has receivers of its
    own. -/
theorem Visits.inside (hp : p.Accepts ds) (h : p.Visits Γ w part) {q : Part}
    (hq : q.Inside part) :
    ∃ Γ' w', p.Visits Γ' w' q ∧ (part.isStruct = false → w'.inStruct = w.inStruct ∧
      ("this" ∉ declaredNames p.program →
        Layer.receiver? Γ' = (Layer.receiver? Γ).map (· + part.opens))) := by
  obtain ⟨w', hw', -⟩ := h.passes hp
  have bound (x : String) : (w.bind x).inStruct = w.inStruct :=
    (Walk.closed_grows.bind w x).inStruct
  -- a scope that is opened for anything but a function is none of a receiver
  have entered {l : Layer} {v : Walk} {q : Part} (hv : p.Visits (l :: Γ) v q)
      (hq : ∀ f, q ≠ .function f) (hn : "this" ∉ declaredNames p.program) :
      Layer.receiver? (l :: Γ) = (Layer.receiver? Γ).map (· + 1) := by
    rcases (hv.receivers hn).2 with ⟨f, hf⟩ | hhead
    · exact absurd hf (hq f)
    · exact Layer.receiver?_cons (hhead l.final rfl)
  cases hq with
  | @piece q p names hmem =>
    obtain ⟨before, after, he⟩ := List.append_of_mem hmem
    have hall := Part.resolveEach_pieces (List.ne_nil_of_mem hmem) hw'
    rw [he, List.map_append, Part.resolveEach_append] at hall
    obtain ⟨w₁, h₁, -⟩ := hall
    refine ⟨_, _, .piece h he h₁, fun _ => ⟨(Part.resolveEach_grows h₁).inStruct, fun _ => ?_⟩⟩
    have hopens : part.opens = 0 := Part.opens_of_piece hmem
    simp [hopens]
  | @literal f =>
    refine ⟨_, _, .literal h, fun _ => ⟨?_, fun _ => by simp [Part.opens]⟩⟩
    change (w.title f).inStruct = w.inStruct
    unfold Walk.title
    split
    · exact bound _
    · rfl
  | body =>
    obtain ⟨u, hu, -⟩ := Except.bind_eq_ok.1 hw'
    obtain ⟨after, hafter, -⟩ := Except.bind_eq_ok.1 hu
    have hv := Visits.body h hafter
    exact ⟨_, _, hv, fun _ => ⟨rfl, entered hv fun _ hf => by cases hf⟩⟩
  | receiver =>
    obtain ⟨after, hafter, -⟩ := exists_receiver hw'
    exact ⟨_, _, .receiver h hafter, fun hs => by cases hs⟩
  | @«value» name value =>
    refine ⟨_, _, .value h, fun _ => ⟨?_, fun _ => by simp [Part.opens]⟩⟩
    unfold Walk.await
    split
    · rfl
    · exact (w.grows_mark name.text false).inStruct
  | block =>
    obtain ⟨after, hafter, -⟩ := Except.bind_eq_ok.1 hw'
    have hv := Visits.block h hafter
    exact ⟨_, _, hv, fun _ => ⟨rfl, entered hv fun _ hf => by cases hf⟩⟩
  | loop =>
    obtain ⟨after, hafter, -⟩ := Except.bind_eq_ok.1 hw'
    have hv := Visits.loop h hafter
    exact ⟨_, _, hv, fun _ => ⟨rfl, entered hv fun _ hf => by cases hf⟩⟩
  | round => exact ⟨_, _, .round h, fun _ => ⟨rfl, fun _ => by simp [Part.opens]⟩⟩
  | methods => exact ⟨_, _, .methods h, fun hs => by cases hs⟩

/-- The walk comes to everything that stands in a part. -/
theorem Visits.nested (hp : p.Accepts ds) (h : p.Visits Γ w part) {q : Part}
    (hq : Relation.ReflTransGen Part.Inside q part) : ∃ Γ' w', p.Visits Γ' w' q := by
  induction hq using Relation.ReflTransGen.head_induction_on with
  | refl => exact ⟨Γ, w, h⟩
  | head hq _ ih =>
    obtain ⟨Γ', w', hv⟩ := ih
    obtain ⟨Γ₁, w₁, hv₁, -⟩ := hv.inside hp hq
    exact ⟨Γ₁, w₁, hv₁⟩

/-- The walk comes to the uses of `this` in a part. -/
theorem Visits.uses (hp : p.Accepts ds) {site line n : Nat} (hu : part.Uses site line n)
    (h : p.Visits Γ w part) :
    ∃ Γ' w', p.Visits Γ' w' (.expr (.this site line)) ∧ w'.inStruct = w.inStruct ∧
      ("this" ∉ declaredNames p.program →
        Layer.receiver? Γ' = (Layer.receiver? Γ).map (· + n)) := by
  induction hu generalizing Γ w with
  | here => exact ⟨Γ, w, h, rfl, fun _ => by simp⟩
  | @inside n q part hq hs _ ih =>
    obtain ⟨Γ₁, w₁, h₁, hinside⟩ := h.inside hp hq
    obtain ⟨hstruct, hreceiver⟩ := hinside hs
    obtain ⟨Γ₂, w₂, h₂, hstruct₂, hreceiver₂⟩ := ih h₁
    refine ⟨Γ₂, w₂, h₂, hstruct₂.trans hstruct, fun hn => ?_⟩
    rw [hreceiver₂ hn, hreceiver hn, Option.map_map]
    congr 1
    funext d
    exact (Nat.add_assoc d _ _).trans (congrArg (d + ·) (Nat.add_comm _ _))

/-- **No program with a `this` outside of structs is accepted.** -/
theorem Accepts.not_uses (hp : p.Accepts ds) (site line n : Nat) :
    ¬ (Part.stmts p.program).Uses site line n := by
  intro hu
  obtain ⟨Γ, w, h, hstruct, -⟩ := Visits.start.uses hp hu
  obtain ⟨w', hw', -⟩ := h.passes hp
  obtain ⟨w₁, h₁, -⟩ := Except.bind_eq_ok.1 hw'
  obtain ⟨htrue, -⟩ := Walk.require_eq_ok.1 h₁
  rw [hstruct] at htrue
  cases htrue

/-- The walk has the scopes of receivers where the layers have them. -/
theorem Receivers.nearest?_eq {ss : List Scope} (hr : Receivers ss Γ) (hc : Layer.Cover ss Γ) :
    Walk.nearest? ss "this" = Layer.receiver? Γ := by
  unfold Walk.nearest? Layer.receiver?
  induction hr with
  | nil => rfl
  | @cons s l ss Γ hs _ ih =>
    cases hc with
    | cons hsub hc =>
      have same : s.contains "this" = l.final.contains "this" :=
        Bool.eq_iff_iff.2 ⟨hsub "this", fun hl => (hs hl).1⟩
      rw [List.findIdx?_cons, List.map_cons, List.findIdx?_cons, ih hc, same]

/-- **Each `this` of a method is recorded with the number of scopes that are between it and the
    scope of the receiver.** -/
theorem Visits.lookup_this (hp : p.Accepts ds) (hs : (Part.stmts p.program).sites.Nodup)
    (hn : "this" ∉ declaredNames p.program) {f : Function} (h : p.Visits Γ w (.method f))
    {site line n : Nat} (hu : (Part.function f).Uses site line n) : ds.lookup site = some n := by
  obtain ⟨w', hw', -⟩ := h.passes hp
  obtain ⟨after, hafter, -⟩ := exists_receiver hw'
  obtain ⟨Γ', v, hv, -, hreceiver⟩ := (Visits.receiver h hafter).uses hp hu
  -- the scope around the function is that of the receiver
  have around : Layer.receiver? (⟨after.innermost, ["this"], []⟩ :: Γ) = some 0 := by
    have hthis : after.innermost.contains "this" = true := by
      rw [Walk.innermost, Function.scopes_resolve hafter]
      exact (Bindings.contains_set ..).2 (Or.inl rfl)
    unfold Layer.receiver?
    rw [List.map_cons, List.findIdx?_cons, if_pos hthis]
  have hd : Layer.receiver? Γ' = some n := by
    rw [hreceiver hn, around, Option.map_some, Nat.zero_add]
  obtain ⟨v', hv'⟩ := hv.passes hp
  obtain ⟨hr, hhead⟩ := hv.receivers hn
  have hnearest : Walk.nearest? v.scopes "this" = some n :=
    (hr.nearest?_eq hv'.before).trans hd
  have hpending : v.isPending "this" = false := by
    unfold Walk.isPending
    split
    · rfl
    · next s rest hscopes =>
      have hsub := hv'.before
      rw [hscopes] at hsub
      cases hsub with
      | @cons _ l _ _ hsl _ =>
        have hnot : s.contains "this" ≠ true := fun hc =>
          hhead.resolve_left (by rintro ⟨_, ⟨⟩⟩) l.final rfl (hsl "this" hc)
        have hnone : s.get? "this" = none := by
          simpa [Bindings.contains] using hnot
        rw [hnone]
        rfl
  have hpieces : (Part.expr (.this site line)).pieces =
      [] ++ (.reference site ⟨"this", line⟩, []) :: [] := rfl
  rw [(Visits.piece hv hpieces rfl).lookup_eq hp hs]
  unfold Walk.distance?
  rw [hpending, if_neg Bool.false_ne_true]
  exact hnearest

end Pass

/-! ## Names -/

namespace Part

/-- A part neither declares `this` nor assigns to it. -/
structure Spares (p : Part) : Prop where
  named : p.Named (· ≠ "this")
  writes : ∀ r ∈ p.references, r.access = .write → r.name.text ≠ "this"

theorem references_pieces {p : Part} : ∀ q ∈ p.pieces, q.1.references ⊆ p.references := by
  cases p with
  | expr e => cases e <;> simp [pieces, references, Expr.references]
  | exprs es => cases es <;> simp [pieces, references, Expr.referencesAll]
  | optional e => cases e <;> simp [pieces, references, Expr.referencesOpt]
  | methods fs => cases fs <;> simp [pieces, references, Function.referencesAll]
  | stmt s => cases s <;> simp [pieces, references, Stmt.references, Expr.referencesOpt]
  | alternative s => cases s <;> simp [pieces, references, Stmt.referencesOpt]
  | stmts ss => cases ss <;> simp [pieces, references, Stmt.referencesAll]
  | clauses =>
    simp only [pieces, references, Stmt.references, List.forall_mem_cons]
    grind
  | reference | function | method | rounds => simp [pieces]

/-- What stands directly inside a part has no references but those of the part. -/
theorem Inside.references_subset {q p : Part} (h : q.Inside p) : q.references ⊆ p.references := by
  cases h with
  | piece hq => exact references_pieces _ hq
  | literal | body | receiver | «value» | block | loop | round | methods =>
    exact List.Subset.refl _

/-- What stands directly inside a part declares no names but those of the part. -/
theorem Inside.names_subset {q p : Part} (h : q.Inside p) :
    q.declares ++ q.encloses ⊆ p.declares ++ p.encloses := by
  cases h with
  | piece hq =>
    exact List.append_subset.2
      ⟨List.subset_append_of_subset_left _ (declares_pieces _ hq),
        List.subset_append_of_subset_right _ (encloses_pieces _ hq).subset⟩
  | literal => exact List.subset_append_right _ _
  | body => exact List.subset_append_right _ _
  | «value» => exact List.subset_cons_self _ _
  | methods => exact List.subset_cons_self _ _
  | receiver | block | loop | round => exact List.Subset.refl _

theorem Spares.inside {q p : Part} (h : p.Spares) (hq : q.Inside p) : q.Spares where
  named x hx := h.named x (hq.names_subset hx)
  writes r hr := h.writes r (hq.references_subset hr)

end Part

/-- The references in the tree of a phrase. -/
def Phrase.references : Phrase → List Reference
  | .declarations ss | .function _ ss => Stmt.referencesAll ss
  | .declaration _ s | .statement _ s => s.references
  | .binding _ value => Expr.referencesOpt value
  | .methods fs => Function.referencesAll fs
  | .optionalParameters _ | .parameters _ => []
  | .optionalArguments es | .arguments es => Expr.referencesAll es
  | .optionalExpression e => Expr.referencesOpt e
  | .expression e | .ternary e | .operation _ e | .operand _ e | .unary e | .call e
  | .primary e => e.references

/-- What a phrase assigns to is a name among its tokens. -/
theorem Derives.writes {strict : Bool} {p : Phrase} {ts : List Token} (h : Derives strict p ts) :
    ∀ r ∈ p.references, r.access = .write → ∃ t ∈ ts, t.kind = .identifier ∧
      t.lexeme = r.name.text := by
  induction h with
  | @assign title sign site value ts hk _ _ ih =>
    intro r hr hw
    rcases List.mem_cons.1 hr with rfl | hr
    · exact ⟨title, List.mem_cons_self, hk, rfl⟩
    · obtain ⟨t, ht, hname⟩ := ih r hr hw
      exact ⟨t, List.mem_cons_of_mem _ (List.mem_cons_of_mem _ ht), hname⟩
  | @join level op left right ts us sign _ _ _ ihl ihr =>
    intro r hr hw
    have hboth : r ∈ left.references ++ right.references := by
      cases op <;> exact hr
    rcases List.mem_append.1 hboth with hr | hr
    · obtain ⟨t, ht, hname⟩ := ihl r hr hw
      exact ⟨t, List.mem_append_left _ ht, hname⟩
    · obtain ⟨t, ht, hname⟩ := ihr r hr hw
      exact ⟨t, List.mem_append_right _ (List.mem_cons_of_mem _ ht), hname⟩
  | _ =>
    simp only [Phrase.references, Expr.references, Expr.referencesAll, Expr.referencesOpt,
      Stmt.references, Stmt.referencesAll, Stmt.referencesOpt, Function.references,
      Function.referencesAll] at *
    grind

/-- A parsed program assigns only to names that stand in its text. -/
theorem parse_writes {N : String → Prop} {site site' : Nat} {ts : List Token} {ss : List Stmt}
    (hts : Spelled N ts) (h : parse site ts = (.ok ss, site')) :
    ∀ r ∈ Stmt.referencesAll ss, r.access = .write → N r.name.text := by
  unfold parse parsePartial at h
  rcases hrun : parseUpTo (Parser.depthBound ts) ts.length ⟨ts, site⟩ with ⟨⟨ss', e⟩, c⟩
  rw [hrun] at h
  cases e with
  | some e => cases h
  | none =>
    cases h
    obtain ⟨us, hus, -, hss⟩ :=
      parseUpTo_derives false _ _ (c := ⟨ts, site⟩) (Nat.le_refl _) hrun
    intro r hr hw
    obtain ⟨t, ht, hk, hname⟩ := hss.writes r hr hw
    rw [← hname]
    refine hts t ?_ hk
    have hmem : t ∈ us ++ c.rest := List.mem_append_left _ ht
    rwa [← hus] at hmem

/-- What is loaded has been parsed from tokens of the text. -/
theorem Eval.parse_of_load {source : String} {m m₁ : Machine} {program : List Stmt}
    (h : Eval.load source m = some (.ok program, m₁)) :
    ∃ ts site, tokens source = .ok ts ∧ parse m.nextSite ts = (.ok program, site) := by
  obtain ⟨program', m₂, hp, hrest⟩ := Eval.bind_eq_ok.1 h
  have hsame : program' = program := by
    obtain ⟨_, _, _, hrest⟩ := Eval.bind_eq_ok.1 hrest
    obtain ⟨_, _, _, hrest⟩ := Eval.bind_eq_ok.1 hrest
    obtain ⟨_, _, _, hrest⟩ := Eval.bind_eq_ok.1 hrest
    cases hrest
    rfl
  subst hsame
  obtain ⟨ts, m₃, hts, hp⟩ := Eval.bind_eq_ok.1 hp
  obtain ⟨_, _, hget, hp⟩ := Eval.bind_eq_ok.1 hp
  cases hget
  cases htokens : tokens source with
  | error e => rw [htokens] at hts; cases hts
  | ok us =>
    rw [htokens] at hts
    cases hts
    rcases hparse : parse m.nextSite ts with ⟨r, site⟩
    rw [hparse] at hp
    obtain ⟨_, _, _, hp⟩ := Eval.bind_eq_ok.1 hp
    cases r with
    | error e => cases hp
    | ok ss =>
      cases hp
      exact ⟨ts, site, rfl, hparse⟩

/-- **A program that is loaded spares `this`.** -/
theorem Eval.spares_of_load {source : String} {m m₁ : Machine} {program : List Stmt}
    (h : Eval.load source m = some (.ok program, m₁)) : (Part.stmts program).Spares := by
  have other {x : String} (hx : TokenKind.keyword? x = none) : x ≠ "this" := by
    rintro rfl
    cases hx
  obtain ⟨ts, site, hts, hparse⟩ := Eval.parse_of_load h
  have spelled := spelled_tokens hts
  obtain ⟨-, -, hnamed⟩ := parse_draws spelled hparse
  exact ⟨fun x hx => other ((hnamed program rfl).2 x hx),
    fun r hr hw => other (parse_writes spelled hparse r hr hw)⟩

end Scriptling
