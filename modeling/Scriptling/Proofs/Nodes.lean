/-
  Nodes — what the nodes of a tree that is read are made from.

  * `Part.names`, `Part.constants`, `Part.branches`: the names and constants that a node has itself,
    and the statements at it that are no declarations;
  * `Part.Everywhere`: what holds of a part and of all parts inside it;
  * `Derives.made`: the names and constants in a tree are those of tokens that it is derived from;
  * `Stmt.ReadFrom`: the statements that are read from some tokens, up to the first error or beyond;
    all of them are made from the tokens, at every node (`Stmt.ReadFrom.made`).
-/
import Mathlib.Logic.Relation
import Scriptling.Proofs.Nesting
import Scriptling.Proofs.Stretches

namespace Scriptling

/-! ## Nodes -/

/-- The statement declares a variable or a struct. -/
def Stmt.isDeclaration : Stmt → Bool
  | .let _ _ | .struct _ _ => true
  | _ => false

namespace Part

/-- The names that stand at a node itself. -/
def names : Part → List Name
  | expr (.variable _ name) | expr (.assign _ name _) | expr (.get _ name)
  | expr (.set _ name _) => [name]
  | function (.mk title params _ _) => title.toList ++ params
  | stmt (.let name _) | stmt (.for name _ _ _ _) | stmt (.struct name _) => [name]
  | _ => []

/-- The constant that a node is, if it is one. -/
def constants : Part → List Literal
  | expr (.literal value) => [value]
  | _ => []

/-- The statements at a node that stand on their own, and so declare nothing: the branches of an
    `if` and the body of a loop. -/
def branches : Part → List Stmt
  | stmt (.if _ yes no) => yes :: no.toList
  | stmt (.while _ body) | stmt (.for _ _ _ _ body) => [body]
  | _ => []

/-! ## All nodes of a tree -/

/-- What stands directly inside a part. -/
def children : Part → List Part
  | expr (.function f) | method f => [function f]
  | function (.mk _ _ body _) | stmt (.block body) => [stmts body]
  | stmt (.let _ value) => [optional value]
  | stmt (.for name value condition step body) => [clauses name value condition step body]
  | rounds body => [stmt body]
  | stmt (.struct _ fs) => [methods fs]
  | p => p.pieces.map Prod.fst

theorem mem_children {q p : Part} (h : q.Inside p) : q ∈ p.children := by
  cases h with
  | piece h =>
    unfold children
    split
    all_goals first
      | exact List.mem_map_of_mem h
      | cases h
  | _ => exact List.mem_cons_self

/-- **A property of a part and of all parts inside it**, however deep. -/
def Everywhere (Q : Part → Prop) (p : Part) : Prop :=
  ∀ q, Relation.ReflTransGen Inside q p → Q q

namespace Everywhere

variable {Q : Part → Prop} {p q : Part}

theorem self (h : p.Everywhere Q) : Q p := h p .refl

theorem inside (h : p.Everywhere Q) (hq : q.Inside p) : q.Everywhere Q :=
  fun r hr => h r (hr.tail hq)

theorem intro (hp : Q p) (h : ∀ q ∈ p.children, q.Everywhere Q) : p.Everywhere Q := by
  intro r hr
  rcases Relation.ReflTransGen.cases_tail hr with rfl | ⟨q, hrq, hq⟩
  · exact hp
  · exact h q (mem_children hq) r hrq

end Everywhere

end Part

/-! ## Made from tokens -/

/-- A name is that of a token. -/
def Name.StandsIn (ts : List Token) (n : Name) : Prop :=
  ∃ t ∈ ts, t.kind = .identifier ∧ n = t.toName

theorem Name.standsIn {ts : List Token} {t : Token} (ht : t ∈ ts) (hk : t.kind = .identifier) :
    t.toName.StandsIn ts := ⟨t, ht, hk, rfl⟩

namespace Part

/-- **A node is made from some tokens**: its names and constants are those of tokens, and the
    statements at it that stand on their own declare nothing. -/
structure Made (ts : List Token) (p : Part) : Prop where
  names : ∀ n ∈ p.names, n.StandsIn ts
  constants : ∀ v ∈ p.constants, ∃ t ∈ ts, t.kind.constant? = some v
  branches : ∀ s ∈ p.branches, s.isDeclaration = false

section
variable {ts : List Token} {p : Part}

/-- A part without names and constants of its own. -/
theorem everywhere_made (hn : p.names = []) (hc : p.constants = []) (hb : p.branches = [])
    (h : ∀ q ∈ p.children, q.Everywhere (Made ts)) : p.Everywhere (Made ts) :=
  .intro ⟨by simp [hn], by simp [hc], by simp [hb]⟩ h

theorem everywhere_made_of_name {n : Name} (hp : p.names = [n]) (hc : p.constants = [])
    (hb : p.branches = []) (hn : n.StandsIn ts) (h : ∀ q ∈ p.children, q.Everywhere (Made ts)) :
    p.Everywhere (Made ts) :=
  .intro ⟨by simpa [hp] using hn, by simp [hc], by simp [hb]⟩ h

@[simp] theorem everywhere_reference (site : Nat) (name : Name) :
    (reference site name).Everywhere (Made ts) :=
  everywhere_made rfl rfl rfl (List.forall_mem_nil _)

@[simp] theorem everywhere_absent : (optional none).Everywhere (Made ts) :=
  everywhere_made rfl rfl rfl (List.forall_mem_nil _)

@[simp] theorem everywhere_present {e : Expr} (h : (expr e).Everywhere (Made ts)) :
    (optional (some e)).Everywhere (Made ts) :=
  everywhere_made rfl rfl rfl (List.forall_mem_singleton.2 h)

@[simp] theorem everywhere_noAlternative : (alternative none).Everywhere (Made ts) :=
  everywhere_made rfl rfl rfl (List.forall_mem_nil _)

@[simp] theorem everywhere_alternative {s : Stmt} (h : (stmt s).Everywhere (Made ts)) :
    (alternative (some s)).Everywhere (Made ts) :=
  everywhere_made rfl rfl rfl (List.forall_mem_singleton.2 h)

@[simp] theorem everywhere_rounds {body : Stmt} (h : (stmt body).Everywhere (Made ts)) :
    (rounds body).Everywhere (Made ts) :=
  everywhere_made rfl rfl rfl (List.forall_mem_singleton.2 h)

@[simp] theorem everywhere_noExprs : (exprs []).Everywhere (Made ts) :=
  everywhere_made rfl rfl rfl (List.forall_mem_nil _)

@[simp] theorem everywhere_noStmts : (stmts []).Everywhere (Made ts) :=
  everywhere_made rfl rfl rfl (List.forall_mem_nil _)

@[simp] theorem everywhere_function {title : Option Name} {params : List Name} {body : List Stmt}
    {line : Nat} : (function (.mk title params body line)).Everywhere (Made ts) ↔
      (∀ n ∈ title.toList ++ params, n.StandsIn ts) ∧ (stmts body).Everywhere (Made ts) := by
  refine ⟨fun h => ⟨h.self.names, h.inside .body⟩, fun ⟨hn, hb⟩ => .intro ⟨hn, ?_, ?_⟩ ?_⟩
  · exact List.forall_mem_nil _
  · exact List.forall_mem_nil _
  · exact List.forall_mem_singleton.2 hb

@[simp] theorem everywhere_method {f : Function} (h : (function f).Everywhere (Made ts)) :
    (method f).Everywhere (Made ts) :=
  everywhere_made rfl rfl rfl (List.forall_mem_singleton.2 h)

@[simp] theorem everywhere_literal {f : Function} (h : (function f).Everywhere (Made ts)) :
    (expr (.function f)).Everywhere (Made ts) :=
  everywhere_made rfl rfl rfl (List.forall_mem_singleton.2 h)

@[simp] theorem everywhere_clauses {name : Name} {value condition step : Option Expr} {body : Stmt}
    (hlet : (stmt (.let name value)).Everywhere (Made ts))
    (hcondition : (optional condition).Everywhere (Made ts))
    (hstep : (optional step).Everywhere (Made ts)) (hbody : (stmt body).Everywhere (Made ts)) :
    (clauses name value condition step body).Everywhere (Made ts) := by
  refine everywhere_made rfl rfl rfl ?_
  simp_all [children, pieces]

end

end Part

/-- The part that a phrase stands for. -/
def Phrase.part : Phrase → Part
  | declarations ss => .stmts ss
  | declaration _ s | statement _ s => .stmt s
  | binding name value => .stmt (.let name value)
  | methods fs => .methods fs
  | function params body => .function (.mk none params body 0)
  | optionalParameters ps | parameters ps => .function (.mk none ps [] 0)
  | optionalArguments es | arguments es => .exprs es
  | optionalExpression e => .optional e
  | expression e | ternary e | operation _ e | operand _ e | unary e | call e | primary e =>
    .expr e

theorem Derives.not_isDeclaration {strict bare : Bool} {s : Stmt} {ts : List Token}
    (h : Derives strict (.statement bare s) ts) : s.isDeclaration = false := by
  cases h <;> rfl

open Scriptling.Part in
/-- **Whatever some tokens derive is made from them**, at every node. -/
theorem Derives.made {strict : Bool} {p : Phrase} {ts us : List Token} (h : Derives strict p ts)
    (hts : ts ⊆ us) : p.part.Everywhere (Made us) := by
  induction h with
  | noAssignment _ ih | noChoice _ ih | first _ ih | tighter _ _ ih | tightest _ _ ih
  | noFunction _ ih | noCall _ ih | someArguments _ _ ih | someParameters _ _ ih
  | statement _ ih => exact ih hts
  | nil | noMethods | noExpression | noArguments | noParameters | «break» | «continue» | receiver
  | cons | group | unary | call | block | print | expression | bare | someExpression | «return»
  | choice | lastArgument | argument =>
    refine everywhere_made rfl rfl rfl ?_
    simp_all [children, pieces, Phrase.part]
  | reference hk | assign hk | get _ _ hk | set _ _ hk | unset hk | initialized hk | struct _ hk =>
    refine everywhere_made_of_name rfl rfl rfl (Name.standsIn ?_ hk) ?_ <;>
      simp_all [children, pieces, Phrase.part]
  | constant hk =>
    refine .intro ⟨List.forall_mem_nil _, ?_, List.forall_mem_nil _⟩ (List.forall_mem_nil _)
    exact List.forall_mem_singleton.2 ⟨_, hts (.head _), hk⟩
  | @join level op left right ts us sign _ _ _ ihl ihr =>
    cases op <;>
    · refine everywhere_made rfl rfl rfl ?_
      simp_all [children, pieces, Phrase.part, InfixOp.join]
  | «let» _ _ ih => exact ih (List.cons_subset.1 hts).2
  | anonymous | named | lastParameter | parameter | function =>
    simp_all [Phrase.part, Name.standsIn]
  | method | fnMethod =>
    refine everywhere_made rfl rfl rfl ?_
    simp_all [children, pieces, Phrase.part, Name.standsIn]
  | «while» _ _ _ _ hbody | «if» _ _ _ _ hbody =>
    refine .intro ⟨List.forall_mem_nil _, List.forall_mem_nil _,
      List.forall_mem_singleton.2 hbody.not_isDeclaration⟩ ?_
    simp_all [children, pieces, Phrase.part]
  | ifElse _ _ _ _ hyes _ _ hno =>
    refine .intro ⟨List.forall_mem_nil _, List.forall_mem_nil _, List.forall_mem_cons.2
      ⟨hyes.not_isDeclaration, List.forall_mem_singleton.2 hno.not_isDeclaration⟩⟩ ?_
    simp_all [children, pieces, Phrase.part]
  | «for» _ _ _ hlet _ _ _ _ hbody ihlet =>
    simp only [List.cons_subset, List.append_subset] at hts
    refine .intro ⟨(ihlet hts.2.2.2.1).self.names, List.forall_mem_nil _,
      List.forall_mem_singleton.2 hbody.not_isDeclaration⟩ ?_
    simp_all [children, Phrase.part]

/-! ## Statements that are read -/

/-- **A statement is read from some tokens**: it is one of those before the first error, or one of
    those that are read where parsing goes on after errors. -/
def Stmt.ReadFrom (s : Stmt) (ts : List Token) : Prop :=
  (∃ site, s ∈ (parsePartial site ts).1.1) ∨ s ∈ (parseRecovering ts).1

theorem parseUpTo_reads {depth count : Nat} {c : Cursor} {s : Stmt}
    (h : s ∈ (parseUpTo depth count c).1.1) :
    ∃ us bare, us ⊆ c.rest ∧ Derives true (.declaration bare s) us := by
  induction count generalizing c with
  | zero => cases h
  | succ count ih =>
    rw [parseUpTo] at h
    split at h
    · cases h
    split at h
    · next s₁ c₁ hs =>
      obtain ⟨us, hus, bare, hd, -⟩ := (Parser.descent true depth).declaration c.rest _ _ _ hs
      rw [hus]
      rcases List.mem_cons.1 h with rfl | h
      · exact ⟨us, bare, List.subset_append_left _ _, hd⟩
      · obtain ⟨vs, bare, hvs, hd⟩ := ih h
        exact ⟨vs, bare, List.subset_append_of_subset_right _ hvs, hd⟩
    · cases h

theorem parseRecovering_reads {ts : List Token} (hts : Ended ts) {s : Stmt}
    (h : s ∈ (parseRecovering ts).1) :
    ∃ us bare, us ⊆ ts ∧ Derives true (.declaration bare s) us := by
  have hdepth : 32 * ts.length + 18 ≤ Parser.depthBound ts := by
    rw [Parser.depthBound]
    omega
  obtain ⟨stretches, c', hrun⟩ := Stretches.exists (c := ⟨ts, 0⟩) hts hdepth
  obtain ⟨(htokens : ts = _), -, -, hsound⟩ := hrun.sound hts hdepth
  have hcount := Nat.le_of_add_right_le (hrun.length_le hts hdepth)
  rw [parseRecovering, hrun.recoverUpTo_eq hcount] at h
  obtain ⟨stretch, hstretch, hs⟩ := List.mem_filterMap.1 h
  obtain ⟨before, after, hsplit⟩ := List.append_of_mem hstretch
  have sound := hsound before stretch after hsplit
  cases stretch with
  | lost => cases hs
  | read s' taken =>
    cases hs
    obtain ⟨bare, hd⟩ := sound.2 true
    refine ⟨taken, bare, fun t ht => ?_, hd⟩
    rw [htokens]
    exact List.mem_append_left _ (List.mem_flatMap.2 ⟨_, hstretch, ht⟩)

namespace Stmt.ReadFrom

variable {s : Stmt} {ts : List Token}

/-- A statement that is read is derived from some of the tokens. -/
theorem derives (h : s.ReadFrom ts) (hts : Ended ts) :
    ∃ us bare, us ⊆ ts ∧ Derives true (.declaration bare s) us :=
  h.elim (fun ⟨_, h⟩ => parseUpTo_reads h) (parseRecovering_reads hts)

/-- **A statement that is read is made from the tokens**, at every node. -/
theorem made (h : s.ReadFrom ts) (hts : Ended ts) : (Part.stmt s).Everywhere (Part.Made ts) := by
  obtain ⟨us, bare, hus, hd⟩ := h.derives hts
  exact hd.made hus

end Stmt.ReadFrom

end Scriptling
