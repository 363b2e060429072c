/-
  Renaming — local variables under other names.

  A variable of a scope gets another name where the scope declares it, and at the references
  whose recorded distance leads to the scope.

  * `Renaming`: the two names, and the distances that have been recorded;
  * `Depth`: how a point stands to the scopes that are renamed, none of which is inside another;
  * `Renaming.Renames`: a part of a program and the same part with its variables renamed;
  * `Part.renamed`: what becomes of a part when the variable is renamed in the scopes that are
    chosen; `Renames.renamed` says when this can be done.
-/
import Mathlib.Logic.Equiv.Basic
import Scriptling.Proofs.Receivers

namespace Scriptling

/-! ## Depths -/

/-- How a point of a program stands to the scopes that are renamed: outside of all of them, or so
    many scopes inside one. -/
abbrev Depth := Option Nat

namespace Depth

/-- What stands in a scope stands one scope further in; outside, the scope may be renamed. -/
inductive Enters : Depth → Depth → Prop
  | outside : Enters none none
  | here : Enters none (some 0)
  | deeper {d} : Enters (some d) (some (d + 1))

theorem Enters.unique {D D' E : Depth} (h : D.Enters E) (h' : D'.Enters E) : D = D' := by
  cases h <;> cases h' <;> rfl

/-- A scope is entered, which is renamed if it is chosen and stands inside none that is. -/
def enter (chosen : Bool) : Depth → Depth
  | none => if chosen then some 0 else none
  | some d => some (d + 1)

@[simp] theorem enter_none : enter false none = none := rfl

theorem enters_enter (chosen : Bool) : ∀ D : Depth, D.Enters (D.enter chosen)
  | none => by cases chosen; exacts [.outside, .here]
  | some _ => .deeper

/-- A scope is entered that is not to be renamed. -/
def inner (D : Depth) : Depth := D.enter false

@[simp] theorem inner_none : inner none = none := rfl

theorem enters_inner (D : Depth) : D.Enters D.inner := D.enters_enter false

/-- The scope so many scopes out is renamed. -/
def isAt (D : Depth) (i : Nat) : Bool := D == some i

@[simp] theorem isAt_none (i : Nat) : isAt none i = false := rfl

@[simp] theorem isAt_some (d i : Nat) : isAt (some d) i = decide (d = i) := by
  by_cases h : d = i <;> simp [isAt, h]

theorem Enters.isAt_succ {D E : Depth} (h : D.Enters E) (i : Nat) : E.isAt (i + 1) = D.isAt i := by
  cases h <;> simp

@[simp] theorem isAt_inner (D : Depth) : D.inner.isAt 0 = false := by
  cases D <;> simp [inner, enter]

end Depth

/-! ## Renamings -/

/-- **A variable gets a new name.**  Neither name is that of the receiver of a method. -/
structure Renaming where
  /-- The distances that have been recorded, by site. -/
  distance : Nat → Option Nat
  old : String
  new : String
  old_ne : old ≠ "this"
  new_ne : new ≠ "this"

namespace Renaming

variable (ρ : Renaming)

/-- A name with the new text in place of the old one. -/
def rename (n : Name) : Name := if n.text = ρ.old then ⟨ρ.new, n.line⟩ else n

/-- A name where it is declared in the innermost scope. -/
def declared (D : Depth) (n : Name) : Name := if D.isAt 0 then ρ.rename n else n

/-- A name at a site that refers to it. -/
def referred (D : Depth) (site : Nat) (n : Name) : Name :=
  match ρ.distance site with
  | some i => if D.isAt i then ρ.rename n else n
  | none => n

/-- Inside of the scopes that are renamed a name is not the new one. -/
def Fresh (D : Depth) (x : String) : Prop := D ≠ none → x ≠ ρ.new

/-- In a scope that is renamed a name is not the old one. -/
def Spared (D : Depth) (x : String) : Prop := D = some 0 → x ≠ ρ.old

/-- **A part of a program, and the part with its variables renamed.**  Functions and structs keep
    their names, so that the scopes that are renamed declare the old name only by variables and
    parameters; the new name does not occur there. -/
inductive Renames : Depth → Part → Part → Prop
  | literal {D value} : Renames D (.expr (.literal value)) (.expr (.literal value))
  | group {D e e'} : Renames D (.expr e) (.expr e') →
      Renames D (.expr (.group e)) (.expr (.group e'))
  | unary {D op line e e'} : Renames D (.expr e) (.expr e') →
      Renames D (.expr (.unary op line e)) (.expr (.unary op line e'))
  | binary {D op line l l' r r'} : Renames D (.expr l) (.expr l') → Renames D (.expr r) (.expr r') →
      Renames D (.expr (.binary op line l r)) (.expr (.binary op line l' r'))
  | logical {D op l l' r r'} : Renames D (.expr l) (.expr l') → Renames D (.expr r) (.expr r') →
      Renames D (.expr (.logical op l r)) (.expr (.logical op l' r'))
  | ternary {D c c' y y' n n'} : Renames D (.expr c) (.expr c') → Renames D (.expr y) (.expr y') →
      Renames D (.expr n) (.expr n') →
      Renames D (.expr (.ternary c y n)) (.expr (.ternary c' y' n'))
  | reference {D site name} : ρ.Fresh D name.text →
      Renames D (.reference site name) (.reference site (ρ.referred D site name))
  | variable {D site name name'} : Renames D (.reference site name) (.reference site name') →
      Renames D (.expr (.variable site name)) (.expr (.variable site name'))
  | assign {D site name name' value value'} : Renames D (.expr value) (.expr value') →
      Renames D (.reference site name) (.reference site name') →
      Renames D (.expr (.assign site name value)) (.expr (.assign site name' value'))
  | call {D callee callee' line arguments arguments'} : Renames D (.expr callee) (.expr callee') →
      Renames D (.exprs arguments) (.exprs arguments') →
      Renames D (.expr (.call callee line arguments)) (.expr (.call callee' line arguments'))
  | get {D object object' name} : Renames D (.expr object) (.expr object') →
      Renames D (.expr (.get object name)) (.expr (.get object' name))
  | set {D object object' name value value'} : Renames D (.expr value) (.expr value') →
      Renames D (.expr object) (.expr object') →
      Renames D (.expr (.set object name value)) (.expr (.set object' name value'))
  | this {D site line} : Renames D (.expr (.this site line)) (.expr (.this site line))
  | function {D f f'} : (∀ name ∈ f.name, ρ.Fresh D name.text ∧ ρ.Spared D name.text) →
      Renames D (.function f) (.function f') →
      Renames D (.expr (.function f)) (.expr (.function f'))
  | noExprs {D} : Renames D (.exprs []) (.exprs [])
  | exprs {D e e' es es'} : Renames D (.expr e) (.expr e') → Renames D (.exprs es) (.exprs es') →
      Renames D (.exprs (e :: es)) (.exprs (e' :: es'))
  | absent {D} : Renames D (.optional none) (.optional none)
  | present {D e e'} : Renames D (.expr e) (.expr e') →
      Renames D (.optional (some e)) (.optional (some e'))
  /-- The parameters and the body of a function are in one scope. -/
  | body {D E title params body body' line} : D.Enters E →
      (∀ name ∈ params, ρ.Fresh E name.text) → Renames E (.stmts body) (.stmts body') →
      Renames D (.function (.mk title params body line))
        (.function (.mk title (params.map (ρ.declared E)) body' line))
  /-- The scope in which a method knows its receiver is never renamed. -/
  | method {D f f'} : Renames D.inner (.function f) (.function f') →
      Renames D (.method f) (.method f')
  | noMethods {D} : Renames D (.methods []) (.methods [])
  | methods {D f f' fs fs'} : Renames D (.method f) (.method f') →
      Renames D (.methods fs) (.methods fs') → Renames D (.methods (f :: fs)) (.methods (f' :: fs'))
  | expression {D e e'} : Renames D (.expr e) (.expr e') →
      Renames D (.stmt (.expression e)) (.stmt (.expression e'))
  | print {D e e'} : Renames D (.expr e) (.expr e') →
      Renames D (.stmt (.print e)) (.stmt (.print e'))
  | let {D name value value'} : ρ.Fresh D name.text →
      Renames D (.optional value) (.optional value') →
      Renames D (.stmt (.let name value)) (.stmt (.let (ρ.declared D name) value'))
  | block {D E body body'} : D.Enters E → Renames E (.stmts body) (.stmts body') →
      Renames D (.stmt (.block body)) (.stmt (.block body'))
  | if {D c c' y y' n n'} : Renames D (.expr c) (.expr c') → Renames D (.stmt y) (.stmt y') →
      Renames D (.alternative n) (.alternative n') →
      Renames D (.stmt (.if c y n)) (.stmt (.if c' y' n'))
  | while {D c c' body body'} : Renames D (.optional (some c)) (.optional (some c')) →
      Renames D (.rounds body) (.rounds body') →
      Renames D (.stmt (.while c body)) (.stmt (.while c' body'))
  | for {D E name name' value value' condition condition' step step' body body'} : D.Enters E →
      Renames E (.clauses name value condition step body)
        (.clauses name' value' condition' step' body') →
      Renames D (.stmt (.for name value condition step body))
        (.stmt (.for name' value' condition' step' body'))
  | break {D line} : Renames D (.stmt (.break line)) (.stmt (.break line))
  | continue {D line} : Renames D (.stmt (.continue line)) (.stmt (.continue line))
  | return {D line value value'} : Renames D (.optional value) (.optional value') →
      Renames D (.stmt (.return line value)) (.stmt (.return line value'))
  | struct {D name methods methods'} : ρ.Fresh D name.text → ρ.Spared D name.text →
      Renames D (.methods methods) (.methods methods') →
      Renames D (.stmt (.struct name methods)) (.stmt (.struct name methods'))
  | noAlternative {D} : Renames D (.alternative none) (.alternative none)
  | alternative {D s s'} : Renames D (.stmt s) (.stmt s') →
      Renames D (.alternative (some s)) (.alternative (some s'))
  | noStmts {D} : Renames D (.stmts []) (.stmts [])
  | stmts {D s s' ss ss'} : Renames D (.stmt s) (.stmt s') → Renames D (.stmts ss) (.stmts ss') →
      Renames D (.stmts (s :: ss)) (.stmts (s' :: ss'))
  | rounds {D body body'} : Renames D (.stmt body) (.stmt body') →
      Renames D (.rounds body) (.rounds body')
  | clauses {D name name' value value' condition condition' step step' body body'} :
      Renames D (.stmt (.let name value)) (.stmt (.let name' value')) →
      Renames D (.optional condition) (.optional condition') →
      Renames D (.optional step) (.optional step') → Renames D (.rounds body) (.rounds body') →
      Renames D (.clauses name value condition step body)
        (.clauses name' value' condition' step' body')

/-! ## What becomes of names -/

/-- The two names change places in a scope that is renamed. -/
def exchange (renamed : Bool) : Equiv.Perm String :=
  if renamed then Equiv.swap ρ.old ρ.new else Equiv.refl String

variable {ρ} {D E : Depth} {x : String}

@[simp] theorem exchange_false : ρ.exchange false x = x := rfl

@[simp] theorem exchange_old : ρ.exchange true ρ.old = ρ.new := Equiv.swap_apply_left _ _

@[simp] theorem exchange_exchange (b : Bool) : ρ.exchange b (ρ.exchange b x) = x := by
  cases b
  · rfl
  · exact DFunLike.congr_fun (Equiv.swap_swap ρ.old ρ.new) x

theorem exchange_of_ne (b : Bool) (ho : x ≠ ρ.old) (hn : x ≠ ρ.new) : ρ.exchange b x = x := by
  cases b
  · rfl
  · exact Equiv.swap_apply_of_ne_of_ne ho hn

theorem exchange_this (b : Bool) : ρ.exchange b "this" = "this" :=
  exchange_of_ne b ρ.old_ne.symm ρ.new_ne.symm

theorem ne_none_of_isAt {i : Nat} (h : D.isAt i = true) : D ≠ none := by
  rintro rfl
  cases h

/-- A name that is neither new nor declared by a renamed variable. -/
theorem exchange_spared (hf : ρ.Fresh D x) (hs : ρ.Spared D x) : ρ.exchange (D.isAt 0) x = x := by
  cases hd : D.isAt 0 with
  | false => rfl
  | true => exact exchange_of_ne true (hs (beq_iff_eq.1 hd)) (hf (ne_none_of_isAt hd))

theorem text_rename {n : Name} (hn : n.text ≠ ρ.new) :
    (ρ.rename n).text = ρ.exchange true n.text := by
  unfold rename
  split
  · next ho => rw [ho, exchange_old]
  · next ho => exact (exchange_of_ne true ho hn).symm

theorem text_declared {n : Name} (h : ρ.Fresh D n.text) :
    (ρ.declared D n).text = ρ.exchange (D.isAt 0) n.text := by
  unfold declared
  cases hd : D.isAt 0 with
  | false => rfl
  | true => exact text_rename (h (ne_none_of_isAt hd))

theorem text_referred {n : Name} {site i : Nat} (h : ρ.Fresh D n.text)
    (hs : ρ.distance site = some i) :
    (ρ.referred D site n).text = ρ.exchange (D.isAt i) n.text := by
  unfold referred
  rw [hs]
  dsimp only
  cases hd : D.isAt i with
  | false => rfl
  | true => exact text_rename (h (ne_none_of_isAt hd))

theorem referred_of_none {n : Name} {site : Nat} (hs : ρ.distance site = none) :
    ρ.referred D site n = n := by
  unfold referred
  rw [hs]

@[simp] theorem declared_none (n : Name) : ρ.declared none n = n := rfl

@[simp] theorem referred_none (site : Nat) (n : Name) : ρ.referred none site n = n := by
  unfold referred
  split <;> rfl

/-- The receiver keeps its name. -/
theorem referred_receiver (site line : Nat) :
    ρ.referred D site ⟨"this", line⟩ = ⟨"this", line⟩ := by
  unfold referred rename
  rw [if_neg (show "this" ≠ ρ.old from ρ.old_ne.symm)]
  split
  · split <;> rfl
  · rfl

theorem fresh_receiver : ρ.Fresh D "this" := fun _ => ρ.new_ne.symm

theorem Renames.receiver (site line : Nat) :
    ρ.Renames D (.reference site ⟨"this", line⟩) (.reference site ⟨"this", line⟩) := by
  have renamed : ρ.Renames D (.reference site ⟨"this", line⟩) _ := .reference fresh_receiver
  rwa [referred_receiver] at renamed

theorem Renames.name_eq {f f' : Function} (h : ρ.Renames D (.function f) (.function f')) :
    f'.name = f.name := by
  cases h
  rfl

end Renaming

/-! ## What renaming does -/

section

variable (ρ : Renaming) (chosen : Part → Bool)

mutual

/-- An expression with the variable renamed in the scopes that are chosen. -/
def Expr.renamed (D : Depth) : Expr → Expr
  | .literal value => .literal value
  | .group e => .group (e.renamed D)
  | .unary op line e => .unary op line (e.renamed D)
  | .binary op line l r => .binary op line (l.renamed D) (r.renamed D)
  | .logical op l r => .logical op (l.renamed D) (r.renamed D)
  | .ternary c y n => .ternary (c.renamed D) (y.renamed D) (n.renamed D)
  | .variable site name => .variable site (ρ.referred D site name)
  | .assign site name value => .assign site (ρ.referred D site name) (value.renamed D)
  | .call callee line arguments => .call (callee.renamed D) line (Expr.renamedAll D arguments)
  | .get object name => .get (object.renamed D) name
  | .set object name value => .set (object.renamed D) name (value.renamed D)
  | .this site line => .this site line
  | .function f => .function (f.renamed D)

def Expr.renamedAll (D : Depth) : List Expr → List Expr
  | [] => []
  | e :: es => e.renamed D :: Expr.renamedAll D es

def Expr.renamedOpt (D : Depth) : Option Expr → Option Expr
  | none => none
  | some e => some (e.renamed D)

def Function.renamed (D : Depth) : Function → Function
  | .mk title params body line =>
    let E := D.enter (chosen (.function (.mk title params body line)))
    .mk title (params.map (ρ.declared E)) (Stmt.renamedAll E body) line

def Function.renamedAll (D : Depth) : List Function → List Function
  | [] => []
  | f :: fs => f.renamed D.inner :: Function.renamedAll D fs

def Stmt.renamed (D : Depth) : Stmt → Stmt
  | .expression e => .expression (e.renamed D)
  | .print e => .print (e.renamed D)
  | .let name value => .let (ρ.declared D name) (Expr.renamedOpt D value)
  | .block body => .block (Stmt.renamedAll (D.enter (chosen (.stmts body))) body)
  | .if condition yes no =>
    .if (condition.renamed D) (yes.renamed D) (Stmt.renamedOpt D no)
  | .while condition body => .while (condition.renamed D) (body.renamed D)
  | .for name value condition step body =>
    let E := D.enter (chosen (.clauses name value condition step body))
    .for (ρ.declared E name) (Expr.renamedOpt E value) (Expr.renamedOpt E condition)
      (Expr.renamedOpt E step) (body.renamed E)
  | .break line => .break line
  | .continue line => .continue line
  | .return line value => .return line (Expr.renamedOpt D value)
  | .struct name methods => .struct name (Function.renamedAll D methods)

def Stmt.renamedOpt (D : Depth) : Option Stmt → Option Stmt
  | none => none
  | some s => some (s.renamed D)

/-- Statements with the variable renamed in the scopes that are chosen. -/
def Stmt.renamedAll (D : Depth) : List Stmt → List Stmt
  | [] => []
  | s :: ss => s.renamed D :: Stmt.renamedAll D ss

end

end

namespace Part

/-- A part with the variable renamed in the scopes that are chosen. -/
def renamed (ρ : Renaming) (chosen : Part → Bool) (D : Depth) : Part → Part
  | expr e => expr (e.renamed ρ chosen D)
  | exprs es => exprs (Expr.renamedAll ρ chosen D es)
  | optional e => optional (Expr.renamedOpt ρ chosen D e)
  | reference site name => reference site (ρ.referred D site name)
  | function f => function (f.renamed ρ chosen D)
  | method f => method (f.renamed ρ chosen D.inner)
  | methods fs => methods (Function.renamedAll ρ chosen D fs)
  | stmt s => stmt (s.renamed ρ chosen D)
  | alternative s => alternative (Stmt.renamedOpt ρ chosen D s)
  | stmts ss => stmts (Stmt.renamedAll ρ chosen D ss)
  | rounds body => rounds (body.renamed ρ chosen D)
  | clauses name value condition step body =>
    clauses (ρ.declared D name) (Expr.renamedOpt ρ chosen D value)
      (Expr.renamedOpt ρ chosen D condition) (Expr.renamedOpt ρ chosen D step)
      (body.renamed ρ chosen D)

/-- The names that occur in a part, where they are declared or where something refers to them. -/
def vocabulary : Part → List String
  | reference _ name => [name.text]
  | p => p.declares ++ p.encloses ++ p.references.map (·.name.text)

theorem declared_subset_vocabulary (p : Part) : p.declares ++ p.encloses ⊆ p.vocabulary := by
  cases p with
  | reference => exact List.nil_subset _
  | _ => exact List.subset_append_left _ _

theorem referred_subset_vocabulary (p : Part) :
    p.references.map (·.name.text) ⊆ p.vocabulary := by
  cases p with
  | reference => exact List.nil_subset _
  | _ => exact List.subset_append_right _ _

/-- A reference that stands directly inside a part is among those of the part. -/
theorem mem_references_of_inside {site : Nat} {name : Name} {p : Part}
    (h : (reference site name).Inside p) : ∃ r ∈ p.references, r.name = name := by
  cases h with
  | piece h =>
    cases p with
    | expr e => cases e <;> simp [pieces] at h <;> exact ⟨_, List.mem_cons_self, h.1.2.symm⟩
    | exprs l | methods l | stmts l => cases l <;> simp [pieces] at h
    | optional o | alternative o => cases o <;> simp [pieces] at h
    | stmt s => cases s <;> simp [pieces] at h
    | clauses => simp [pieces] at h
    | reference | function | method | rounds => cases h

theorem Inside.vocabulary_subset {q p : Part} (h : q.Inside p) : q.vocabulary ⊆ p.vocabulary := by
  cases q with
  | reference site name =>
    obtain ⟨r, hr, rfl⟩ := mem_references_of_inside h
    exact List.cons_subset.2
      ⟨p.referred_subset_vocabulary (List.mem_map_of_mem hr), List.nil_subset _⟩
  | _ =>
    exact List.append_subset.2
      ⟨List.Subset.trans h.names_subset p.declared_subset_vocabulary,
        List.Subset.trans (List.map_subset _ h.references_subset) p.referred_subset_vocabulary⟩

/-- A name that does not occur in a program occurs in none of its scopes. -/
theorem vocabulary_subset_of_within {q p : Part} (h : Relation.ReflTransGen Inside q p) :
    q.vocabulary ⊆ p.vocabulary := by
  induction h with
  | refl => exact List.Subset.refl _
  | tail _ hq ih => exact List.Subset.trans ih hq.vocabulary_subset

/-- A function or a struct declares a name in the scope that a part stands in. -/
inductive Titles (x : String) : Part → Prop
  | literal {f : Function} {name : Name} : name ∈ f.name → name.text = x →
      Titles x (.expr (.function f))
  | struct {name : Name} {methods} : name.text = x → Titles x (.stmt (.struct name methods))
  | value {name value} : Titles x (.optional value) → Titles x (.stmt (.let name value))
  | round {body} : Titles x (.stmt body) → Titles x (.rounds body)
  | piece {p q : Part} {names : List String} : (q, names) ∈ p.pieces → Titles x q → Titles x p

theorem Titles.mem_declares {x : String} {p : Part} (h : p.Titles x) : x ∈ p.declares := by
  induction h with
  | literal hname hx => exact List.mem_map.2 ⟨_, Option.mem_toList.2 hname, hx⟩
  | struct hx => exact List.mem_singleton.2 hx.symm
  | value _ ih => exact List.mem_cons_of_mem _ ih
  | round _ ih => exact ih
  | piece hq _ ih => exact declares_pieces _ hq ih

theorem not_titles_function {x : String} (f : Function) : ¬ (Part.function f).Titles x := by
  intro h
  cases h with
  | piece hq => cases hq

/-- The functions that stand in a struct declare no names in the scope around. -/
theorem not_titles_methods {x : String} (fs : List Function) : ¬ (Part.methods fs).Titles x := by
  intro h
  induction fs with
  | nil =>
    cases h with
    | piece hq => cases hq
  | cons f fs ih =>
    cases h with
    | piece hq h =>
      cases hq with
      | head =>
        cases h with
        | piece hq => cases hq
      | tail _ hq =>
        obtain ⟨rfl, -⟩ := Prod.mk.inj (List.mem_singleton.1 hq)
        exact ih h

/-- **The variable can be renamed in a scope**: the scope declares it only by variables and
    parameters, and the new name does not occur there. -/
def Renamable (ρ : Renaming) : Part → Prop
  | function (.mk title params body line) =>
    ρ.new ∉ (function (.mk title params body line)).vocabulary ∧ ¬ (stmts body).Titles ρ.old
  | scope => ρ.new ∉ scope.vocabulary ∧ ¬ scope.Titles ρ.old

end Part

namespace Renaming

variable {ρ : Renaming} {chosen : Part → Bool} {D : Depth}

/-- **A part is renamed in all scopes that are chosen**, if the variable can be renamed in each of
    them. -/
theorem Renames.renamed (part : Part) (D : Depth) (hnew : D ≠ none → ρ.new ∉ part.vocabulary)
    (hold : D = some 0 → ¬ part.Titles ρ.old)
    (hc : ∀ q, Relation.ReflTransGen Part.Inside q part → chosen q = true → q.Renamable ρ) :
    ρ.Renames D part (part.renamed ρ chosen D) := by
  induction part using Part.wellFounded_inside.induction generalizing D with
  | _ part ih =>
    have fresh {x : String} (hx : x ∈ part.declares ++ part.encloses) : ρ.Fresh D x :=
      fun hD h => hnew hD (h ▸ part.declared_subset_vocabulary hx)
    -- what stands inside a scope that is renamed does not know the new name either
    have apart {q : Part} (hq : q.Inside part) (hD : D ≠ none) : ρ.new ∉ q.vocabulary :=
      fun h => hnew hD (hq.vocabulary_subset h)
    have within {q : Part} (hq : q.Inside part) (r : Part)
        (hr : Relation.ReflTransGen Part.Inside r q) : chosen r = true → r.Renamable ρ :=
      hc r (hr.tail hq)
    have piece {q : Part} {names : List String} (hq : (q, names) ∈ part.pieces) :
        ρ.Renames D q (q.renamed ρ chosen D) :=
      ih q (.piece hq) D (apart (.piece hq)) (fun hD h => hold hD (.piece hq h))
        (within (.piece hq))
    -- a scope is entered, which is renamed if it is chosen
    have entered {q : Part} (hq : q.Inside part) (b : Bool)
        (hb : b = true → ρ.new ∉ q.vocabulary ∧ ¬ q.Titles ρ.old) :
        ρ.Renames (D.enter b) q (q.renamed ρ chosen (D.enter b)) := by
      cases D with
      | none =>
        cases b with
        | false => exact ih q hq none (absurd rfl) nofun (within hq)
        | true => exact ih q hq _ (fun _ => (hb rfl).1) (fun _ => (hb rfl).2) (within hq)
      | some => exact ih q hq _ (fun _ => apart hq nofun) nofun (within hq)
    cases part with
    | reference site name => exact .reference fun hD h => hnew hD (h ▸ List.mem_singleton_self _)
    | expr e =>
      cases e with
      | literal => exact .literal
      | group => exact .group (piece (.head _))
      | unary => exact .unary (piece (.head _))
      | binary => exact .binary (piece (.head _)) (piece (.tail _ (.head _)))
      | logical => exact .logical (piece (.head _)) (piece (.tail _ (.head _)))
      | ternary =>
        exact .ternary (piece (.head _)) (piece (.tail _ (.head _)))
          (piece (.tail _ (.tail _ (.head _))))
      | «variable» => exact .variable (piece (.head _))
      | assign => exact .assign (piece (.head _)) (piece (.tail _ (.head _)))
      | call => exact .call (piece (.head _)) (piece (.tail _ (.head _)))
      | get => exact .get (piece (.head _))
      | set => exact .set (piece (.head _)) (piece (.tail _ (.head _)))
      | this => exact .this
      | function f =>
        exact .function
          (fun name hname => ⟨fresh (List.mem_append_left _ (List.mem_map.2
            ⟨name, Option.mem_toList.2 hname, rfl⟩)), fun hD hx => hold hD (.literal hname hx)⟩)
          (ih _ .literal D (apart .literal) (fun _ => Part.not_titles_function f)
            (within .literal))
    | exprs es =>
      cases es with
      | nil => exact .noExprs
      | cons => exact .exprs (piece (.head _)) (piece (.tail _ (.head _)))
    | optional e =>
      cases e with
      | none => exact .absent
      | some => exact .present (piece (.head _))
    | function f =>
      obtain ⟨title, params, body, line⟩ := f
      have renamable := hc _ .refl
      have named {name : Name} (hname : name ∈ params) :
          name.text ∈ (Part.function (.mk title params body line)).vocabulary :=
        Part.declared_subset_vocabulary _ (List.mem_append_right _ (List.mem_append_left _
          (List.mem_map.2 ⟨name, hname, rfl⟩)))
      refine .body (D.enters_enter _) (fun name hname hE hx => ?_) (entered .body _ fun hb =>
        ⟨fun h => (renamable hb).1 (Part.Inside.body.vocabulary_subset h), (renamable hb).2⟩)
      cases D with
      | none =>
        cases hb : chosen (.function (.mk title params body line)) with
        | false => exact hE (by rw [hb]; rfl)
        | true => exact (renamable hb).1 (hx ▸ named hname)
      | some => exact hnew nofun (hx ▸ named hname)
    | method f => exact .method (entered .receiver false nofun)
    | methods fs =>
      cases fs with
      | nil => exact .noMethods
      | cons => exact .methods (piece (.head _)) (piece (.tail _ (.head _)))
    | stmt s =>
      cases s with
      | expression => exact .expression (piece (.head _))
      | print => exact .print (piece (.head _))
      | «let» =>
        exact .let (fresh List.mem_cons_self) (ih _ .value D (apart .value)
          (fun hD h => hold hD (.value h)) (within .value))
      | block =>
        exact .block (D.enters_enter _) (entered .block _ (within .block _ .refl))
      | «if» =>
        exact .if (piece (.head _)) (piece (.tail _ (.head _)))
          (piece (.tail _ (.tail _ (.head _))))
      | «while» => exact .while (piece (.head _)) (piece (.tail _ (.head _)))
      | «for» => exact .for (D.enters_enter _) (entered .loop _ (within .loop _ .refl))
      | «break» => exact .break
      | «continue» => exact .continue
      | «return» => exact .return (piece (.head _))
      | struct name methods =>
        exact .struct (fresh List.mem_cons_self) (fun hD hx => hold hD (.struct hx))
          (ih _ .methods D (apart .methods) (fun _ => Part.not_titles_methods methods)
            (within .methods))
    | alternative s =>
      cases s with
      | none => exact .noAlternative
      | some => exact .alternative (piece (.head _))
    | stmts ss =>
      cases ss with
      | nil => exact .noStmts
      | cons => exact .stmts (piece (.head _)) (piece (.tail _ (.head _)))
    | rounds =>
      exact .rounds (ih _ .round D (apart .round) (fun hD h => hold hD (.round h))
        (within .round))
    | clauses =>
      exact .clauses (piece (.head _)) (piece (.tail _ (.head _)))
        (piece (.tail _ (.tail _ (.head _)))) (piece (.tail _ (.tail _ (.tail _ (.head _)))))

end Renaming

section

variable (ρ : Renaming)

mutual

theorem Expr.renamed_none : ∀ e : Expr, e.renamed ρ (fun _ => false) none = e
  | .literal _ | .this _ _ => rfl
  | .group e | .unary _ _ e | .get e _ => by simp only [Expr.renamed, e.renamed_none]
  | .binary _ _ l r | .logical _ l r | .set l _ r => by
    simp only [Expr.renamed, l.renamed_none, r.renamed_none]
  | .ternary c y n => by simp only [Expr.renamed, c.renamed_none, y.renamed_none, n.renamed_none]
  | .variable _ _ => by simp only [Expr.renamed, Renaming.referred_none]
  | .assign _ _ value => by
    simp only [Expr.renamed, Renaming.referred_none, value.renamed_none]
  | .call callee _ arguments => by
    simp only [Expr.renamed, callee.renamed_none, Expr.renamedAll_none arguments]
  | .function f => by simp only [Expr.renamed, f.renamed_none]

theorem Expr.renamedAll_none : ∀ es : List Expr, Expr.renamedAll ρ (fun _ => false) none es = es
  | [] => rfl
  | e :: es => by simp only [Expr.renamedAll, e.renamed_none, Expr.renamedAll_none es]

theorem Expr.renamedOpt_none : ∀ e : Option Expr, Expr.renamedOpt ρ (fun _ => false) none e = e
  | none => rfl
  | some e => by simp only [Expr.renamedOpt, e.renamed_none]

theorem Function.renamed_none : ∀ f : Function, f.renamed ρ (fun _ => false) none = f
  | .mk title params body line => by
    have hbody := Stmt.renamedAll_none body
    have hparams : params.map (ρ.declared none) = params := List.map_id params
    simp only [Function.renamed, Depth.enter_none, hbody, hparams]

theorem Function.renamedAll_none :
    ∀ fs : List Function, Function.renamedAll ρ (fun _ => false) none fs = fs
  | [] => rfl
  | f :: fs => by
    simp only [Function.renamedAll, Depth.inner_none, f.renamed_none, Function.renamedAll_none fs]

theorem Stmt.renamed_none : ∀ s : Stmt, s.renamed ρ (fun _ => false) none = s
  | .break _ | .continue _ => rfl
  | .expression e | .print e => by simp only [Stmt.renamed, e.renamed_none]
  | .let _ value => by
    simp only [Stmt.renamed, Renaming.declared_none, Expr.renamedOpt_none value]
  | .block body => by simp only [Stmt.renamed, Depth.enter_none, Stmt.renamedAll_none body]
  | .if condition yes no => by
    simp only [Stmt.renamed, condition.renamed_none, yes.renamed_none, Stmt.renamedOpt_none no]
  | .while condition body => by
    simp only [Stmt.renamed, condition.renamed_none, body.renamed_none]
  | .for _ value condition step body => by
    simp only [Stmt.renamed, Depth.enter_none, Renaming.declared_none, Expr.renamedOpt_none,
      body.renamed_none]
  | .return _ value => by simp only [Stmt.renamed, Expr.renamedOpt_none value]
  | .struct _ methods => by simp only [Stmt.renamed, Function.renamedAll_none methods]

theorem Stmt.renamedOpt_none : ∀ s : Option Stmt, Stmt.renamedOpt ρ (fun _ => false) none s = s
  | none => rfl
  | some s => by simp only [Stmt.renamedOpt, s.renamed_none]

theorem Stmt.renamedAll_none : ∀ ss : List Stmt, Stmt.renamedAll ρ (fun _ => false) none ss = ss
  | [] => rfl
  | s :: ss => by simp only [Stmt.renamedAll, s.renamed_none, Stmt.renamedAll_none ss]

end

/-- Outside of the scopes that are renamed nothing changes. -/
theorem Part.renamed_none (part : Part) : part.renamed ρ (fun _ => false) none = part := by
  cases part <;>
    simp only [renamed, Depth.inner_none, Renaming.declared_none, Renaming.referred_none,
      Expr.renamed_none, Expr.renamedAll_none, Expr.renamedOpt_none, Function.renamed_none,
      Function.renamedAll_none, Stmt.renamed_none, Stmt.renamedOpt_none, Stmt.renamedAll_none]

end

/-- So outside of them nothing has to be renamed. -/
theorem Renaming.Renames.refl {ρ : Renaming} (part : Part) : ρ.Renames none part part := by
  have same : ρ.Renames none part (part.renamed ρ (fun _ => false) none) :=
    .renamed part none (absurd rfl) nofun fun _ _ => nofun
  rwa [part.renamed_none] at same

end Scriptling
