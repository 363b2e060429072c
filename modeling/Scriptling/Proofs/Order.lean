/-
  Order — expressions are walked over in the order in which they are evaluated.

  * `RunsHere`: what an expression runs in its own scope, without the functions that it calls;
  * `Then`: of two things that an expression runs itself, one comes after the other;
    `Then.of_calls`: so it is for any two of them;
  * `Precedes`: one point comes before another one in the evaluation of an expression;
  * `Part.Holds`: what stands in a part, with what the walk comes to before it;
  * `resolved_in_order`: a name that is declared by a function literal means what the literal has
    declared wherever it is evaluated after the literal, unless the literal stands in the object and
    the name in the value of an assignment to a field; of these the walk comes to the value first.
-/
import Scriptling.Proofs.Initializers
import Scriptling.Proofs.Reach

namespace Scriptling

open Eval

/-! ## Evaluation -/

/-- What an expression runs in its own scope: expressions and accesses to variables. -/
def Job.IsLocal : Job → Prop
  | .expr _ | .exprs _ | .read _ _ | .write _ _ _ => True
  | _ => False

/-- **What a point runs in its own scope**, without the functions that it calls. -/
def RunsHere : Point → Point → Prop :=
  Relation.ReflTransGen fun c c' => Calls c c' ∧ c'.job.IsLocal

/-- **One after the other**: what an expression runs itself, and what it runs after that; each
    premise is the outcome of what was run before. -/
inductive Then : Point → Point → Point → Prop
  | operands {k op line l r m a m₁} : evaluate k l m = some (.ok a, m₁) →
      Then ⟨k + 1, .expr (.binary op line l r), m⟩ ⟨k, .expr l, m⟩ ⟨k, .expr r, m₁⟩
  | undecided {k op l r m a m₁} : evaluate k l m = some (.ok a, m₁) → op.isDecided a = false →
      Then ⟨k + 1, .expr (.logical op l r), m⟩ ⟨k, .expr l, m⟩ ⟨k, .expr r, m₁⟩
  | yes {k c y n m v m₁} : evaluate k c m = some (.ok v, m₁) → v.isTruthy = true →
      Then ⟨k + 1, .expr (.ternary c y n), m⟩ ⟨k, .expr c, m⟩ ⟨k, .expr y, m₁⟩
  | no {k c y n m v m₁} : evaluate k c m = some (.ok v, m₁) → v.isTruthy = false →
      Then ⟨k + 1, .expr (.ternary c y n), m⟩ ⟨k, .expr c, m⟩ ⟨k, .expr n, m₁⟩
  | assign {k site name e m v m₁} : evaluate k e m = some (.ok v, m₁) →
      Then ⟨k + 1, .expr (.assign site name e), m⟩ ⟨k, .expr e, m⟩ ⟨k, .write site name v, m₁⟩
  | arguments {k e line es m f m₁} : evaluate k e m = some (.ok f, m₁) →
      Then ⟨k + 1, .expr (.call e line es), m⟩ ⟨k, .expr e, m⟩ ⟨k, .exprs es, m₁⟩
  | others {k e es m v m₁} : evaluate k e m = some (.ok v, m₁) →
      Then ⟨k + 1, .exprs (e :: es), m⟩ ⟨k, .expr e, m⟩ ⟨k, .exprs es, m₁⟩
  | field {k e name value m t i m₁} : evaluate k e m = some (.ok (.object t i), m₁) →
      Then ⟨k + 1, .expr (.set e name value), m⟩ ⟨k, .expr e, m⟩ ⟨k, .expr value, m₁⟩

/-- **Of two things that an expression runs itself in its scope, one comes after the other.** -/
theorem Then.of_calls {p a b : Point} (hp : p.job.IsLocal) (ha : Calls p a) (hb : Calls p b)
    (ha' : a.job.IsLocal) (hb' : b.job.IsLocal) : a = b ∨ Then p a b ∨ Then p b a := by
  -- where both have run something else before, it came to the same
  cases ha <;> cases hb <;> first
    | exact False.elim hp
    | exact False.elim ha'
    | exact False.elim hb'
    | exact .inl rfl
    | exact .inr (.inl (by constructor <;> assumption))
    | exact .inr (.inr (by constructor <;> assumption))
    | exact .inl (by simp_all)

/-- **The second point comes before the third one in a run of the first**: at a fork on the way,
    what leads to the third is run after what leads to the second. -/
def Precedes (p fork q r : Point) : Prop :=
  ∃ a b, RunsHere p fork ∧ Then fork a b ∧ RunsHere a q ∧ RunsHere b r

/-! ## The walk -/

/-- **A part stands in another one, outside of the functions in it**; the walk over that part comes
    to some other parts before it. -/
inductive Part.Holds : Part → List Part → Part → Prop
  | here {part} : Holds part [] part
  | piece {part before q names after ps r} :
      part.pieces = before ++ (q, names) :: after → Holds q ps r →
      Holds part (before.map Prod.fst ++ ps) r

namespace Part.Holds

variable {part q r : Part} {ps qs : List Part}

theorem trans (h : part.Holds ps q) (h' : q.Holds qs r) : part.Holds (ps ++ qs) r := by
  induction h with
  | here => exact h'
  | piece hq _ ih =>
    rw [List.append_assoc]
    exact .piece hq (ih h')

theorem direct {site : Nat} {name : Name} (h : part.Holds ps (.reference site name)) :
    Direct part ps site name := by
  generalize hr : Part.reference site name = r at h
  induction h with
  | here =>
    subst hr
    exact .here
  | piece hq _ ih => exact .piece hq (ih hr)

/-- What a part declares is declared by what holds it. -/
theorem declares (h : part.Holds ps q) : q.declares ⊆ part.declares := by
  induction h with
  | here => exact List.Subset.refl _
  | @piece _ _ q names _ _ _ hq _ ih =>
    refine List.Subset.trans ih (Part.declares_pieces (q, names) ?_)
    rw [hq]
    exact List.mem_append_right _ List.mem_cons_self

end Part.Holds

/-- What an expression runs itself in its scope is one of its pieces. -/
theorem Calls.piece {c c' : Point} (h : Calls c c') (hc : c.job.IsLocal) (hc' : c'.job.IsLocal) :
    ∃ part q names, c.job.part? = some part ∧ c'.job.part? = some q ∧ (q, names) ∈ part.pieces := by
  cases h
  all_goals first
    | exact False.elim hc
    | exact False.elim hc'
    | exact ⟨_, _, _, rfl, rfl, List.mem_cons_self⟩
    | exact ⟨_, _, _, rfl, rfl, List.mem_cons_of_mem _ List.mem_cons_self⟩
    | exact ⟨_, _, _, rfl, rfl, List.mem_cons_of_mem _ (List.mem_cons_of_mem _ List.mem_cons_self)⟩

/-- What is run in the scope of an expression stands in it. -/
theorem RunsHere.holds {c c' : Point} (h : RunsHere c c') (hc : c.job.IsLocal) {part : Part}
    (hpart : c.job.part? = some part) :
    c'.job.IsLocal ∧ ∃ ps q, c'.job.part? = some q ∧ part.Holds ps q := by
  induction h with
  | refl => exact ⟨hc, [], part, hpart, .here⟩
  | tail _ hcall ih =>
    obtain ⟨hlocal, ps, q, hq, hholds⟩ := ih
    obtain ⟨p, r, names, hp, hr, hmem⟩ := hcall.1.piece hlocal hcall.2
    cases hq.symm.trans hp
    obtain ⟨before, after, hpieces⟩ := List.append_of_mem hmem
    exact ⟨hcall.2, _, r, hr, hholds.trans (.piece hpieces .here)⟩

/-- **What is run first is walked over first**, unless it is the object of an assignment to a
    field. -/
theorem Then.pieces {p a b : Point} (h : Then p a b)
    (hset : ∀ object field value, p.job ≠ .expr (.set object field value)) :
    a.job.IsLocal ∧ b.job.IsLocal ∧ ∃ part q r before names between names' after,
      p.job.part? = some part ∧ a.job.part? = some q ∧ b.job.part? = some r ∧
      part.pieces = before ++ (q, names) :: (between ++ (r, names') :: after) := by
  cases h with
  | field => exact absurd rfl (hset _ _ _)
  | no => exact ⟨trivial, trivial, _, _, _, [], _, [_], _, [], rfl, rfl, rfl, rfl⟩
  | operands | undecided | yes | assign | arguments | others =>
    exact ⟨trivial, trivial, _, _, _, [], _, [], _, _, rfl, rfl, rfl, rfl⟩

/-- A reference is known by its name in its own scope if what comes before it has declared the name
    there, or the scope has it with its value. -/
theorem Direct.lookup_eq_zero_iff {globals : List String} {program : List Stmt}
    {ds : List (Nat × Nat)} (hn : (Part.stmts program).sites.Nodup)
    (hds : resolve globals program = .ok ds) {r : Region} {Γ : List Region} {part : Part}
    (hocc : Occurs program (r :: Γ) part) {ps : List Part} {site : Nat} {name : Name}
    (h : Direct part ps site name) :
    ds.lookup site = some 0 ↔
      name.text ∈ ps.flatMap Part.declares ∨ r.Binds name.text ∧ ¬ r.Awaits name.text := by
  let p : Pass := ⟨globals, program, 0⟩
  have hds : p.Accepts ds := hds
  obtain ⟨L, w, hv, hdescribes⟩ := Pass.Visits.of_occurs hds hocc
  obtain ⟨w', hw', -⟩ := hv.passes hds
  obtain ⟨a, -, ha, -⟩ := h.refers hw'
  obtain ⟨s, rest, hs, hrs⟩ : ∃ s rest, w.scopes = s :: rest ∧ r.Describes s := by
    generalize w.scopes = ss at hdescribes
    cases hdescribes with
    | cons hr _ => exact ⟨_, _, rfl, hr⟩
  have known : s.get? name.text = some true ↔ r.Binds name.text ∧ ¬ r.Awaits name.text := by
    rw [← hrs.contains, ← hrs.awaits, Bindings.contains]
    rcases s.get? name.text with _ | _ | _ <;> simp
  rw [h.lookup_eq (hv.isolated hds hn) hw' ha,
    Walk.distance?_settled hs (Part.resolveEach_settles ha), ← known]
  split
  · next hknown => exact iff_of_true rfl hknown
  · next hknown =>
    refine iff_of_false (fun hzero => ?_) hknown
    obtain ⟨d, -, hd⟩ := Option.map_eq_some_iff.1 hzero
    exact Nat.succ_ne_zero d hd

/-- **Expressions are walked over in the order in which they are evaluated**, but for the object and
    the value of an assignment to a field.  In a scope of an accepted program, let a function
    literal with a name and a reference with this name stand in an expression, outside of the
    functions in it, and let the literal come before the reference in a run of the expression.  Then
    the reference means what the literal has declared in the scope: its distance is zero.  Only if
    they fork at an assignment to a field is the reference walked over before the literal; then its
    distance is zero if and only if what is walked over before the reference itself, in the value
    and before the assignment, declares the name, or the scope binds it already. -/
theorem resolved_in_order {globals : List String} {program : List Stmt} {ds : List (Nat × Nat)}
    (hn : (Part.stmts program).sites.Nodup) (hds : resolve globals program = .ok ds)
    {r : Region} {Γ : List Region} {e : Expr} (hocc : Occurs program (r :: Γ) (.expr e))
    {p fork literal access : Point} (hp : p.job = .expr e) (h : Precedes p fork literal access)
    {title : Name} {params : List Name} {body : List Stmt} {line : Nat}
    (hliteral : literal.job = .expr (.function (.mk (some title) params body line)))
    {site : Nat} {name : Name} (haccess : access.job.part? = some (.reference site name))
    (hname : name.text = title.text) :
    ((∀ object field value, fork.job ≠ .expr (.set object field value)) →
      ds.lookup site = some 0) ∧
    ∀ object field value, fork.job = .expr (.set object field value) →
      ∃ ps qs, (Part.expr e).Holds ps (.expr (.set object field value)) ∧
        Direct (.expr value) qs site name ∧
        (ds.lookup site = some 0 ↔ name.text ∈ (ps ++ qs).flatMap Part.declares ∨
          r.Binds name.text ∧ ¬ r.Awaits name.text) := by
  obtain ⟨a, b, hfork, hthen, ha, hb⟩ := h
  have hpart : p.job.part? = some (.expr e) := by rw [hp]; rfl
  obtain ⟨-, ps, part, hforkPart, hholds⟩ := hfork.holds (by rw [hp]; trivial) hpart
  refine ⟨fun hset => ?_, fun object field value hset => ?_⟩
  · obtain ⟨hla, hlb, part', q, s, before, names, between, names', after, hpart', hq, hs,
      hpieces⟩ := hthen.pieces hset
    cases hforkPart.symm.trans hpart'
    obtain ⟨-, _, u, hu, hqu⟩ := ha.holds hla hq
    obtain ⟨-, qs, v, hv, hsv⟩ := hb.holds hlb hs
    cases hv.symm.trans haccess
    obtain rfl : u = .expr (.function (.mk (some title) params body line)) := by
      rw [hliteral] at hu
      exact (Option.some.inj hu).symm
    have hpieces' : part.pieces = (before ++ (q, names) :: between) ++ (s, names') :: after := by
      rw [hpieces]
      simp
    have hdirect := (hholds.trans (.piece hpieces' hsv)).direct
    refine (hdirect.lookup_eq_zero_iff hn hds hocc).2 (.inl ?_)
    have hdeclares : name.text ∈ q.declares := hqu.declares (by
      rw [hname]
      exact List.mem_singleton_self _)
    simp only [List.map_append, List.map_cons, List.flatMap_append, List.flatMap_cons,
      List.mem_append]
    exact .inr (.inl (.inr (.inl hdeclares)))
  · obtain ⟨k, job, m⟩ := fork
    cases hset
    cases hforkPart
    cases hthen with
    | field =>
    obtain ⟨-, qs, v, hv, hqv⟩ := hb.holds trivial rfl
    cases hv.symm.trans haccess
    have hvalue : (Part.expr (.set object field value)).Holds qs (.reference site name) :=
      @Part.Holds.piece _ [] _ _ _ _ _ rfl hqv
    exact ⟨ps, qs, hholds, hqv.direct, (hholds.trans hvalue).direct.lookup_eq_zero_iff hn hds hocc⟩

/-! ## An assignment to a field -/

/-- Declares the function `n`. -/
def declaresN : Expr := .function (.mk (some ⟨"n", 1⟩) [] [] 1)

/-- Comes to the instance, once the function is declared. -/
def instanceAfterN : Expr := .logical .and declaresN (.variable 0 ⟨"p", 1⟩)

/-- A reference to the function. -/
def readsN : Expr := .variable 1 ⟨"n", 1⟩

/-- A block in which there is nothing but an expression. -/
def blockOf (e : Expr) : List Stmt := [.block [.expression e]]

theorem occurs_blockOf (e : Expr) : Occurs (blockOf e) [[]] (.expr e) := by
  have first : Occurs (blockOf e) [] (.stmt (.block [.expression e])) :=
    .piece .program (List.nil_append _).symm
  have inside : Occurs (blockOf e) [[]] (.stmt (.expression e)) :=
    .piece (.block first) (List.nil_append _).symm
  exact .piece inside (List.nil_append _).symm

/-- A machine in a scope of its own, with an instance among the globals. -/
def withInstance : Machine :=
  { frames := ⟨#[Bindings.empty.set "p" (.object ⟨0, "P", .empty⟩ 0), .empty]⟩
    scope := [1, globalFrame], objects := #[.empty] }

/-- An evaluation has come to an instance. -/
def isObject : Option (Except Error Value × Machine) → Bool
  | some (.ok (.object _ _), _) => true
  | _ => false

theorem exists_of_isObject {x : Option (Except Error Value × Machine)} (h : isObject x = true) :
    ∃ t i m, x = some (.ok (.object t i), m) := by
  unfold isObject at h
  split at h
  · exact ⟨_, _, _, rfl⟩
  · cases h

/-- The function is declared before it is read, in the operands of an operator. -/
theorem precedes_operands : ∃ literal access,
    Precedes ⟨2, .expr (.binary .equal 1 declaresN readsN), withInstance⟩
      ⟨2, .expr (.binary .equal 1 declaresN readsN), withInstance⟩ literal access ∧
    literal.job = .expr declaresN ∧ access.job = .read 1 ⟨"n", 1⟩ :=
  ⟨_, _, ⟨_, _, .refl, .operands rfl, .refl, .single ⟨.variable, trivial⟩⟩, rfl, rfl⟩

theorem resolved_in_order_operands :
    ∃ literal access,
      Precedes ⟨2, .expr (.binary .equal 1 declaresN readsN), withInstance⟩
        ⟨2, .expr (.binary .equal 1 declaresN readsN), withInstance⟩ literal access ∧
      literal.job = .expr declaresN ∧ access.job = .read 1 ⟨"n", 1⟩ ∧
      resolve [] (blockOf (.binary .equal 1 declaresN readsN)) = .ok [(1, 0)] ∧
      ([(1, 0)] : List (Nat × Nat)).lookup 1 = some 0 := by
  obtain ⟨literal, access, hprecedes, hliteral, haccess⟩ := precedes_operands
  have hn : (Part.stmts (blockOf (.binary .equal 1 declaresN readsN))).sites.Nodup := by decide
  have hds : resolve [] (blockOf (.binary .equal 1 declaresN readsN)) = .ok [(1, 0)] := by
    decide +kernel
  refine ⟨literal, access, hprecedes, hliteral, haccess, hds, ?_⟩
  exact (resolved_in_order hn hds (occurs_blockOf _) rfl hprecedes hliteral
    (by rw [haccess]; rfl) rfl).1 nofun

/-- The function is declared in the object of an assignment to a field before it is read in the
    value. -/
theorem precedes_field : ∃ literal access,
    Precedes ⟨4, .expr (.set instanceAfterN ⟨"f", 1⟩ readsN), withInstance⟩
      ⟨4, .expr (.set instanceAfterN ⟨"f", 1⟩ readsN), withInstance⟩ literal access ∧
    literal.job = .expr declaresN ∧ access.job = .read 1 ⟨"n", 1⟩ := by
  have evaluated : isObject (evaluate 3 instanceAfterN withInstance) = true := by decide +kernel
  obtain ⟨t, i, m, hm⟩ := exists_of_isObject evaluated
  exact ⟨_, _, ⟨_, _, .refl, .field hm, .single ⟨.first, trivial⟩, .single ⟨.variable, trivial⟩⟩,
    rfl, rfl⟩

/-- **A function that is declared in the object of an assignment to a field is not known in the
    value**, though the object is evaluated first: there the name is that of a global. -/
theorem resolved_in_order_misses_field :
    (∃ literal access,
      Precedes ⟨4, .expr (.set instanceAfterN ⟨"f", 1⟩ readsN), withInstance⟩
        ⟨4, .expr (.set instanceAfterN ⟨"f", 1⟩ readsN), withInstance⟩ literal access ∧
      literal.job = .expr declaresN ∧ access.job = .read 1 ⟨"n", 1⟩) ∧
    Occurs (blockOf (.set instanceAfterN ⟨"f", 1⟩ readsN)) [[]]
      (.expr (.set instanceAfterN ⟨"f", 1⟩ readsN)) ∧
    resolve [] (blockOf (.set instanceAfterN ⟨"f", 1⟩ readsN)) = .ok [] ∧
    ([] : List (Nat × Nat)).lookup 1 ≠ some 0 ∧
    resolve [] (Session.statements 0
      "struct P \x7b\x7d let p = P(); \x7b (fn n() \x7b\x7d && p).f = n; print p.f; \x7d") = .ok [] :=
  ⟨precedes_field, occurs_blockOf _, by decide +kernel, nofun, by decide +kernel⟩

end Scriptling
