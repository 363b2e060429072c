/-
  Nesting — what stands directly inside a part.

  * `Part.Inside`: a piece of a part, or what the part opens a scope or a declaration for;
  * `Part.wellFounded_inside`: so what holds of a part if it holds of all that stands directly
    inside it holds of every part.
-/
import Scriptling.Proofs.Parts

namespace Scriptling

namespace Part

/-- **The first part stands directly inside the second one.** -/
inductive Inside : Part → Part → Prop
  | piece {q p : Part} {names : List String} : (q, names) ∈ p.pieces → Inside q p
  | literal {f : Function} : Inside (.function f) (.expr (.function f))
  | body {title params body line} : Inside (.stmts body) (.function (.mk title params body line))
  | receiver {f : Function} : Inside (.function f) (.method f)
  | value {name value} : Inside (.optional value) (.stmt (.let name value))
  | block {body} : Inside (.stmts body) (.stmt (.block body))
  | loop {name value condition step body} :
      Inside (.clauses name value condition step body)
        (.stmt (.for name value condition step body))
  | round {body} : Inside (.stmt body) (.rounds body)
  | methods {name methods} : Inside (.methods methods) (.stmt (.struct name methods))

/-- The size of a part.  What is added to the syntax where a scope or a loop begins counts, and
    less than a level of the syntax. -/
noncomputable def size : Part → Nat
  | expr e => 3 * sizeOf e
  | exprs es => 3 * sizeOf es
  | optional e => 3 * sizeOf e
  | reference _ _ => 0
  | function f => 3 * sizeOf f
  | method f => 3 * sizeOf f + 1
  | methods fs => 3 * sizeOf fs
  | stmt s => 3 * sizeOf s
  | alternative s => 3 * sizeOf s
  | stmts ss => 3 * sizeOf ss
  | rounds body => 3 * sizeOf body + 1
  | clauses name value condition step body =>
    3 * (sizeOf name + sizeOf value + sizeOf condition + sizeOf step + sizeOf body) + 2

theorem sizeOf_stmt_pos (s : Stmt) : 0 < sizeOf s := by
  cases s <;> simp +arith

theorem size_piece {q p : Part} {names : List String} (h : (q, names) ∈ p.pieces) :
    q.size < p.size := by
  cases p with
  | reference | function | method | rounds => cases h
  | expr e => cases e <;> simp [pieces] at h <;> grind [size]
  | exprs es | optional es | methods es | alternative es | stmts es =>
    cases es <;> simp [pieces] at h
    grind [size]
  | stmt s => cases s <;> simp [pieces] at h <;> grind [size, sizeOf_stmt_pos]
  | clauses name value c step body =>
    have := sizeOf_stmt_pos body
    simp [pieces] at h
    grind [size]

theorem Inside.size_lt {q p : Part} (h : q.Inside p) : q.size < p.size := by
  cases h with
  | piece h => exact size_piece h
  | literal | body | value | block | loop | methods => simp [size] <;> omega
  | receiver | round => simp [size]

theorem wellFounded_inside : WellFounded Inside :=
  Subrelation.wf Inside.size_lt (measure size).wf

end Part

end Scriptling
