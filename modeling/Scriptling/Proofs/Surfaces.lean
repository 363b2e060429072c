/-
  Surfaces — what operations see of values.

  They do not look into functions: of a function they see which one it is, what it is called and how
  many arguments it takes, and of an instance which one it is and what its struct is called.

  * `Value.Resembles`: values of which all this is the same;
  * `Value.Resembles.text_eq`, `Value.Resembles.binary_eq` and their companions: operations come to
    the same for them.
-/
import Scriptling.Proofs.Reach

namespace Scriptling

/-- Callables that differ at most in what they do. -/
inductive Callable.Resembles : Callable → Callable → Prop
  | closure {c c' : Closure} : c'.identity = c.identity → c'.function.title = c.function.title →
      c'.function.params.length = c.function.params.length →
      Resembles (.closure c) (.closure c')
  | struct {t t' : Template} : t'.identity = t.identity → t'.name = t.name →
      Resembles (.struct t) (.struct t')
  | native {n} : Resembles (.native n) (.native n)

/-- **Values that differ at most in what their functions do.** -/
inductive Value.Resembles : Value → Value → Prop
  | plain {v : Value} : v.IsPlain → Resembles v v
  | callable {c c' : Callable} : c.Resembles c' → Resembles (.callable c) (.callable c')
  | object {t t' : Template} {i} : t'.name = t.name → Resembles (.object t i) (.object t' i)

namespace Callable.Resembles

variable {c c' d d' : Callable} (h : c.Resembles c')
include h

theorem text_eq : c'.text = c.text := by
  cases h with
  | closure _ ht => simp only [Callable.text, ht]
  | struct _ hn => simp only [Callable.text, hn]
  | native => rfl

theorem arity_eq : c'.arity = c.arity := by
  cases h with
  | closure _ _ hp => exact hp
  | struct | native => rfl

theorem equals_eq (hd : d.Resembles d') : c'.equals d' = c.equals d := by
  cases h with
  | closure hi =>
    cases hd with
    | closure hj => simp only [Callable.equals, hi, hj]
    | _ => rfl
  | struct hi =>
    cases hd with
    | struct hj => simp only [Callable.equals, hi, hj]
    | _ => rfl
  | native => cases hd <;> rfl

end Callable.Resembles

namespace Value.Resembles

variable {v v' u u' : Value} (h : v.Resembles v')
include h

theorem text_eq : v'.text = v.text := by
  cases h with
  | plain => rfl
  | callable hc => exact hc.text_eq
  | object ht => simp only [Value.text, ht]

theorem typeOf_eq : v'.typeOf = v.typeOf := by
  cases h <;> rfl

theorem isTruthy_eq : v'.isTruthy = v.isTruthy := by
  cases h <;> rfl

theorem operand_eq (line : Nat) : v'.operand line = v.operand line := by
  cases h <;> rfl

theorem unary_eq (op : UnaryOp) (line : Nat) : op.apply line v' = op.apply line v := by
  cases op with
  | not => simp only [UnaryOp.apply, h.isTruthy_eq]
  | minus | plus => simp only [UnaryOp.apply, h.operand_eq]

theorem isDecided_eq (op : LogicalOp) : op.isDecided v' = op.isDecided v := by
  cases op <;> simp only [LogicalOp.isDecided, h.isTruthy_eq]

theorem equals_eq (hu : u.Resembles u') : v'.equals u' = v.equals u := by
  cases h with
  | plain hv =>
    cases hu with
    | plain => rfl
    | _ => cases v <;> first | rfl | exact hv.elim
  | callable hc =>
    cases hu with
    | plain hu => cases u <;> first | rfl | exact hu.elim
    | callable hd => exact hc.equals_eq hd
    | object => rfl
  | object =>
    cases hu with
    | plain => cases u <;> rfl
    | _ => rfl

theorem add_eq (hu : u.Resembles u') (line : Nat) : v'.add line u' = v.add line u := by
  cases h with
  | plain hv =>
    cases hu with
    | plain => rfl
    | _ => cases v <;> rfl
  | _ =>
    cases hu with
    | plain hu => cases u <;> rfl
    | _ => rfl

theorem binary_eq (hu : u.Resembles u') (op : BinaryOp) (line : Nat) :
    op.apply line v' u' = op.apply line v u := by
  cases op with
  | plus => exact h.add_eq hu line
  | equal | notEqual => simp only [BinaryOp.apply, h.equals_eq hu]
  | _ => simp only [BinaryOp.apply, BinaryOp.apply.numeric, h.operand_eq, hu.operand_eq]

end Value.Resembles

end Scriptling
