/-
  Contents — the values that are on a machine.

  * `Kind`: what is asked of the functions in a value (`Kind.Admits`);
  * `Machine.Holds`: all values that a machine can come by are of a kind: those that are bound in
    its frames, the fields of its instances, and those that the host has heard of;
  * `Holds.set`, `Holds.push` and their companions: elementary steps keep this.
-/
import Scriptling.Proofs.Preservation

namespace Scriptling

/-- What is asked of functions, of the methods of structs, and of host functions. -/
structure Kind where
  closure : Closure → Prop
  method : Closure → Prop
  native : Native → Prop

namespace Kind

variable {K L : Kind}

/-- The methods of a struct are of a kind. -/
def AdmitsMethods (K : Kind) (t : Template) : Prop := ∀ x c, t.methods.get? x = some c → K.method c

/-- **The functions in a value are of a kind.** -/
def Admits (K : Kind) : Value → Prop
  | .callable (.closure c) => K.closure c
  | .callable (.struct t) | .object t _ => K.AdmitsMethods t
  | .callable (.native n) => K.native n
  | .number _ | .string _ | .bool _ | .null => True

theorem admits_plain {v : Value} (h : v.IsPlain) : K.Admits v := by
  cases v with
  | number | string | bool | null => trivial
  | callable | object => exact h.elim

/-- What is of one kind is of another. -/
structure Le (K L : Kind) : Prop where
  closure : ∀ c, K.closure c → L.closure c
  method : ∀ c, K.method c → L.method c
  native : ∀ n, K.native n → L.native n

theorem Le.admits (h : K.Le L) {v : Value} (hv : K.Admits v) : L.Admits v := by
  cases v with
  | number | string | bool | null => trivial
  | object t place => exact fun x c hc => h.method c (hv x c hc)
  | callable c =>
    cases c with
    | closure c => exact h.closure c hv
    | struct t => exact fun x c hc => h.method c (hv x c hc)
    | native n => exact h.native n hv

/-- The arguments that parameters are bound to. -/
theorem admits_bindParams {params : List Name} {args : List Value} (h : ∀ v ∈ args, K.Admits v)
    {x : String} {v : Value} (hv : (Eval.bindParams params args).get? x = some v) : K.Admits v :=
  h v (Eval.mem_of_get?_bindParams hv)

/-- The receiver that `this` is bound to. -/
theorem admits_receiver {receiver : Value} (h : K.Admits receiver) {x : String} {v : Value}
    (hv : (Bindings.empty.set "this" receiver).get? x = some v) : K.Admits v := by
  rw [Bindings.get?_set] at hv
  split at hv
  · cases hv; exact h
  · rw [Bindings.get?_empty] at hv; cases hv

end Kind

/-- **All values that a machine can come by are of a kind.** -/
structure Machine.Holds (K : Kind) (m : Machine) : Prop where
  frames : ∀ F x v, (m.frames.frame F).get? x = some v → K.Admits v
  objects : ∀ (i : Nat) x v, (m.objects[i]?.getD Bindings.empty).get? x = some v → K.Admits v
  heard : ∀ event ∈ m.heard, event.Shows K.Admits fun _ => True

namespace Machine.Holds

variable {K L : Kind} {m : Machine} (h : m.Holds K)
include h

theorem mono (hL : K.Le L) : m.Holds L where
  frames F x v hv := hL.admits (h.frames F x v hv)
  objects i x v hv := hL.admits (h.objects i x v hv)
  heard event he := (h.heard event he).imp fun _ => hL.admits

/-- A name is bound in a frame. -/
theorem set {F : Nat} {x : String} {v : Value} (hv : K.Admits v) :
    Holds K { m with frames := m.frames.set F x v } := by
  refine { h with frames := fun G y u hu => ?_ }
  rw [Frames.frame_set] at hu
  split at hu
  · rw [Bindings.get?_set] at hu
    split at hu
    · cases hu; exact hv
    · exact h.frames G y u hu
  · exact h.frames G y u hu

/-- There is a new frame. -/
theorem push {b : Bindings Value} (hb : ∀ x v, b.get? x = some v → K.Admits v) (base : Chain) :
    Holds K { m with frames := (m.frames.child base b).2 } := by
  refine { h with frames := fun F x v hv => ?_ }
  rw [Frames.frame_child] at hv
  split at hv
  · exact hb x v hv
  · exact h.frames F x v hv

/-- There is a new instance, without fields. -/
theorem pushObject : Holds K { m with objects := m.objects.push .empty } := by
  refine { h with objects := fun i x v hv => ?_ }
  rw [Array.getElem?_push] at hv
  split at hv
  · simp at hv
  · exact h.objects i x v hv

/-- A field of an instance is set. -/
theorem setField {i : Nat} {x : String} {v : Value} (hv : K.Admits v) :
    Holds K { m with objects := m.objects.modify i fun b => b.set x v } := by
  refine { h with objects := fun j y u hu => ?_ }
  rw [Array.getElem?_modify] at hu
  split at hu
  · have hj := h.objects j y
    cases ho : m.objects[j]? with
    | none => simp [ho] at hu
    | some b =>
      rw [ho] at hu hj
      simp only [Option.map_some, Option.getD_some, Bindings.get?_set] at hu
      split at hu
      · cases hu; exact hv
      · exact hj u hu
  · exact h.objects j y u hu

/-- Something comes to the knowledge of the host. -/
theorem hear {event : HostEvent} (he : event.Shows K.Admits fun _ => True) :
    (m.hear event).Holds K :=
  { h with heard := List.forall_mem_cons.2 ⟨he, h.heard⟩ }

end Machine.Holds

end Scriptling
