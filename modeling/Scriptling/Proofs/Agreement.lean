/-
  Agreement — machines that are as a world says.

  * `Agrees`: the frames bind what the world says, all functions in them may be called, and the
    recorded distances are those that the walks found;
  * `Agrees.define`, `Agrees.push` and their companions: what the elementary steps of a machine
    do to its world.
-/
import Scriptling.Proofs.Worlds

namespace Scriptling

open World

/-- The errors that may come up. -/
structure Mode.Permits (mode : Mode) (e : Error) : Prop where
  inRange : ¬ e.IsOutOfRange
  notStray : ¬ mode.raw → ¬ e.IsStray

/-- **A machine is as a world says.**  The declarations of the pending variables have begun
    without being complete. -/
structure Agrees (mode : Mode) (W : World) (pending : List (Nat × String)) (m : Machine) :
    Prop where
  size : m.frames.frames.size = W.size
  root : 0 < W.size
  bound : ∀ F x, W.bound F x ↔ (m.frames.frame F).contains x = true
  admitted : ¬ mode.hosted → ∀ F x, W.bound F x → W.admits F x
  begun : ¬ mode.hosted → ∀ F x, W.begun F x → W.bound F x ∨ (F, x) ∈ pending
  pending : ¬ mode.hosted → ∀ e ∈ pending, e.1 < W.size
  proper : W.Proper
  /-- Each reference of a resolved program has the distance that the walk found there. -/
  recorded : ∀ p Γ w site name, W.passes p → p.Visits Γ w (.reference site name) →
    m.distances.get? site = w.distance? name.text
  known : ∀ p, W.passes p → ∀ s ∈ (Part.stmts p.program).sites, s < m.nextSite
  unresolved : ∀ s, W.unresolved s → s < m.nextSite ∧ m.distances.get? s = none
  fresh : ∀ s, m.nextSite ≤ s → m.distances.get? s = none
  frames : ∀ F x v, (m.frames.frame F).get? x = some v → W.Allows mode v
  objects : ∀ (i : Nat) x v, (m.objects[i]?.getD Bindings.empty).get? x = some v → W.Allows mode v
  host : mode.hosted → m.host.Honest
  heard : ∀ event ∈ m.heard, event.Shows (W.Allows mode) mode.Permits

namespace Agrees

variable {mode : Mode} {W : World} {pending : List (Nat × String)} {m : Machine}

/-! ### Larger worlds

What is to be found on a machine is allowed in larger worlds too. -/

section

variable {V : World} (h : Agrees mode W pending m) (hV : W.Sub V)
include h hV

theorem frames_mono (F : Nat) (x : String) (v : Value)
    (hv : (m.frames.frame F).get? x = some v) : V.Allows mode v := (h.frames F x v hv).mono hV

theorem objects_mono (i : Nat) (x : String) (v : Value)
    (hv : (m.objects[i]?.getD Bindings.empty).get? x = some v) : V.Allows mode v :=
  (h.objects i x v hv).mono hV

theorem heard_mono : ∀ event ∈ m.heard, event.Shows (V.Allows mode) mode.Permits :=
  fun event he => (h.heard event he).imp fun _ hv => hv.mono hV

end

/-! ## Elementary steps -/

/-- What else a machine has does not matter. -/
theorem congr {m' : Machine} (h : Agrees mode W pending m) (hf : m'.frames = m.frames)
    (ho : m'.objects = m.objects) (hd : m'.distances = m.distances)
    (hs : m'.nextSite = m.nextSite) (hh : m'.host = m.host) (he : m'.heard = m.heard) :
    Agrees mode W pending m' := by
  obtain ⟨h₁, h₂, h₃, h₄, h₅, h₆, h₇, h₈, h₉, h₁₀, h₁₁, h₁₂, h₁₃, h₁₄, h₁₅⟩ := h
  refine ⟨?_, h₂, ?_, h₄, h₅, h₆, h₇, ?_, ?_, ?_, ?_, ?_, ?_, ?_, ?_⟩
  · rw [hf]; exact h₁
  · rw [hf]; exact h₃
  · rw [hd]; exact h₈
  · rw [hs]; exact h₉
  · rw [hs, hd]; exact h₁₀
  · rw [hs, hd]; exact h₁₁
  · rw [hf]; exact h₁₂
  · rw [ho]; exact h₁₃
  · rw [hh]; exact h₁₄
  · rw [he]; exact h₁₅

theorem size_set (fs : Frames Value) (F : Nat) (x : String) (v : Value) :
    (fs.set F x v).frames.size = fs.frames.size := by simp [Frames.set]

/-- A name is bound in a frame. -/
theorem define (h : Agrees mode W pending m) {F : Nat} {x : String} {v : Value}
    (hF : F < W.size) (ha : ¬ mode.hosted → W.admits F x)
    (hv : (W.bind F x).Allows mode v) :
    Agrees mode (W.bind F x) pending { m with frames := m.frames.set F x v } := by
  have grown := (le_bind mode W F x).toSub
  have hframe (G : Nat) : (m.frames.set F x v).frame G =
      if G = F then (m.frames.frame G).set x v else m.frames.frame G := by
    rw [Frames.frame_set, h.size]
    simp [hF]
  exact {
    size := (size_set _ _ _ _).trans h.size
    root := h.root
    bound := fun G y => by
      have hb := h.bound G y
      rw [hframe]
      split
      · next hG =>
        rw [Bindings.contains_set, ← hb]
        simp [World.bind, hG, or_comm]
      · next hG => simp [World.bind, hG, hb]
    admitted := fun hm G y hy => by
      rcases hy with hy | ⟨rfl, rfl⟩
      · exact h.admitted hm G y hy
      · exact ha hm
    begun := fun hm G y hy => (h.begun hm G y hy).imp_left Or.inl
    pending := h.pending
    proper := h.proper
    recorded := h.recorded
    known := h.known
    unresolved := h.unresolved
    fresh := h.fresh
    frames := fun G y u hu => by
      rw [hframe] at hu
      split at hu
      · rw [Bindings.get?_set] at hu
        split at hu
        · cases hu; exact hv
        · exact h.frames_mono grown G y u hu
      · exact h.frames_mono grown G y u hu
    objects := h.objects_mono grown
    host := h.host
    heard := h.heard_mono grown }

/-- The value of a bound name is replaced. -/
theorem assign (h : Agrees mode W pending m) {F : Nat} {x : String} {v : Value}
    (hF : W.bound F x) (hv : W.Allows mode v) :
    Agrees mode W pending { m with frames := m.frames.set F x v } where
  size := (size_set _ _ _ _).trans h.size
  root := h.root
  bound G y := by
    have hb := h.bound G y
    rw [Frames.frame_set]
    split
    · next hG =>
      rw [Bindings.contains_set, ← hb]
      constructor
      · exact Or.inr
      · rintro (rfl | hy)
        · rw [hG.1]; exact hF
        · exact hy
    · exact hb
  admitted := h.admitted
  begun := h.begun
  pending := h.pending
  proper := h.proper
  recorded := h.recorded
  known := h.known
  unresolved := h.unresolved
  fresh := h.fresh
  frames G y u hu := by
    rw [Frames.frame_set] at hu
    split at hu
    · rw [Bindings.get?_set] at hu
      split at hu
      · cases hu; exact hv
      · exact h.frames G y u hu
    · exact h.frames G y u hu
  objects := h.objects
  host := h.host
  heard := h.heard

/-- There is a new frame. -/
theorem push (h : Agrees mode W pending m) {base : Chain} {names : List String}
    {b : Bindings Value} (hn : ∀ x, b.contains x = true → x ∈ names)
    (hv : ∀ x v, b.get? x = some v → W.Allows mode v) :
    Agrees mode (W.push names fun x => b.contains x = true) pending
      { m with frames := (m.frames.child base b).2 } := by
  have grown := (le_push mode W names (fun x => b.contains x = true) h.root).toSub
  have hframe (G : Nat) : (m.frames.child base b).2.frame G =
      if G = W.size then b else m.frames.frame G := by
    rw [Frames.frame_child, h.size]
  have empty (x : String) : ¬ W.bound W.size x := fun hx => by
    have hc := (h.bound W.size x).1 hx
    have : m.frames.frame W.size = .empty := by
      unfold Frames.frame
      rw [Array.getElem?_eq_none (Nat.le_of_eq h.size)]
      rfl
    rw [this, Bindings.contains_empty] at hc
    cases hc
  exact {
    size := by simp [Frames.child, World.push, h.size]
    root := Nat.succ_pos _
    bound := fun G y => by
      rw [hframe]
      split
      · next hG =>
        subst hG
        simp [World.push, empty]
      · next hG => simp [World.push, hG, h.bound G y]
    admitted := fun hm G y hy => by
      unfold World.push
      rcases hy with hy | ⟨rfl, hy⟩
      · by_cases hG : G = W.size
        · subst hG; exact absurd hy (empty y)
        · simpa [hG] using h.admitted hm G y hy
      · simpa using hn y hy
    begun := fun hm G y hy => (h.begun hm G y hy).imp_left Or.inl
    pending := fun hm e he => Nat.lt_succ_of_lt (h.pending hm e he)
    proper := fun p hp => ⟨Nat.le_succ_of_le (h.proper p hp).1, (h.proper p hp).2⟩
    recorded := h.recorded
    known := h.known
    unresolved := h.unresolved
    fresh := h.fresh
    frames := fun G y u hu => by
      rw [hframe] at hu
      split at hu
      · exact (hv y u hu).mono grown
      · exact h.frames_mono grown G y u hu
    objects := h.objects_mono grown
    host := h.host
    heard := h.heard_mono grown }

/-- There is a new instance, without fields. -/
theorem pushObject (h : Agrees mode W pending m) :
    Agrees mode W pending { m with objects := m.objects.push .empty } := by
  refine { h with objects := fun i x v hv => ?_ }
  rw [Array.getElem?_push] at hv
  split at hv
  · simp at hv
  · exact h.objects i x v hv

/-- A field of an instance is set. -/
theorem setField (h : Agrees mode W pending m) {i : Nat} {x : String} {v : Value}
    (hv : W.Allows mode v) :
    Agrees mode W pending { m with objects := m.objects.modify i fun b => b.set x v } := by
  refine { h with objects := fun j y u hu => ?_ }
  rw [Array.getElem?_modify] at hu
  split at hu
  · have hj := h.objects j y
    cases ho : m.objects[j]? with
    | none => simp [ho] at hu
    | some b =>
      rw [ho] at hu hj
      simp only [Option.map_some, Option.getD_some, Bindings.get?_set] at hu
      split at hu
      · cases hu; exact hv
      · exact hj u hu
  · exact h.objects j y u hu

/-- The declaration of a variable begins. -/
theorem begin (h : Agrees mode W pending m) {F : Nat} {x : String} (hF : F < W.size) :
    Agrees mode (W.begin F x) ((F, x) :: pending) m := by
  have grown := (le_begin mode W F x).toSub
  refine { h with begun := ?_, pending := ?_, frames := ?_, objects := ?_, heard := ?_ }
  · rintro hm G y (hy | ⟨rfl, rfl⟩)
    · exact (h.begun hm G y hy).imp_right (List.mem_cons_of_mem _)
    · exact Or.inr List.mem_cons_self
  · intro hm e he
    rcases List.mem_cons.1 he with rfl | he
    · exact hF
    · exact h.pending hm e he
  · exact h.frames_mono grown
  · exact h.objects_mono grown
  · exact h.heard_mono grown

/-- The declaration of a variable is complete. -/
theorem complete {F : Nat} {x : String} (h : Agrees mode W ((F, x) :: pending) m)
    (hx : W.bound F x) : Agrees mode W pending m := by
  refine { h with begun := fun hm G y hy => ?_, pending := fun hm e he => ?_ }
  · rcases h.begun hm G y hy with hb | hb
    · exact Or.inl hb
    · rcases List.mem_cons.1 hb with heq | hb
      · cases heq; exact Or.inl hx
      · exact Or.inr hb
  · exact h.pending hm e (List.mem_cons_of_mem _ he)

/-- Where the host may interfere, nothing is known of incomplete declarations. -/
theorem of_hosted (h : Agrees mode W pending m) (hm : mode.hosted) (others : List (Nat × String)) :
    Agrees mode W others m :=
  { h with begun := fun hh => absurd hm hh, pending := fun hh => absurd hm hh }

/-- Something comes to the knowledge of the host. -/
theorem hear (h : Agrees mode W pending m) {event : HostEvent}
    (he : event.Shows (W.Allows mode) mode.Permits) : Agrees mode W pending (m.hear event) :=
  { h with heard := List.forall_mem_cons.2 ⟨he, h.heard⟩ }

/-- What the host does next can do no harm. -/
theorem move (h : Agrees mode W pending m) (hm : mode.hosted) :
    (m.host m.heard).Uses (W.Allows mode) mode.Permits :=
  h.host hm (W.Allows mode) mode.Permits (fun _ hv => allows_plain hv) (fun _ => hm)
    (fun _ hs ho => ⟨ho, fun _ => hs⟩) m.heard h.heard

/-! ## New programs -/

/-- Sites are given out. -/
theorem skip (h : Agrees mode W pending m) {site : Nat} (hs : m.nextSite ≤ site) :
    Agrees mode W pending { m with nextSite := site } := by
  refine { h with known := ?_, unresolved := ?_, fresh := ?_ }
  · exact fun p hp s hm => Nat.lt_of_lt_of_le (h.known p hp s hm) hs
  · exact fun s hu => ⟨Nat.lt_of_lt_of_le (h.unresolved s hu).1 hs, (h.unresolved s hu).2⟩
  · exact fun s hm => h.fresh s (Nat.le_trans hs hm)

/-- A program is not going to be resolved. -/
theorem leave (h : Agrees mode W pending m) {site : Nat} {sites : List Nat}
    (hd : Drawn m.nextSite site sites) :
    Agrees mode (W.leave sites) pending { m with nextSite := site } := by
  have grown := sub_leave W sites
  refine { h.skip hd.le with unresolved := ?_, frames := ?_, objects := ?_, heard := ?_ }
  · rintro s (hs | hs)
    · exact ⟨(hd.bounds s hs).2, h.fresh s (hd.bounds s hs).1⟩
    · exact (h.skip hd.le).unresolved s hs
  · exact h.frames_mono grown
  · exact h.objects_mono grown
  · exact h.heard_mono grown

/-- The frame of the globals may come to bind other names than before. -/
theorem reseat (h : Agrees mode W pending m) {globals : String → Prop}
    (hg : ¬ mode.hosted → ∀ x, W.bound 0 x → globals x) :
    Agrees mode (W.reseat globals) pending m := by
  have grown := sub_reseat W globals
  refine { h with admitted := ?_, frames := ?_, objects := ?_, heard := ?_ }
  · intro hm F x hx
    unfold World.reseat
    by_cases hF : F = 0
    · subst hF; simpa using hg hm x hx
    · simpa [hF] using h.admitted hm F x hx
  · exact h.frames_mono grown
  · exact h.objects_mono grown
  · exact h.heard_mono grown

/-- **A program is accepted, and its distances are recorded.** -/
theorem load (h : Agrees mode W pending m) {program : List Stmt} {site : Nat}
    {ds : List (Nat × Nat)} (hd : Drawn m.nextSite site (Part.stmts program).sites)
    (hr : resolve m.globalNames program = .ok ds) :
    Agrees mode (W.accept (Pass.of m program)) pending
      { m with nextSite := site, distances := m.distances.recordAll ds } := by
  have grown := sub_accept W (Pass.of m program)
  have hp : (Pass.of m program).Accepts ds := hr
  have new (s : Nat) (hs : s ∉ (Part.stmts program).sites) : ds.lookup s = none := by
    obtain ⟨w', hw', hds⟩ := Except.bind_eq_ok.1 hr
    cases hds
    exact (Part.resolve_records (p := .stmts program) hw').lookup_eq hs
  have old (s : Nat) (hs : s ∉ (Part.stmts program).sites) :
      (m.distances.recordAll ds).get? s = m.distances.get? s := by
    rw [Distances.get?_recordAll, new s hs, Option.none_or]
  have before (s : Nat) (hs : s < m.nextSite) : s ∉ (Part.stmts program).sites := fun hm =>
    Nat.not_le_of_lt hs (hd.bounds s hm).1
  refine { h.skip hd.le with
    proper := ?_, recorded := ?_, known := ?_, unresolved := ?_, fresh := ?_, frames := ?_
    objects := ?_, heard := ?_ }
  · rintro p (rfl | hpass)
    · exact ⟨Nat.le_of_eq h.size, ds, hp⟩
    · exact h.proper p hpass
  · rintro p Γ w s name (rfl | hpass) hv
    · have hs : s ∈ (Part.stmts program).sites := hv.sites_subset List.mem_cons_self
      dsimp only
      rw [Distances.get?_recordAll, hv.lookup_eq hp hd.nodup, h.fresh s (hd.bounds s hs).1,
        Option.or_none]
    · have hs := h.known p hpass s (hv.sites_subset List.mem_cons_self)
      dsimp only
      rw [old s (before s hs)]
      exact h.recorded p Γ w s name hpass hv
  · rintro p (rfl | hpass) s hs
    · exact (hd.bounds s hs).2
    · exact Nat.lt_of_lt_of_le (h.known p hpass s hs) hd.le
  · intro s hu
    obtain ⟨hs, hn⟩ := h.unresolved s hu
    exact ⟨Nat.lt_of_lt_of_le hs hd.le, (old s (before s hs)).trans hn⟩
  · intro s hs
    have hnot : s ∉ (Part.stmts program).sites := fun hm =>
      Nat.not_le_of_lt (hd.bounds s hm).2 hs
    exact (old s hnot).trans (h.fresh s (Nat.le_trans hd.le hs))
  · exact h.frames_mono grown
  · exact h.objects_mono grown
  · exact h.heard_mono grown

end Agrees

end Scriptling
