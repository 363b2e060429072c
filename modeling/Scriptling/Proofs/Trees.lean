/-
  Trees — scopes that branch, as lists of maps.

  * `Tree`: scopes that share the frames further out, and what can be done in one of them
    (`Request`, `Tree.perform`);
  * `Tree.Grown`: what any sequence of requests makes of the scope of the globals;
  * `Grown.shaped`: from a frame on outwards, all scopes that see it are the same;
  * `Grown.refines_maps`: in its scope, a request finds and changes what it finds and changes in the
    list of the maps that the scope sees, and in the other scopes what they share with it;
  * `maps_getAt_eq_get`: when the value of a name at a distance is its value.
-/
import Mathlib.Logic.Function.Basic
import Scriptling.Environment

namespace Scriptling

variable {α : Type}

/-! ## Maps -/

/-- What the frames that are visible in a scope bind names to, innermost first. -/
abbrev Maps (α : Type) := List (String → Option α)

namespace Maps

/-- The value of a name: the nearest map that has one counts. -/
def get (ms : Maps α) (name : Name) : Except Error α :=
  match ms.findSome? fun m => m name.text with
  | some v => .ok v
  | none => .error (Frames.undefined name)

/-- The value of a name in the map a given distance out. -/
def getAt (ms : Maps α) (distance : Nat) (name : Name) : Except Error α :=
  match ms[distance]? with
  | none => .error (.runtime 0 .scopeOutOfRange)
  | some m =>
    match m name.text with
    | some v => .ok v
    | none => .error (Frames.undefined name)

/-- How far out the nearest map is that has a value for a name. -/
def nearest (ms : Maps α) (name : Name) : Except Error Nat :=
  match ms.findIdx? fun m => (m name.text).isSome with
  | some d => .ok d
  | none => .error (Frames.undefined name)

/-- The given distance, if the map this far out has a value for a name. -/
def addressed (ms : Maps α) (distance : Nat) (name : Name) : Except Error Nat :=
  (ms.getAt distance name).map fun _ => distance

end Maps

/-! ## Trees -/

/-- Scopes that share frames. -/
structure Tree (α : Type) where
  frames : Frames α := .root
  scopes : List Chain := [globalScope]

/-- What can be asked for in a scope. -/
inductive Request (α : Type) where
  /-- A new scope inside. -/
  | child
  | define (x : String) (v : α)
  | get (name : Name)
  | assign (name : Name) (v : α)
  | getAt (distance : Nat) (name : Name)
  | assignAt (distance : Nat) (name : Name) (v : α)

/-- What is answered. -/
inductive Reply (α : Type) where
  | scope (s : Chain)
  | value (v : α)
  | done

theorem Reply.map_value_inj {r r' : Except Error α} :
    r.map Reply.value = r'.map Reply.value ↔ r = r' := by
  cases r <;> cases r' <;> simp [Except.map]

namespace Tree

/-- The frames after an assignment, if it succeeds. -/
def commit (t : Tree α) : Except Error (Frames α) → Except Error (Reply α) × Tree α
  | .ok frames => (.ok .done, { t with frames := frames })
  | .error e => (.error e, t)

/-- Does what is asked for in a scope. -/
def perform (t : Tree α) (s : Chain) : Request α → Except Error (Reply α) × Tree α
  | .child =>
    let (inner, frames) := t.frames.child s .empty
    (.ok (.scope inner), ⟨frames, inner :: t.scopes⟩)
  | .define x v => (.ok .done, { t with frames := t.frames.define s x v })
  | .get name => ((t.frames.get s name).map .value, t)
  | .assign name v => t.commit (t.frames.assign s name v)
  | .getAt distance name => ((t.frames.getAt s distance name).map .value, t)
  | .assignAt distance name v => t.commit (t.frames.assignAt s distance name v)

/-- **What any sequence of requests makes of the scope of the globals.** -/
inductive Grown : Tree α → Prop
  | root : Grown {}
  | step {t : Tree α} {s : Chain} (r : Request α) : Grown t → s ∈ t.scopes →
      Grown (t.perform s r).2

/-- The maps that a scope sees. -/
def maps (t : Tree α) (s : Chain) : Maps α := s.map fun i => (t.frames.frame i).get?

/-! ### The shape of a tree -/

/-- **The frames make a tree of the scopes**: each scope is closed outwards, and the innermost frame
    of a scope is that of no other scope. -/
structure Shaped (t : Tree α) : Prop where
  nonempty : [] ∉ t.scopes
  outwards : ∀ {i a}, i :: a ∈ t.scopes → a ≠ [] → a ∈ t.scopes
  unique : ∀ {i a b}, i :: a ∈ t.scopes → i :: b ∈ t.scopes → a = b
  stored : ∀ {i a}, i :: a ∈ t.scopes → i < t.frames.frames.size

namespace Shaped

variable {t : Tree α}

theorem drop (h : t.Shaped) : ∀ {s : Chain} (d : Nat), s ∈ t.scopes → d < s.length →
    s.drop d ∈ t.scopes
  | [], _, hs, _ => absurd hs h.nonempty
  | _ :: _, 0, hs, _ => hs
  | i :: a, d + 1, hs, hd => by
    have inner : d < a.length := Nat.lt_of_succ_lt_succ hd
    have hne : a ≠ [] := fun e => by simp [e] at inner
    exact h.drop d (h.outwards hs hne) inner

/-- A frame that is visible in a scope is the innermost one of a scope. -/
theorem starts (h : t.Shaped) {s : Chain} (hs : s ∈ t.scopes) {d i : Nat} (hi : s[d]? = some i) :
    ∃ a, s.drop d = i :: a ∧ i :: a ∈ t.scopes := by
  obtain ⟨hd, hget⟩ := List.getElem?_eq_some_iff.1 hi
  refine ⟨s.drop (d + 1), ?_, ?_⟩
  · rw [List.drop_eq_getElem_cons hd, hget]
  · have dropped := h.drop d hs hd
    rwa [List.drop_eq_getElem_cons hd, hget] at dropped

/-- **Scopes that see the same frame are the same from there on outwards.** -/
theorem drop_eq_iff (h : t.Shaped) {b s : Chain} (hb : b ∈ t.scopes) (hs : s ∈ t.scopes)
    {j d k i : Nat} (hk : b[j]? = some k) (hi : s[d]? = some i) :
    b.drop j = s.drop d ↔ k = i := by
  obtain ⟨a, hba, ha⟩ := h.starts hb hk
  obtain ⟨a', hca, ha'⟩ := h.starts hs hi
  rw [hba, hca]
  constructor
  · rintro ⟨⟩
    rfl
  · rintro rfl
    rw [h.unique ha ha']

end Shaped

theorem shaped_root : ({} : Tree α).Shaped where
  nonempty h := nomatch List.mem_singleton.1 h
  outwards h hne := by
    obtain ⟨-, rfl⟩ : _ = globalFrame ∧ _ = [] := by simpa [globalScope] using h
    exact absurd rfl hne
  unique h h' := by
    simp only [globalScope, List.mem_singleton, List.cons.injEq] at h h'
    rw [h.2, h'.2]
  stored h := by
    simp only [globalScope, List.mem_singleton, List.cons.injEq] at h
    rw [h.1]
    exact Nat.zero_lt_one

/-- Only the number of frames counts. -/
theorem Shaped.of_size {t t' : Tree α} (h : t.Shaped) (hs : t'.scopes = t.scopes)
    (hf : t'.frames.frames.size = t.frames.frames.size) : t'.Shaped where
  nonempty := hs ▸ h.nonempty
  outwards := by rw [hs]; exact h.outwards
  unique := by rw [hs]; exact h.unique
  stored := by rw [hs, hf]; exact h.stored

theorem Shaped.child {t : Tree α} (h : t.Shaped) {s : Chain} (hs : s ∈ t.scopes) :
    (t.perform s .child).2.Shaped := by
  have new (a : Chain) : t.frames.frames.size :: a ∉ t.scopes := fun ha =>
    Nat.lt_irrefl _ (h.stored ha)
  have mem {b : Chain} : b ∈ (t.perform s .child).2.scopes ↔
      b = t.frames.frames.size :: s ∨ b ∈ t.scopes := List.mem_cons
  refine ⟨fun hm => ?_, fun {i a} hm hne => ?_, fun {i a b} hm hm' => ?_, fun {i a} hm => ?_⟩
  · rcases mem.1 hm with hm | hm
    · cases hm
    · exact h.nonempty hm
  · rcases mem.1 hm with hm | hm
    · cases hm
      exact mem.2 (.inr hs)
    · exact mem.2 (.inr (h.outwards hm hne))
  · rcases mem.1 hm with hm | hm <;> rcases mem.1 hm' with hm' | hm'
    · cases hm
      cases hm'
      rfl
    · cases hm
      exact absurd hm' (new b)
    · cases hm'
      exact absurd hm (new a)
    · exact h.unique hm hm'
  · have size : (t.perform s .child).2.frames.frames.size = t.frames.frames.size + 1 :=
      Array.size_push _
    rw [size]
    rcases mem.1 hm with hm | hm
    · cases hm
      exact Nat.lt_succ_self _
    · exact Nat.lt_succ_of_lt (h.stored hm)

/-! ### Finding -/

theorem maps_getElem? (t : Tree α) (s : Chain) (d : Nat) :
    (t.maps s)[d]? = s[d]?.map fun i => (t.frames.frame i).get? := List.getElem?_map

theorem get_eq (t : Tree α) (s : Chain) (name : Name) :
    t.frames.get s name = (t.maps s).get name := by
  induction s with
  | nil => rfl
  | cons i s ih =>
    unfold Frames.get Frames.find Maps.get at ih ⊢
    rw [List.find?_cons, maps, List.map_cons, List.findSome?_cons, Bindings.contains]
    cases hv : (t.frames.frame i).get? name.text with
    | none => exact ih
    | some v =>
      have here : t.frames.value i name = .ok v := by rw [Frames.value, hv]
      exact here

theorem getAt_eq (t : Tree α) (s : Chain) (distance : Nat) (name : Name) :
    t.frames.getAt s distance name = (t.maps s).getAt distance name := by
  unfold Frames.getAt Frames.findAt Maps.getAt
  rw [maps_getElem?]
  cases s[distance]? with
  | none => rfl
  | some i =>
    dsimp only [Option.map_some]
    rw [Bindings.contains]
    cases hv : (t.frames.frame i).get? name.text with
    | none => rfl
    | some v =>
      have here : t.frames.value i name = .ok v := by rw [Frames.value, hv]
      exact here

/-- The search goes outwards, up to the nearest frame that binds the name. -/
theorem find_eq (t : Tree α) (s : Chain) (name : Name) :
    (∃ d i, (t.maps s).nearest name = .ok d ∧ s[d]? = some i ∧ t.frames.find s name = .ok i) ∨
    ∃ e, (t.maps s).nearest name = .error e ∧ t.frames.find s name = .error e := by
  have searched : (∃ d i, (t.maps s).findIdx? (fun m => (m name.text).isSome) = some d ∧
      s[d]? = some i ∧ t.frames.find s name = .ok i) ∨
      (t.maps s).findIdx? (fun m => (m name.text).isSome) = none ∧
        t.frames.find s name = .error (Frames.undefined name) := by
    induction s with
    | nil => exact .inr ⟨rfl, rfl⟩
    | cons i s ih =>
      unfold Frames.find at ih ⊢
      rw [List.find?_cons, maps, List.map_cons, List.findIdx?_cons, Bindings.contains]
      cases ((t.frames.frame i).get? name.text).isSome with
      | true => exact .inl ⟨0, i, rfl, rfl, rfl⟩
      | false =>
        rcases ih with ⟨d, i', hd, hi', hf⟩ | ⟨hd, hf⟩
        · exact .inl ⟨d + 1, i', congrArg (Option.map (· + 1)) hd, hi', hf⟩
        · exact .inr ⟨congrArg (Option.map (· + 1)) hd, hf⟩
  unfold Maps.nearest
  rcases searched with ⟨d, i, hd, hi, hf⟩ | ⟨hd, hf⟩
  · exact .inl ⟨d, i, by rw [hd], hi, hf⟩
  · exact .inr ⟨_, by rw [hd], hf⟩

/-- The frame at a distance is that of the map at this distance. -/
theorem findAt_eq (t : Tree α) (s : Chain) (distance : Nat) (name : Name) :
    (∃ i, (t.maps s).addressed distance name = .ok distance ∧ s[distance]? = some i ∧
      t.frames.findAt s distance name = .ok i) ∨
    ∃ e, (t.maps s).addressed distance name = .error e ∧ t.frames.findAt s distance name = .error e := by
  unfold Frames.findAt Maps.addressed Maps.getAt
  rw [maps_getElem?]
  cases hi : s[distance]? with
  | none => exact .inr ⟨_, rfl, rfl⟩
  | some i =>
    dsimp only [Option.map_some]
    rw [Bindings.contains]
    cases hv : (t.frames.frame i).get? name.text with
    | none => exact .inr ⟨_, rfl, rfl⟩
    | some v => exact .inl ⟨i, rfl, rfl, rfl⟩

/-! ### Binding -/

/-- **One binding, and no other, is made or replaced**: in the frame that a scope begins with, and
    for all scopes that see this frame. -/
structure Overwrites (t t' : Tree α) (a : Chain) (x : String) (v : α) : Prop where
  scopes : t'.scopes = t.scopes
  maps : ∀ b ∈ t.scopes, t'.maps b =
    (t.maps b).mapIdx fun j m => if b.drop j = a then Function.update m x (some v) else m

theorem Shaped.overwrites {t : Tree α} (h : t.Shaped) {s : Chain} (hs : s ∈ t.scopes) {d i : Nat}
    (hi : s[d]? = some i) (x : String) (v : α) :
    t.Overwrites { t with frames := t.frames.set i x v } (s.drop d) x v := by
  refine ⟨rfl, fun b hb => List.ext_getElem? fun j => ?_⟩
  rw [List.getElem?_mapIdx, maps_getElem?, maps_getElem?]
  cases hk : b[j]? with
  | none => rfl
  | some k =>
    obtain ⟨a, -, ha⟩ := h.starts hs hi
    have stored : i < t.frames.frames.size := h.stored ha
    simp only [Option.map_some, Option.some.injEq]
    rw [Frames.frame_set]
    by_cases hki : k = i
    · rw [if_pos ⟨hki, stored⟩, if_pos ((h.drop_eq_iff hb hs hk hi).2 hki)]
      funext y
      rw [Bindings.get?_set, Function.update_apply]
    · rw [if_neg fun e => hki e.1, if_neg fun e => hki ((h.drop_eq_iff hb hs hk hi).1 e)]

/-- Binding a name in an innermost frame, or replacing a value, leaves the shape of a tree. -/
theorem Shaped.set {t : Tree α} (h : t.Shaped) (i : Nat) (x : String) (v : α) :
    Shaped { t with frames := t.frames.set i x v } := h.of_size rfl Array.size_modify

/-! ### The refinement -/

/-- An assignment in a scope comes to this: it binds the name where the list of maps says, and
    nothing is changed if the list of maps does not say where. -/
def Assigns (t : Tree α) (s : Chain) (x : String) (v : α)
    (outcome : Except Error (Reply α) × Tree α) : Except Error Nat → Prop
  | .ok d => outcome.1 = .ok .done ∧ t.Overwrites outcome.2 (s.drop d) x v
  | .error e => outcome = (.error e, t)

/-- **A request in a scope comes to what the lists of maps say**: those that the scopes of the tree
    see, which share what is further out. -/
def Follows (t : Tree α) (s : Chain) (outcome : Except Error (Reply α) × Tree α) :
    Request α → Prop
  | .child => ∃ inner, outcome.1 = .ok (.scope inner) ∧ inner ∉ t.scopes ∧ inner.tail = s ∧
      outcome.2.scopes = inner :: t.scopes ∧
      outcome.2.maps inner = (fun _ => none) :: t.maps s ∧
      ∀ b ∈ t.scopes, outcome.2.maps b = t.maps b
  | .define x v => t.Assigns s x v outcome (.ok 0)
  | .get name => outcome = (((t.maps s).get name).map .value, t)
  | .assign name v => t.Assigns s name.text v outcome ((t.maps s).nearest name)
  | .getAt distance name => outcome = (((t.maps s).getAt distance name).map .value, t)
  | .assignAt distance name v =>
    t.Assigns s name.text v outcome ((t.maps s).addressed distance name)

section

variable {t : Tree α} {s : Chain}

theorem Shaped.follows_child (h : t.Shaped) (hs : s ∈ t.scopes) :
    t.Follows s (t.perform s .child) .child := by
  have framed (i : Nat) : (t.perform s .child).2.frames.frame i =
      if i = t.frames.frames.size then .empty else t.frames.frame i :=
    Frames.frame_child _ s _ _
  have kept {b : Chain} (hb : b ∈ t.scopes) : (t.perform s .child).2.maps b = t.maps b := by
    refine List.map_congr_left fun i hi => ?_
    obtain ⟨d, hd⟩ := List.getElem?_of_mem hi
    obtain ⟨a, -, ha⟩ := h.starts hb hd
    rw [framed, if_neg (Nat.ne_of_lt (h.stored ha))]
  refine ⟨t.frames.frames.size :: s, rfl, fun hm => Nat.lt_irrefl _ (h.stored hm), rfl, rfl, ?_,
    fun b hb => kept hb⟩
  have new : ((t.perform s .child).2.frames.frame t.frames.frames.size).get? = fun _ => none := by
    rw [framed, if_pos rfl]
    exact funext Bindings.get?_empty
  exact congrArg₂ List.cons new (kept hs)

/-- An assignment binds the name in the frame that is found, at the level of its map. -/
theorem Shaped.assigns (h : t.Shaped) (hs : s ∈ t.scopes) (x : String) (v : α)
    {level found : Except Error Nat}
    (hf : (∃ d i, level = .ok d ∧ s[d]? = some i ∧ found = .ok i) ∨
      ∃ e, level = .error e ∧ found = .error e) :
    t.Assigns s x v (t.commit (do return t.frames.set (← found) x v)) level := by
  rcases hf with ⟨d, i, rfl, hi, rfl⟩ | ⟨e, rfl, rfl⟩
  · exact ⟨rfl, h.overwrites hs hi x v⟩
  · rfl

/-- What one request comes to. -/
theorem Shaped.follows (h : t.Shaped) (hs : s ∈ t.scopes) (r : Request α) :
    t.Follows s (t.perform s r) r := by
  cases r with
  | child => exact h.follows_child hs
  | define x v =>
    cases s with
    | nil => exact absurd hs h.nonempty
    | cons i a => exact ⟨rfl, h.overwrites hs rfl x v⟩
  | get name => exact congrArg (fun r => (Except.map Reply.value r, t)) (get_eq t s name)
  | getAt distance name =>
    exact congrArg (fun r => (Except.map Reply.value r, t)) (getAt_eq t s distance name)
  | assign name v => exact h.assigns hs name.text v (find_eq t s name)
  | assignAt distance name v =>
    refine h.assigns hs name.text v ?_
    rcases findAt_eq t s distance name with ⟨i, hd, hi, hf⟩ | failed
    · exact .inl ⟨distance, i, hd, hi, hf⟩
    · exact .inr failed

theorem Shaped.commit (h : t.Shaped) (x : String) (v : α) : ∀ found : Except Error Nat,
    (t.commit (do return t.frames.set (← found) x v)).2.Shaped
  | .ok i => h.set i x v
  | .error _ => h

/-- One request leaves the frames a tree of the scopes. -/
theorem Shaped.perform (h : t.Shaped) (hs : s ∈ t.scopes) (r : Request α) :
    (t.perform s r).2.Shaped := by
  cases r with
  | child => exact h.child hs
  | define x v =>
    cases s with
    | nil => exact h
    | cons i a => exact h.set i x v
  | get | getAt => exact h
  | assign name v => exact h.commit name.text v _
  | assignAt distance name v => exact h.commit name.text v _

/-- Whatever has been asked for, the frames make a tree of the scopes. -/
theorem Grown.shaped (h : t.Grown) : t.Shaped := by
  induction h with
  | root => exact shaped_root
  | step r _ hs ih => exact ih.perform hs r

end

/-! ### Searching and addressing -/

/-- A value at a distance, when the name is bound no nearer: that is the value of the name, unless
    the name is not bound there, but further out, or the list of maps ends before. -/
theorem maps_getAt_eq_get {ms : Maps α} {distance : Nat} {name : Name}
    (hnear : ∀ m ∈ ms.take distance, m name.text = none) :
    ms.getAt distance name = ms.get name ↔
      distance < ms.length ∧
        ((∀ m ∈ ms, m name.text = none) ∨ ∃ m, ms[distance]? = some m ∧ (m name.text).isSome) := by
  have searched : ms.findSome? (fun m => m name.text) =
      (ms.drop distance).findSome? fun m => m name.text := by
    have parts : ms.findSome? (fun m => m name.text) =
        (ms.take distance ++ ms.drop distance).findSome? fun m => m name.text := by
      rw [List.take_append_drop]
    rw [parts, List.findSome?_append, List.findSome?_eq_none_iff.2 hnear]
    rfl
  have none_iff : ms.findSome? (fun m => m name.text) = none ↔ ∀ m ∈ ms, m name.text = none :=
    List.findSome?_eq_none_iff
  by_cases hd : distance < ms.length
  · have here : ms.getAt distance name = match ms[distance] name.text with
        | some v => .ok v
        | none => .error (Frames.undefined name) := by
      rw [Maps.getAt, List.getElem?_eq_getElem hd]
    rw [List.drop_eq_getElem_cons hd, List.findSome?_cons] at searched
    rw [here, Maps.get, List.getElem?_eq_getElem hd]
    cases hm : ms[distance] name.text with
    | some v =>
      rw [hm] at searched
      rw [searched]
      exact ⟨fun _ => ⟨hd, .inr ⟨_, rfl, by rw [hm]; rfl⟩⟩, fun _ => rfl⟩
    | none =>
      have unbound : ¬ ∃ m, some ms[distance] = some m ∧ (m name.text).isSome = true := by
        rintro ⟨m, ⟨⟩, hs⟩
        rw [hm] at hs
        cases hs
      simp only [hd, unbound, or_false, true_and, ← none_iff]
      cases ms.findSome? fun m => m name.text <;> simp
  · have outside : ms.getAt distance name = .error (.runtime 0 .scopeOutOfRange) := by
      rw [Maps.getAt, List.getElem?_eq_none (Nat.le_of_not_lt hd)]
    rw [outside, Maps.get]
    refine ⟨fun h => ?_, fun h => absurd h.1 hd⟩
    cases hv : ms.findSome? fun m => m name.text with
    | none => simp [hv, Frames.undefined] at h
    | some v => simp [hv] at h

/-- **The scopes of a program are lists of maps**, whatever has been asked for in them: each request
    finds and changes what it finds and changes in the list of maps that its scope sees.  Where a
    name is bound no nearer, its value at a distance is its value, unless it is not bound there, but
    further out, or the distance leads out of the scope. -/
theorem Grown.refines_maps {t : Tree α} {s : Chain} (h : t.Grown) (hs : s ∈ t.scopes) :
    (∀ r : Request α, t.Follows s (t.perform s r) r) ∧
    ∀ (distance : Nat) (name : Name), (∀ m ∈ (t.maps s).take distance, m name.text = none) →
      ((t.perform s (.getAt distance name)).1 = (t.perform s (.get name)).1 ↔
        distance < s.length ∧ ((∀ m ∈ t.maps s, m name.text = none) ∨
          ∃ m, (t.maps s)[distance]? = some m ∧ (m name.text).isSome)) := by
  refine ⟨h.shaped.follows hs, fun distance name hnear => ?_⟩
  have asked : (t.perform s (.getAt distance name)).1 = (t.perform s (.get name)).1 ↔
      (t.maps s).getAt distance name = (t.maps s).get name := by
    rw [← get_eq, ← getAt_eq]
    exact Reply.map_value_inj
  rw [asked, maps_getAt_eq_get hnear, maps, List.length_map]

/-- A name that is bound among the globals, seen from a scope inside. -/
def shade : Tree Bool :=
  ((({} : Tree Bool).perform globalScope (.define "x" true)).2.perform globalScope .child).2

theorem shade_grown : shade.Grown ∧ [1, globalFrame] ∈ shade.scopes :=
  ⟨(Grown.root.step (.define "x" true) List.mem_cons_self).step .child List.mem_cons_self,
    List.mem_cons_self⟩

theorem maps_shade :
    shade.maps [1, globalFrame] = [fun _ => none, Function.update (fun _ => none) "x" (some true)] := by
  have inner : shade.frames.frame 1 = .empty := rfl
  have outer : shade.frames.frame globalFrame = Bindings.empty.set "x" true := rfl
  unfold maps
  rw [List.map_cons, List.map_cons, inner, outer, List.map_nil, funext Bindings.get?_empty]
  congr
  funext y
  rw [Bindings.get?_set, Bindings.get?_empty, Function.update_apply]

theorem refines_maps_shade :
    shade.Follows [1, globalFrame] (shade.perform [1, globalFrame] (.assign ⟨"x", 1⟩ false))
        (.assign ⟨"x", 1⟩ false) ∧
      (shade.perform [1, globalFrame] (.getAt 1 ⟨"x", 1⟩)).1 =
        (shade.perform [1, globalFrame] (.get ⟨"x", 1⟩)).1 := by
  obtain ⟨follows, agrees⟩ := Grown.refines_maps shade_grown.1 shade_grown.2
  refine ⟨follows _, (agrees 1 ⟨"x", 1⟩ ?_).2 ⟨by decide, .inr ?_⟩⟩
  · rw [maps_shade]
    simp
  · rw [maps_shade]
    exact ⟨_, rfl, by simp⟩

/-- The name is bound no nearer than in the innermost frame, from which it is missing. -/
theorem getAt_misses_shade :
    shade.Grown ∧ [1, globalFrame] ∈ shade.scopes ∧
      (∀ m ∈ (shade.maps [1, globalFrame]).take 0, m "x" = none) ∧
      (shade.perform [1, globalFrame] (.get ⟨"x", 1⟩)).1 = .ok (.value true) ∧
      (shade.perform [1, globalFrame] (.getAt 0 ⟨"x", 1⟩)).1 =
        .error (.runtime 1 (.undefinedVariable "x")) := by
  refine ⟨shade_grown.1, shade_grown.2, List.forall_mem_nil _, ?_, ?_⟩
  · have found : shade.frames.get [1, globalFrame] ⟨"x", 1⟩ = .ok true := by
      rw [get_eq, maps_shade]
      rfl
    exact congrArg (Except.map Reply.value) found
  · have missed : shade.frames.getAt [1, globalFrame] 0 ⟨"x", 1⟩ =
        .error (.runtime 1 (.undefinedVariable "x")) := by
      rw [getAt_eq, maps_shade]
      rfl
    exact congrArg (Except.map Reply.value) missed

end Tree

end Scriptling
