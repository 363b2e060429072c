/-
  Mirrors — the walk over a program and over the same program with its variables renamed.

  * `Renaming.Mirror`: what the scopes of the two walks know, which is the same but for the names
    that have changed places;
  * `Walks.distance?_eq`: so a reference means the same scope in both programs;
  * `Renaming.Renames.follows`: where the walk over a part succeeds, so does the walk over the
    renamed part;
  * `Renaming.resolve_eq`: a renamed program is accepted, with the same distances.
-/
import Scriptling.Proofs.Renaming
import Scriptling.Proofs.Visits

namespace Scriptling

namespace Renaming

/-! ## Scopes -/

/-- The scopes of two walks at a point of a program and of the renamed program: in a scope that is
    renamed, the names have changed places. -/
inductive Mirror (ρ : Renaming) : Depth → List Scope → List Scope → Prop
  | nil : Mirror ρ none [] []
  | enter {D E : Depth} {s s' ss ss'} : D.Enters E →
      (∀ x, s'.get? (ρ.exchange (E.isAt 0) x) = s.get? x) → (E ≠ none → s.get? ρ.new = none) →
      Mirror ρ D ss ss' → Mirror ρ E (s :: ss) (s' :: ss')

/-- Two walks that differ only in what their scopes know the variables by. -/
def Walks (ρ : Renaming) (D : Depth) (w w' : Walk) : Prop :=
  ∃ ss, ρ.Mirror D w.scopes ss ∧ w' = { w with scopes := ss }

/-- If the one walk succeeds, so does the other. -/
def Follows (ρ : Renaming) (D : Depth) (r r' : Except Error Walk) : Prop :=
  ∀ w, r = .ok w → ∃ w', r' = .ok w' ∧ ρ.Walks D w w'

end Renaming

namespace Walk

variable {w : Walk} {x : String} {d : Nat}

/-- A name can mean the scope so many scopes out. -/
def Shows (w : Walk) (x : String) (i : Nat) : Prop :=
  ∃ s ready, w.scopes[i]? = some s ∧ s.get? x = some ready ∧ (i = 0 → ready = true)

/-- **A name means the nearest scope that it can mean.** -/
theorem distance?_eq_iff_shows :
    w.distance? x = some d ↔ w.Shows x d ∧ ∀ i < d, ¬ w.Shows x i := by
  have pending : w.isPending x = true ↔ ∃ s, w.scopes[0]? = some s ∧ s.get? x = some false := by
    unfold isPending
    cases w.scopes <;> simp
  have known {i : Nat} (hi : i < w.scopes.length) :
      w.scopes[i].contains x = true ↔ ∃ ready, w.scopes[i].get? x = some ready := by
    rw [Bindings.contains, Option.isSome_iff_exists]
  rw [distance?_eq_some_iff]
  constructor
  · rintro ⟨hd, hx, hzero, hbefore⟩
    obtain ⟨ready, hr⟩ := (known hd).1 hx
    refine ⟨⟨_, ready, List.getElem?_eq_getElem hd, hr, ?_⟩, ?_⟩
    · rintro rfl
      cases ready with
      | true => rfl
      | false =>
        exact absurd (pending.2 ⟨_, List.getElem?_eq_getElem hd, hr⟩) (by simp [hzero rfl])
    · rintro i hi ⟨s, ready, hs, hr, hready⟩
      obtain ⟨hlt, rfl⟩ := List.getElem?_eq_some_iff.1 hs
      obtain ⟨rfl, hp⟩ := hbefore i hi ((known hlt).2 ⟨ready, hr⟩)
      obtain ⟨_, hs', hfalse⟩ := pending.1 hp
      cases hs.symm.trans hs'
      cases hr.symm.trans hfalse
      cases hready rfl
  · rintro ⟨⟨s, ready, hs, hr, hready⟩, hnearest⟩
    obtain ⟨hd, rfl⟩ := List.getElem?_eq_some_iff.1 hs
    refine ⟨hd, (known hd).2 ⟨ready, hr⟩, ?_, fun i hi hc => ?_⟩
    · rintro rfl
      refine Bool.eq_false_iff.2 fun hp => ?_
      obtain ⟨_, hs', hfalse⟩ := pending.1 hp
      cases hs.symm.trans hs'
      cases hr.symm.trans hfalse
      cases hready rfl
    · have hlt : i < w.scopes.length := Nat.lt_trans hi hd
      obtain ⟨r, hr'⟩ := (known hlt).1 hc
      by_contra hnot
      refine hnearest i hi ⟨_, r, List.getElem?_eq_getElem hlt, hr', fun h0 => ?_⟩
      subst h0
      cases r with
      | true => rfl
      | false => exact absurd ⟨rfl, pending.2 ⟨_, List.getElem?_eq_getElem hlt, hr'⟩⟩ hnot

theorem not_shows (h : w.distance? x = none) (i : Nat) : ¬ w.Shows x i := by
  induction i using Nat.strongRecOn with
  | _ i ih =>
    intro hi
    have found := distance?_eq_iff_shows.2 ⟨hi, ih⟩
    cases h.symm.trans found

end Walk

namespace Renaming

variable {ρ : Renaming} {D E : Depth} {w w' : Walk} {x : String}

/-- What a scope knows in the one walk, the same scope knows in the other. -/
theorem Mirror.scopes {ss ss' : List Scope} (h : ρ.Mirror D ss ss') (i : Nat) :
    Option.Rel (fun s s' => ∀ x, s'.get? (ρ.exchange (D.isAt i) x) = s.get? x) ss[i]? ss'[i]? := by
  induction h generalizing i with
  | nil => exact .none
  | enter hE hx _ _ ih =>
    cases i with
    | zero => exact .some hx
    | succ i => simpa [hE.isAt_succ] using ih i

/-- No scope of those inside the renamed one, or that one itself, knows the new name. -/
theorem Mirror.new_unknown {ss ss' : List Scope} {d : Nat} (h : ρ.Mirror (some d) ss ss') {i : Nat}
    (hi : i ≤ d) {s : Scope} (hs : ss[i]? = some s) : s.get? ρ.new = none := by
  generalize hD : some d = D at h
  induction h generalizing i d with
  | nil => cases hs
  | enter hE _ hnew _ ih =>
    cases i with
    | zero =>
      cases hs
      exact hnew (hD ▸ nofun)
    | succ i =>
      cases hE with
      | outside => cases hD
      | here => cases hD; omega
      | deeper => cases hD; exact ih (Nat.le_of_succ_le_succ hi) hs rfl

theorem Walks.shows_iff (h : ρ.Walks D w w') {i : Nat} :
    w'.Shows x i ↔ w.Shows (ρ.exchange (D.isAt i) x) i := by
  obtain ⟨ss, hm, rfl⟩ := h
  have both := hm.scopes i
  unfold Walk.Shows
  dsimp only
  generalize w.scopes[i]? = a at both
  generalize ss[i]? = b at both
  cases both with
  | none => simp
  | some hx => simp [← hx]

theorem Walks.new_unshown {d i : Nat} (h : ρ.Walks (some d) w w') (hi : i ≤ d) :
    ¬ w.Shows ρ.new i := by
  rintro ⟨s, ready, hs, hr, -⟩
  obtain ⟨ss, hm, rfl⟩ := h
  cases (hm.new_unknown hi hs).symm.trans hr

/-- Where the old name is not shown, the new one is not either. -/
theorem Walks.unshown (h : ρ.Walks D w w') {i : Nat} (hn : ρ.Fresh D x) (hx : ¬ w.Shows x i)
    {b : Bool} (hb : b = true → ∃ d, D = some d ∧ i ≤ d) : ¬ w.Shows (ρ.exchange b x) i := by
  cases b with
  | false => exact hx
  | true =>
    obtain ⟨d, rfl, hi⟩ := hb rfl
    by_cases ho : x = ρ.old
    · rw [ho, exchange_old]
      exact h.new_unshown hi
    · rwa [exchange_of_ne true ho (hn nofun)]

/-- **A reference means the same scope in the renamed program.** -/
theorem Walks.distance?_eq (h : ρ.Walks D w w') {site : Nat} {n : Name} (hn : ρ.Fresh D n.text)
    (hs : ρ.distance site = w.distance? n.text) :
    w'.distance? (ρ.referred D site n).text = w.distance? n.text := by
  have here {i : Nat} (hi : D.isAt i = true) : ∃ d, D = some d ∧ i ≤ d :=
    ⟨i, beq_iff_eq.1 hi, Nat.le_refl i⟩
  cases hd : w.distance? n.text with
  | some d =>
    obtain ⟨hshown, hnearest⟩ := Walk.distance?_eq_iff_shows.1 hd
    rw [text_referred hn (hs.trans hd), Walk.distance?_eq_iff_shows, h.shows_iff,
      exchange_exchange]
    refine ⟨hshown, fun i hi => ?_⟩
    rw [h.shows_iff]
    cases hDd : D.isAt d with
    | false => exact h.unshown hn (hnearest i hi) here
    | true =>
      -- the scope that is renamed is further out than this one
      obtain rfl : D = some d := beq_iff_eq.1 hDd
      have hDi : Depth.isAt (some d) i = false := by simp [Nat.ne_of_gt hi]
      rw [hDi]
      exact h.unshown (b := true) hn (hnearest i hi) fun _ => ⟨d, rfl, Nat.le_of_lt hi⟩
  | none =>
    rw [referred_of_none (hs.trans hd)]
    refine Option.eq_none_iff_forall_ne_some.2 fun d hd' => ?_
    have hshown := (Walk.distance?_eq_iff_shows.1 hd').1
    rw [h.shows_iff] at hshown
    exact h.unshown hn (Walk.not_shows hd d) here hshown

/-! ### Steps of the walk -/

theorem Follows.ok (h : ρ.Walks D w w') : ρ.Follows D (.ok w) (.ok w') :=
  fun _ he => by cases he; exact ⟨w', rfl, h⟩

theorem Follows.bind {r r' : Except Error Walk} {f f' : Walk → Except Error Walk}
    (h : ρ.Follows D r r')
    (hf : ∀ {w w'}, r = .ok w → ρ.Walks D w w' → ρ.Follows E (f w) (f' w')) :
    ρ.Follows E (r >>= f) (r' >>= f') := by
  intro w₂ hw₂
  obtain ⟨w₁, hw₁, hw₂⟩ := Except.bind_eq_ok.1 hw₂
  obtain ⟨w₁', hw₁', hs⟩ := h w₁ hw₁
  obtain ⟨w₂', hw₂', hs'⟩ := hf hw₁ hs w₂ hw₂
  exact ⟨w₂', Except.bind_eq_ok.2 ⟨w₁', hw₁', hw₂'⟩, hs'⟩

theorem Walks.leave (h : ρ.Walks E w w') (hE : D.Enters E) :
    ρ.Walks D { w with scopes := w.scopes.tail } { w' with scopes := w'.scopes.tail } := by
  obtain ⟨ss, hm, rfl⟩ := h
  cases w
  cases hm with
  | nil => cases hE; exact ⟨[], .nil, rfl⟩
  | enter hE' _ _ hm => exact ⟨_, hE.unique hE' ▸ hm, rfl⟩

theorem Follows.within (hE : D.Enters E) {s s' : Scope} {inside inside' : Walk → Except Error Walk}
    (hin : ρ.Follows E (inside (w.enter s)) (inside' (w'.enter s'))) :
    ρ.Follows D (w.within s inside) (w'.within s' inside') :=
  hin.bind fun _ hs => .ok (hs.leave hE)

namespace Walks

variable (h : ρ.Walks D w w')
include h

/-- Only the scopes of the walks differ. -/
theorem flags : w'.function = w.function ∧ w'.inStruct = w.inStruct ∧ w'.loops = w.loops := by
  obtain ⟨ss, -, rfl⟩ := h
  exact ⟨rfl, rfl, rfl⟩

theorem isEmpty_eq : w'.scopes.isEmpty = w.scopes.isEmpty := by
  obtain ⟨ss, hm, rfl⟩ := h
  cases w
  cases hm <;> rfl

/-- Outside of all scopes nothing is renamed. -/
theorem eq_none_of_isEmpty (he : w.scopes.isEmpty = true) : D = none := by
  obtain ⟨ss, hm, rfl⟩ := h
  cases w
  cases hm with
  | nil => rfl
  | enter => cases he

/-- A variable in its own first value stays so only under its old name. -/
theorem isPending (hx : ρ.Fresh D x) (hp : w'.isPending x = true) : w.isPending x = true := by
  obtain ⟨ss, hm, rfl⟩ := h
  unfold Walk.isPending at hp ⊢
  generalize w.scopes = ts at hm
  cases hm with
  | nil => cases hp
  | @enter _ _ s s' _ _ _ hs hnew _ =>
    simp only [beq_iff_eq] at hp ⊢
    cases hd : D.isAt 0 with
    | false => simpa [hd, hp] using (hs x).symm
    | true =>
      have hne := ne_none_of_isAt hd
      have hknown := hs (ρ.exchange (D.isAt 0) x)
      rw [exchange_exchange, hp, hd] at hknown
      by_cases ho : x = ρ.old
      · rw [ho, exchange_old, hnew hne] at hknown
        cases hknown
      · rwa [exchange_of_ne true ho (hx hne), eq_comm] at hknown

theorem refer (site : Nat) {n : Name} (hn : ρ.Fresh D n.text)
    (hs : ρ.distance site = w.distance? n.text) :
    ρ.Follows D (w.refer site n) (w'.refer site (ρ.referred D site n)) := by
  intro w₁ hw₁
  have hd := h.distance?_eq hn hs
  unfold Walk.refer at hw₁ ⊢
  rw [hd]
  cases hdist : w.distance? n.text with
  | some d =>
    simp only [hdist] at hw₁
    cases hw₁
    obtain ⟨ss, hm, rfl⟩ := h
    exact ⟨_, rfl, ss, hm, rfl⟩
  | none =>
    simp only [hdist] at hw₁ ⊢
    rw [referred_of_none (hs.trans hdist)]
    split at hw₁
    · cases hw₁
    · next hown =>
      cases hw₁
      refine ⟨w', if_neg fun hown' => hown ?_, h⟩
      have hempty := h.isEmpty_eq
      have hpending := h.isPending (x := n.text) hn
      obtain ⟨ss, hm, rfl⟩ := h
      unfold Walk.isOwnInitializer at hown' ⊢
      simp only [Bool.and_eq_true, Bool.or_eq_true] at hown' ⊢
      exact ⟨hown'.1.imp hpending fun he => ⟨hempty ▸ he.1, he.2⟩, hown'.2⟩

theorem mark {x' : String} (hx : ρ.Fresh D x) (hx' : x' = ρ.exchange (D.isAt 0) x) (ready : Bool) :
    ρ.Walks D (w.mark x ready) (w'.mark x' ready) := by
  obtain ⟨ss, hm, rfl⟩ := h
  cases w
  cases hm with
  | nil => exact ⟨[], .nil, rfl⟩
  | @enter _ _ s s' ts ss hE hs hnew hm =>
    refine ⟨s'.set x' ready :: ss, .enter hE (fun y => ?_) (fun hne => ?_) hm, rfl⟩
    · rw [Bindings.get?_set, Bindings.get?_set, hx', hs]
      simp only [EmbeddingLike.apply_eq_iff_eq]
    · rw [Bindings.get?_set, if_neg (hx hne).symm]
      exact hnew hne

theorem bind {x' : String} (hx : ρ.Fresh D x) (hx' : x' = ρ.exchange (D.isAt 0) x) :
    ρ.Walks D (w.bind x) (w'.bind x') := by
  have hempty := h.isEmpty_eq
  unfold Walk.bind
  rw [hempty]
  split
  · next he =>
    obtain rfl := h.eq_none_of_isEmpty he
    obtain ⟨ss, hm, rfl⟩ := h
    exact ⟨ss, hm, by rw [hx']; rfl⟩
  · exact h.mark hx hx' true

theorem await {x' : String} (hx : ρ.Fresh D x) (hx' : x' = ρ.exchange (D.isAt 0) x) :
    ρ.Walks D (w.await x) (w'.await x') := by
  have hempty := h.isEmpty_eq
  unfold Walk.await
  rw [hempty]
  split
  · next he =>
    obtain rfl := h.eq_none_of_isEmpty he
    obtain ⟨ss, hm, rfl⟩ := h
    exact ⟨ss, hm, by rw [hx']; rfl⟩
  · exact h.mark hx hx' false

theorem declare {x' : String} (hx : ρ.Fresh D x) (hx' : x' = ρ.exchange (D.isAt 0) x)
    {value value' : Walk → Except Error Walk}
    (hv : ρ.Follows D (value (w.await x)) (value' (w'.await x'))) :
    ρ.Follows D (w.declare x value) (w'.declare x' value') := by
  have hempty := h.isEmpty_eq
  unfold Walk.await at hv
  unfold Walk.declare
  rw [hempty] at hv ⊢
  split
  · next he =>
    obtain rfl := h.eq_none_of_isEmpty he
    rw [if_pos he, if_pos he] at hv
    refine hv.bind fun _ hs => .ok ?_
    obtain ⟨ss, hm, rfl⟩ := hs
    exact ⟨ss, hm, by rw [hx']; rfl⟩
  · next he =>
    rw [if_neg he, if_neg he] at hv
    exact hv.bind fun _ hs => .ok (hs.mark hx hx' true)

theorem enter (hE : D.Enters E) {s s' : Scope}
    (hs : ∀ x, s'.get? (ρ.exchange (E.isAt 0) x) = s.get? x)
    (hnew : E ≠ none → s.get? ρ.new = none) :
    ρ.Walks E (w.enter s) (w'.enter s') := by
  obtain ⟨ss, hm, rfl⟩ := h
  exact ⟨s' :: ss, .enter hE hs hnew hm, rfl⟩

theorem title {f f' : Function} (hf : f'.name = f.name)
    (hx : ∀ name ∈ f.name, ρ.Fresh D name.text ∧ ρ.Spared D name.text) :
    ρ.Walks D (w.title f) (w'.title f') := by
  unfold Walk.title
  rw [hf]
  cases hn : f.name with
  | none => exact h
  | some name =>
    obtain ⟨hfresh, hspared⟩ := hx name hn
    exact h.bind hfresh (exchange_spared hfresh hspared).symm

theorem require {condition condition' : Bool} (hc : condition' = condition) (line : Nat)
    (fault : ScopeFault) :
    ρ.Follows D (w.require condition line fault) (w'.require condition' line fault) := by
  rw [hc]
  cases condition with
  | true => exact .ok h
  | false => exact fun _ he => nomatch he

theorem inLoop {body body' : Walk → Except Error Walk}
    (hb : ∀ {v v' : Walk}, v = { w with loops := w.loops + 1 } → ρ.Walks D v v' →
      ρ.Follows D (body v) (body' v')) : ρ.Follows D (w.inLoop body) (w'.inLoop body') := by
  obtain ⟨ss, hm, rfl⟩ := h
  refine (hb rfl ⟨ss, hm, rfl⟩).bind fun _ hs => .ok ?_
  obtain ⟨ts, ht, rfl⟩ := hs
  exact ⟨ts, ht, rfl⟩

theorem inFunction {kind : FunctionKind} {function function' : Walk → Except Error Walk}
    (hf : ∀ {v v' : Walk}, v = { w with function := kind } → ρ.Walks D v v' →
      ρ.Follows D (function v) (function' v')) :
    ρ.Follows D (w.inFunction kind function) (w'.inFunction kind function') := by
  obtain ⟨ss, hm, rfl⟩ := h
  refine (hf rfl ⟨ss, hm, rfl⟩).bind fun _ hs => .ok ?_
  obtain ⟨ts, ht, rfl⟩ := hs
  exact ⟨ts, ht, rfl⟩

theorem inBody {params params' : List Name} {body body' : Walk → Except Error Walk}
    (hE : D.Enters E)
    (hb : ρ.Follows E (body (w.enterBody params)) (body' (w'.enterBody params'))) :
    ρ.Follows D (w.inBody params body) (w'.inBody params' body') := by
  obtain ⟨ss, hm, rfl⟩ := h
  refine (Follows.within hE hb).bind fun _ hs => .ok ?_
  obtain ⟨ts, ht, rfl⟩ := hs
  exact ⟨ts, ht, rfl⟩

theorem inMethods {methods methods' : Walk → Except Error Walk}
    (hb : ∀ {v v' : Walk}, v = { w with inStruct := true } → ρ.Walks D v v' →
      ρ.Follows D (methods v) (methods' v')) :
    ρ.Follows D (w.inMethods methods) (w'.inMethods methods') := by
  obtain ⟨ss, hm, rfl⟩ := h
  refine (hb rfl ⟨ss, hm, rfl⟩).bind fun _ hs => .ok ?_
  obtain ⟨ts, ht, rfl⟩ := hs
  exact ⟨ts, ht, rfl⟩

end Walks

/-- The scopes of the parameters of a function. -/
theorem mirror_params {params : List Name} (hp : ∀ p ∈ params, ρ.Fresh D p.text) {s t : Scope}
    (hs : ∀ x, t.get? (ρ.exchange (D.isAt 0) x) = s.get? x)
    (hnew : D ≠ none → s.get? ρ.new = none) :
    (∀ x, ((params.map (ρ.declared D)).foldl (fun (s : Scope) p => s.set p.text true) t).get?
        (ρ.exchange (D.isAt 0) x) =
      (params.foldl (fun (s : Scope) p => s.set p.text true) s).get? x) ∧
    (D ≠ none → (params.foldl (fun (s : Scope) p => s.set p.text true) s).get? ρ.new = none) := by
  induction params generalizing s t with
  | nil => exact ⟨hs, hnew⟩
  | cons p params ih =>
    obtain ⟨hp, hps⟩ := List.forall_mem_cons.1 hp
    refine ih hps (fun x => ?_) fun hD => ?_
    · rw [Bindings.get?_set, Bindings.get?_set, text_declared hp, hs]
      simp only [EmbeddingLike.apply_eq_iff_eq]
    · rw [Bindings.get?_set, if_neg (hp hD).symm]
      exact hnew hD

theorem Walks.enterBody (h : ρ.Walks D w w') (hE : D.Enters E) {params : List Name}
    (hp : ∀ p ∈ params, ρ.Fresh E p.text) :
    ρ.Walks E (w.enterBody params) (w'.enterBody (params.map (ρ.declared E))) := by
  have flagged : ρ.Walks D { w with loops := 0 } { w' with loops := 0 } := by
    obtain ⟨ss, hm, rfl⟩ := h
    exact ⟨ss, hm, rfl⟩
  obtain ⟨hs, hnew⟩ := mirror_params hp (s := .empty) (t := .empty) (by simp) (by simp)
  exact flagged.enter hE hs hnew

theorem Walks.enterEmpty (h : ρ.Walks D w w') (hE : D.Enters E) :
    ρ.Walks E (w.enter .empty) (w'.enter .empty) := h.enter hE (by simp) (by simp)

theorem Walks.enterReceiver (h : ρ.Walks D w w') :
    ρ.Walks D.inner (w.enter methodScope) (w'.enter methodScope) := by
  refine h.enter D.enters_inner (fun x => by rw [Depth.isAt_inner]; rfl) fun _ => ?_
  unfold methodScope
  rw [Bindings.get?_set, if_neg ρ.new_ne, Bindings.get?_empty]

/-- What is to be shown may count on the success of the first walk. -/
theorem Follows.of_ok {r r' : Except Error Walk}
    (h : ∀ w, r = .ok w → ρ.Follows D r r') : ρ.Follows D r r' := fun w hw => h w hw w hw

end Renaming

namespace Pass.Visits

variable {p : Pass} {Γ : List Layer} {w w₁ w₂ : Walk} {part q₁ q₂ q₃ q₄ : Part}
  {names₁ names₂ names₃ names₄ : List String} {rest : List (Part × List String)}

theorem first (h : p.Visits Γ w part) (hq : part.pieces = (q₁, names₁) :: rest) :
    p.Visits (Layer.assure names₁ Γ) w q₁ :=
  .piece h (show part.pieces = [] ++ _ from hq) rfl

theorem second (h : p.Visits Γ w part) (h₁ : q₁.resolve w = .ok w₁)
    (hq : part.pieces = (q₁, names₁) :: (q₂, names₂) :: rest) :
    p.Visits (Layer.assure names₂ Γ) w₁ q₂ :=
  .piece h (show part.pieces = [(q₁, names₁)] ++ _ from hq)
    (Part.resolveEach_singleton.trans h₁)

theorem third (h : p.Visits Γ w part) (h₁ : q₁.resolve w = .ok w₁) (h₂ : q₂.resolve w₁ = .ok w₂)
    (hq : part.pieces = (q₁, names₁) :: (q₂, names₂) :: (q₃, names₃) :: rest) :
    p.Visits (Layer.assure names₃ Γ) w₂ q₃ :=
  .piece h (show part.pieces = [(q₁, names₁), (q₂, names₂)] ++ _ from hq)
    (Except.bind_eq_ok.2 ⟨w₁, h₁, Part.resolveEach_singleton.trans h₂⟩)

theorem fourth {w₃ : Walk} (h : p.Visits Γ w part) (h₁ : q₁.resolve w = .ok w₁)
    (h₂ : q₂.resolve w₁ = .ok w₂) (h₃ : q₃.resolve w₂ = .ok w₃)
    (hq : part.pieces = (q₁, names₁) :: (q₂, names₂) :: (q₃, names₃) :: (q₄, names₄) :: rest) :
    p.Visits (Layer.assure names₄ Γ) w₃ q₄ :=
  .piece h (show part.pieces = [(q₁, names₁), (q₂, names₂), (q₃, names₃)] ++ _ from hq)
    (Except.bind_eq_ok.2 ⟨w₁, h₁, Except.bind_eq_ok.2 ⟨w₂, h₂,
      Part.resolveEach_singleton.trans h₃⟩⟩)

end Pass.Visits

namespace Renaming

variable {ρ : Renaming}

/-- **The walk over a renamed part goes as the walk over the part does.** -/
theorem Renames.follows {p : Pass} {ds : List (Nat × Nat)} (hp : p.Accepts ds)
    (hn : (Part.stmts p.program).sites.Nodup)
    (hρ : ∀ s ∈ (Part.stmts p.program).sites, ρ.distance s = ds.lookup s) {D : Depth}
    {part part' : Part} (h : ρ.Renames D part part') : ∀ {Γ w w'}, p.Visits Γ w part →
      ρ.Walks D w w' → ρ.Follows D (part.resolve w) (part'.resolve w') := by
  induction h with
  | literal | noExprs | absent | noMethods | noAlternative | noStmts => exact fun _ hw => .ok hw
  | group _ ih | unary _ ih | get _ ih | present _ ih | expression _ ih | print _ ih
  | alternative _ ih | «variable» _ ih => exact fun hv hw => ih (hv.first rfl) hw
  | binary _ _ ih₁ ih₂ | logical _ _ ih₁ ih₂ | call _ _ ih₁ ih₂ | set _ _ ih₁ ih₂
  | exprs _ _ ih₁ ih₂ | methods _ _ ih₁ ih₂ | stmts _ _ ih₁ ih₂ | assign _ _ ih₁ ih₂ =>
    exact fun hv hw => (ih₁ (hv.first rfl) hw).bind fun h₁ hw => ih₂ (hv.second h₁ rfl) hw
  | ternary _ _ _ ih₁ ih₂ ih₃ | «if» _ _ _ ih₁ ih₂ ih₃ =>
    exact fun hv hw => (ih₁ (hv.first rfl) hw).bind fun h₁ hw =>
      (ih₂ (hv.second h₁ rfl) hw).bind fun h₂ hw => ih₃ (hv.third h₁ h₂ rfl) hw
  | reference hf =>
    intro Γ w w' hv hw
    exact hw.refer _ hf ((hρ _ (hv.sites_subset List.mem_cons_self)).trans (hv.lookup_eq hp hn))
  | @this D site line =>
    intro Γ w w' hv hw
    refine (hw.require hw.flags.2.1 _ _).bind fun h₁ hw₁ => ?_
    obtain ⟨-, rfl⟩ := Walk.require_eq_ok.1 h₁
    have found := hw₁.refer site (n := ⟨"this", line⟩) fresh_receiver
      ((hρ _ (hv.sites_subset List.mem_cons_self)).trans ((hv.first rfl).lookup_eq hp hn))
    rwa [referred_receiver] at found
  | function hx hf ih =>
    intro Γ w w' hv hw
    refine (hw.title hf.name_eq hx).inFunction fun h hw => ?_
    subst h
    exact ih (.literal hv) hw
  | body hE hps _ ih =>
    exact fun hv hw => hw.inBody hE (.of_ok fun _ hafter =>
      ih (.body hv hafter) (hw.enterBody hE hps))
  | @method D f f' _ ih =>
    intro Γ w w' hv hw
    have called : ρ.Follows D.inner ((w.enter methodScope).inFunction .method f.resolve)
        ((w'.enter methodScope).inFunction .method f'.resolve) :=
      hw.enterReceiver.inFunction fun h hw => by
        subst h
        exact .of_ok fun _ hafter => ih (.receiver hv hafter) hw
    change ρ.Follows D (w.within methodScope fun w => w.inFunction .method f.resolve)
      (w'.within methodScope fun w => w.inFunction .method f'.resolve)
    exact .within (Depth.enters_inner _) called
  | «let» hf _ ih =>
    exact fun hv hw => hw.declare hf (text_declared hf)
      (ih (.value hv) (hw.await hf (text_declared hf)))
  | block hE _ ih =>
    exact fun hv hw => .within hE (.of_ok fun _ hafter => ih (.block hv hafter) (hw.enterEmpty hE))
  | «while» _ _ ih₁ ih₂ =>
    exact fun hv hw => (ih₁ (hv.first rfl) hw).bind fun h₁ hw => ih₂ (hv.second h₁ rfl) hw
  | «for» hE _ ih =>
    exact fun hv hw => .within hE (.of_ok fun _ hafter => ih (.loop hv hafter) (hw.enterEmpty hE))
  | «break» | «continue» => exact fun _ hw => hw.require (by rw [hw.flags.2.2]) _ _
  | «return» _ ih =>
    intro Γ w w' hv hw
    refine (hw.require (by rw [hw.flags.1]) _ _).bind fun h₁ hw₁ => ?_
    obtain ⟨-, rfl⟩ := Walk.require_eq_ok.1 h₁
    exact ih (hv.first rfl) hw₁
  | struct hf hs _ ih =>
    intro Γ w w' hv hw
    refine (hw.bind hf (exchange_spared hf hs).symm).inMethods fun h hw => ?_
    subst h
    exact ih (.methods hv) hw
  | rounds _ ih =>
    intro Γ w w' hv hw
    refine hw.inLoop fun h hw => ?_
    subst h
    exact ih (.round hv) hw
  | clauses _ _ _ _ ih₁ ih₂ ih₃ ih₄ =>
    exact fun hv hw => (ih₁ (hv.first rfl) hw).bind fun h₁ hw =>
      (ih₂ (hv.second h₁ rfl) hw).bind fun h₂ hw => (ih₃ (hv.third h₁ h₂ rfl) hw).bind fun h₃ hw =>
        ih₄ (hv.fourth h₁ h₂ h₃ rfl) hw

/-- **A renamed program is accepted, with the same distances.** -/
theorem resolve_eq {globals : List String} {program program' : List Stmt} {ds : List (Nat × Nat)}
    (hn : (Part.stmts program).sites.Nodup) (hds : resolve globals program = .ok ds)
    (hρ : ∀ s ∈ (Part.stmts program).sites, ρ.distance s = ds.lookup s)
    (h : ρ.Renames none (.stmts program) (.stmts program')) :
    resolve globals program' = .ok ds := by
  let p : Pass := ⟨globals, program, 0⟩
  have hp : p.Accepts ds := hds
  obtain ⟨w, hw, hd⟩ := Except.bind_eq_ok.1 hds
  cases hd
  obtain ⟨w', hw', ss, -, rfl⟩ := h.follows hp hn hρ .start ⟨[], .nil, rfl⟩ w hw
  exact Except.bind_eq_ok.2 ⟨_, hw', rfl⟩

end Renaming

end Scriptling
