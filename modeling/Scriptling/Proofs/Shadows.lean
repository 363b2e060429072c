/-
  Shadows — programs in which no name is declared twice.

  * `Pass.Visits.spread`: each name that an open scope ends up with is declared in the scope,
    apart from `this`, and what is declared in the open scopes, inside the part that the walk
    has come to and among the globals of the program, is declared in different places;
  * `Pass.Visits.apart`: so a name is in one open scope at most, if none is declared twice;
  * `Pass.Visits.receivers`: `this` is in the scopes of receivers, from their start.
-/
import Scriptling.Proofs.Worlds

namespace Scriptling

/-! ## The names of a scope -/

theorem Walk.knows_innermost {w : Walk} {x : String} (h : w.innermost.contains x = true) :
    w.Knows x := by
  unfold Walk.innermost at h
  rw [List.headD_eq_head?_getD] at h
  cases hs : w.scopes.head? with
  | none =>
    rw [hs, Option.getD_none, Bindings.contains_empty] at h
    cases h
  | some s =>
    rw [hs] at h
    exact ⟨s, hs, h⟩

theorem Walk.Gains.of_contains {w after : Walk} {names : List String} {x : String}
    (h : w.Gains names after) (hw : w.scopes ≠ []) (hx : after.innermost.contains x = true) :
    w.Knows x ∨ x ∈ names :=
  ((h hw).2 x).1 (Walk.knows_innermost hx)

theorem Walk.not_knows_enter_empty (w : Walk) (x : String) : ¬ (w.enter .empty).Knows x := by
  rintro ⟨s, hs, hx⟩
  cases hs
  rw [Bindings.contains_empty] at hx
  cases hx

/-- The scope of a function ends up with its parameters and what its body declares. -/
theorem mem_of_body {w after : Walk} {params : List Name} {body : List Stmt} {x : String}
    (h : Stmt.resolveAll body (w.enterBody params) = .ok after)
    (hx : after.innermost.contains x = true) :
    x ∈ params.map Name.text ++ Stmt.declaresAll body := by
  have settled := Part.resolve_settles (p := .stmts body) h
  rcases settled.gains.of_contains (List.cons_ne_nil _ _) hx with hx | hx
  · exact List.mem_append_left _ ((w.knows_enterBody params x).1 hx)
  · exact List.mem_append_right _ hx

theorem mem_of_block {w after : Walk} {body : List Stmt} {x : String}
    (h : Stmt.resolveAll body (w.enter .empty) = .ok after)
    (hx : after.innermost.contains x = true) : x ∈ Stmt.declaresAll body :=
  have settled := Part.resolve_settles (p := .stmts body) h
  (settled.gains.of_contains (List.cons_ne_nil _ _) hx).resolve_left (w.not_knows_enter_empty x)

theorem mem_of_clauses {w after : Walk} {name : Name} {value condition step : Option Expr}
    {body : Stmt} {x : String}
    (h : (Part.clauses name value condition step body).resolve (w.enter .empty) = .ok after)
    (hx : after.innermost.contains x = true) :
    x ∈ declaresInLoop name value condition step body :=
  ((Part.resolve_settles h).gains.of_contains (List.cons_ne_nil _ _) hx).resolve_left
    (w.not_knows_enter_empty x)

theorem Walk.scopes_title (w : Walk) (f : Function) : ScopesGrow w.scopes (w.title f).scopes := by
  unfold Walk.title
  split
  · exact (Walk.closed_grows.bind w _).scopes
  · exact .refl _

theorem Walk.scopes_await (w : Walk) (x : String) : ScopesGrow w.scopes (w.await x).scopes := by
  unfold Walk.await
  split
  · exact .refl _
  · exact (w.grows_mark x false).scopes

namespace Layer

@[simp] theorem map_final_assure (names : List String) (Γ : List Layer) :
    (assure names Γ).map final = Γ.map final := by
  cases Γ <;> rfl

@[simp] theorem map_final_await (x : String) (Γ : List Layer) :
    (await x Γ).map final = Γ.map final := by
  cases Γ <;> rfl

end Layer

/-! ## Different places -/

/-- The scope has only names that are declared in it, and `this`. -/
def Declares (s : Scope) (names : List String) : Prop :=
  ∀ x, s.contains x = true → x ∈ names ∨ x = "this"

namespace Pass

variable {p : Pass} {Γ : List Layer} {w : Walk} {part : Part}

/-- **Names are declared in different places.** -/
theorem Visits.spread (h : p.Visits Γ w part) : ∃ ns : List (List String),
    List.Forall₂ Declares (Γ.map Layer.final) ns ∧
    (part.encloses ++ (ns.flatten ++ Stmt.declaresAll p.program)).Subperm
      (declaredNames p.program) := by
  -- a new scope takes its names from those that the part encloses
  have enter (names inner : List String) {s : Scope} {ss : List Scope} {ns : List (List String)}
      (hs : Declares s names) (hss : List.Forall₂ Declares ss ns)
      (hsub : ((names ++ inner) ++ (ns.flatten ++ Stmt.declaresAll p.program)).Subperm
        (declaredNames p.program)) :
      ∃ ns : List (List String), List.Forall₂ Declares (s :: ss) ns ∧
        (inner ++ (ns.flatten ++ Stmt.declaresAll p.program)).Subperm
          (declaredNames p.program) := by
    refine ⟨names :: ns, .cons hs hss, ?_⟩
    have hperm : (inner ++ ((names :: ns).flatten ++ Stmt.declaresAll p.program)).Perm
        ((names ++ inner) ++ (ns.flatten ++ Stmt.declaresAll p.program)) := by
      rw [List.flatten_cons, List.append_assoc, ← List.append_assoc inner]
      exact List.perm_append_comm.append_right _
    exact hperm.subperm.trans hsub
  induction h with
  | start =>
    refine ⟨[], .nil, List.Perm.subperm ?_⟩
    exact List.perm_append_comm
  | @piece Γ w w₁ part before q names after _ hq _ ih =>
    obtain ⟨ns, hns, hsub⟩ := ih
    have hmem : (q, names) ∈ part.pieces := by rw [hq]; simp
    refine ⟨ns, by rw [Layer.map_final_assure]; exact hns, ?_⟩
    exact ((Part.encloses_pieces _ hmem).append_right _).subperm.trans hsub
  | literal _ ih =>
    obtain ⟨ns, hns, hsub⟩ := ih
    exact ⟨ns, by rw [Layer.map_final_assure]; exact hns, hsub⟩
  | @body Γ w after title params body line _ hafter ih =>
    obtain ⟨ns, hns, hsub⟩ := ih
    refine enter (params.map Name.text ++ Stmt.declaresAll body) (Stmt.enclosesAll body)
      (fun x hx => Or.inl (mem_of_body hafter hx)) hns ?_
    rw [List.append_assoc (params.map Name.text)]
    exact hsub
  | @receiver Γ w after f _ hafter ih =>
    obtain ⟨ns, hns, hsub⟩ := ih
    refine enter [] f.encloses (fun x hx => Or.inr ?_) hns hsub
    have same := Function.scopes_resolve hafter
    rw [Walk.innermost, same] at hx
    have hx' : (Bindings.empty.set "this" true).contains x = true := hx
    rw [Bindings.contains_set, Bindings.contains_empty] at hx'
    exact hx'.resolve_right Bool.false_ne_true
  | value _ ih =>
    obtain ⟨ns, hns, hsub⟩ := ih
    exact ⟨ns, by rw [Layer.map_final_await]; exact hns, hsub⟩
  | @block Γ w after body _ hafter ih =>
    obtain ⟨ns, hns, hsub⟩ := ih
    exact enter (Stmt.declaresAll body) (Stmt.enclosesAll body)
      (fun x hx => Or.inl (mem_of_block hafter hx)) hns hsub
  | @loop Γ w after name value condition step body _ hafter ih =>
    obtain ⟨ns, hns, hsub⟩ := ih
    exact enter (declaresInLoop name value condition step body) _
      (fun x hx => Or.inl (mem_of_clauses hafter hx)) hns hsub
  | round _ ih => exact ih
  | methods _ ih =>
    obtain ⟨ns, hns, hsub⟩ := ih
    exact ⟨ns, by rw [Layer.map_final_assure]; exact hns, hsub⟩

/-- The walk comes to no names but those of the program. -/
theorem Visits.encloses_subset (h : p.Visits Γ w part) :
    part.encloses ⊆ declaredNames p.program := by
  obtain ⟨ns, -, hsub⟩ := h.spread
  exact fun x hx => hsub.subset (List.mem_append_left _ hx)

/-- **If no name is declared twice, a name is in one open scope at most, and not global.** -/
theorem Visits.apart (h : p.Visits Γ w part) (hn : (declaredNames p.program).Nodup) {x : String}
    (hx : x ≠ "this") {i : Nat} {l : Layer} (hi : Γ[i]? = some l)
    (hl : l.final.contains x = true) :
    x ∈ declaredNames p.program ∧ x ∉ Stmt.declaresAll p.program ∧
      ∀ {j l'}, Γ[j]? = some l' → l'.final.contains x = true → i = j := by
  obtain ⟨ns, hns, hsub⟩ := h.spread
  have hlen := hns.length_eq
  rw [List.length_map] at hlen
  have declared {j : Nat} {l' : Layer} (hj : Γ[j]? = some l') (hl' : l'.final.contains x = true) :
      ∃ hj' : j < ns.length, x ∈ ns[j] := by
    obtain ⟨hj', rfl⟩ := List.getElem?_eq_some_iff.1 hj
    have hmap : j < (Γ.map Layer.final).length := by rw [List.length_map]; exact hj'
    have hd := hns.get hmap (hlen ▸ hj')
    refine ⟨hlen ▸ hj', (hd x ?_).resolve_right hx⟩
    rw [List.get_eq_getElem, List.getElem_map]
    exact hl'
  obtain ⟨hnodup, hapart⟩ : ns.flatten.Nodup ∧
      ∀ a ∈ ns.flatten, ∀ b ∈ Stmt.declaresAll p.program, a ≠ b := by
    obtain ⟨names, hperm, hsublist⟩ := hsub
    obtain ⟨-, hrest, -⟩ := List.nodup_append.1 (hperm.nodup_iff.1 (hn.sublist hsublist))
    obtain ⟨h₁, -, h₃⟩ := List.nodup_append.1 hrest
    exact ⟨h₁, h₃⟩
  obtain ⟨hi', hxi⟩ := declared hi hl
  have hflat : x ∈ ns.flatten := List.mem_flatten.2 ⟨_, List.getElem_mem hi', hxi⟩
  refine ⟨hsub.subset ?_, fun hx' => hapart x hflat x hx' rfl, fun {j l'} hj hl' => ?_⟩
  · exact List.mem_append_right _ (List.mem_append_left _ hflat)
  · obtain ⟨hj', hxj⟩ := declared hj hl'
    have hdisj := List.pairwise_iff_getElem.1 (List.nodup_flatten.1 hnodup).2
    rcases Nat.lt_trichotomy i j with hlt | heq | hlt
    · exact absurd hxj (hdisj i j hi' hj' hlt hxi)
    · exact heq
    · exact absurd hxi (hdisj j i hj' hi' hlt hxj)

/-! ## Receivers -/

/-- The scopes that end up with `this` are those of receivers: they have it from their start,
    and it is bound for certain. -/
def Receivers (ss : List Scope) (Γ : List Layer) : Prop :=
  List.Forall₂ (fun s l => l.final.contains "this" = true →
    s.contains "this" = true ∧ "this" ∈ l.assured) ss Γ

theorem Receivers.grow {ss ts : List Scope} (h : Receivers ss Γ) (hg : ScopesGrow ss ts) :
    Receivers ts Γ := by
  cases hg with
  | none => exact h
  | inner hst =>
    cases h with
    | cons hs hrest => exact .cons (fun hl => ⟨hst _ (hs hl).1, (hs hl).2⟩) hrest

theorem Receivers.assure {ss : List Scope} (h : Receivers ss Γ) (names : List String) :
    Receivers ss (Layer.assure names Γ) := by
  cases h with
  | nil => exact .nil
  | cons hs hrest =>
    exact .cons (fun hl => ⟨(hs hl).1, List.mem_append_right _ (hs hl).2⟩) hrest

theorem Receivers.await {ss : List Scope} (h : Receivers ss Γ) (x : String) :
    Receivers ss (Layer.await x Γ) := by
  cases h with
  | nil => exact .nil
  | cons hs hrest => exact .cons hs hrest

/-- A scope that has nothing but names of the program is none of a receiver. -/
theorem Receivers.enter {ss : List Scope} {s : Scope} {l : Layer} (h : Receivers ss Γ)
    (hl : l.final.contains "this" ≠ true) : Receivers (s :: ss) (l :: Γ) :=
  .cons (fun hthis => absurd hthis hl) h

/-- **`this` is in the scopes of receivers**, and nothing but a function stands in such a
    scope. -/
theorem Visits.receivers (h : p.Visits Γ w part) (hn : "this" ∉ declaredNames p.program) :
    Receivers w.scopes Γ ∧ ((∃ f, part = .function f) ∨
      ∀ s ∈ (Γ.map Layer.final).head?, s.contains "this" ≠ true) := by
  have fresh {l : Layer} {Γ : List Layer} (hl : l.final.contains "this" ≠ true) :
      ∀ s ∈ ((l :: Γ).map Layer.final).head?, s.contains "this" ≠ true := fun s hs => by
    cases hs
    exact hl
  induction h with
  | start => exact ⟨.nil, Or.inr fun _ hs => nomatch hs⟩
  | @piece Γ w w₁ part before q names after _ hq hbefore ih =>
    obtain ⟨hr, hhead⟩ := ih
    refine ⟨(hr.grow (Part.resolveEach_grows hbefore).scopes).assure names, Or.inr ?_⟩
    rw [Layer.map_final_assure]
    refine hhead.resolve_left ?_
    rintro ⟨f, rfl⟩
    have hnil : (Part.function f).pieces = [] := rfl
    rw [hnil] at hq
    cases before <;> cases hq
  | @literal Γ w f _ ih =>
    exact ⟨(ih.1.grow (w.scopes_title f)).assure _, Or.inl ⟨f, rfl⟩⟩
  | @body Γ w after title params body line hv hafter ih =>
    have hthis : after.innermost.contains "this" ≠ true := fun hx => by
      have hmem := mem_of_body hafter hx
      refine hn (hv.encloses_subset ?_)
      have he : (Part.function (.mk title params body line)).encloses =
          params.map Name.text ++ (Stmt.declaresAll body ++ Stmt.enclosesAll body) := rfl
      rw [he, ← List.append_assoc]
      exact List.mem_append_left _ hmem
    exact ⟨ih.1.enter hthis, Or.inr (fresh hthis)⟩
  | @receiver Γ w after f _ hafter ih =>
    refine ⟨.cons (fun _ => ⟨?_, List.mem_cons_self⟩) ih.1, Or.inl ⟨f, rfl⟩⟩
    exact (Bindings.contains_set ..).2 (Or.inl rfl)
  | @value Γ w name value _ ih =>
    refine ⟨(ih.1.grow (w.scopes_await name.text)).await name.text, Or.inr ?_⟩
    rw [Layer.map_final_await]
    exact ih.2.resolve_left fun ⟨_, hf⟩ => nomatch hf
  | @block Γ w after body hv hafter ih =>
    have hthis : after.innermost.contains "this" ≠ true := fun hx =>
      hn (hv.encloses_subset (List.mem_append_left _ (mem_of_block hafter hx)))
    exact ⟨ih.1.enter hthis, Or.inr (fresh hthis)⟩
  | @loop Γ w after name value condition step body hv hafter ih =>
    have hthis : after.innermost.contains "this" ≠ true := fun hx =>
      hn (hv.encloses_subset (List.mem_append_left _ (mem_of_clauses hafter hx)))
    exact ⟨ih.1.enter hthis, Or.inr (fresh hthis)⟩
  | round _ ih => exact ⟨ih.1, Or.inr (ih.2.resolve_left fun ⟨_, hf⟩ => nomatch hf)⟩
  | @methods Γ w name methods _ ih =>
    refine ⟨(ih.1.grow (Walk.closed_grows.bind w name.text).scopes).assure _, Or.inr ?_⟩
    rw [Layer.map_final_assure]
    exact ih.2.resolve_left fun ⟨_, hf⟩ => nomatch hf

end Pass

end Scriptling
