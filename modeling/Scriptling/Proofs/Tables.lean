/-
  Tables — how many distances a program has.

  The walk over a part comes to each of its sites once, and records at most one distance there.

  * `Notes`: between two tables, distances have been added for some of the given sites, at most
    one for each;
  * `Part.resolve_notes`: the walk over a part does that to its table, for the sites of the part;
  * `resolve_keys`, `resolve_length`: so there is one entry in the table of a program for each site
    that has a distance.
-/
import Mathlib.Data.List.Perm.Subperm
import Mathlib.Data.List.Nodup
import Scriptling.Proofs.Bracketing
import Scriptling.Proofs.Nesting
import Scriptling.Proofs.Visits

namespace Scriptling

/-- Entries are added to a table for some of the sites, at most one for each. -/
def Notes (sites : List Nat) (ds ds' : List (Nat × Nat)) : Prop :=
  ∃ new, ds' = new ++ ds ∧ (new.map Prod.fst).Subperm sites

namespace Notes

variable {ss ts : List Nat} {ds ds' ds'' : List (Nat × Nat)}

theorem nil (ds : List (Nat × Nat)) : Notes [] ds ds := ⟨[], rfl, List.Subperm.refl _⟩

theorem append (h : Notes ss ds ds') (h' : Notes ts ds' ds'') : Notes (ss ++ ts) ds ds'' := by
  obtain ⟨new, rfl, hs⟩ := h
  obtain ⟨new', rfl, hs'⟩ := h'
  refine ⟨new' ++ new, (List.append_assoc ..).symm, ?_⟩
  rw [List.map_append]
  exact (hs'.append hs).trans List.perm_append_comm.subperm

theorem perm (h : Notes ss ds ds') (hp : ss.Perm ts) : Notes ts ds ds' := by
  obtain ⟨new, e, hs⟩ := h
  exact ⟨new, e, hs.trans hp.subperm⟩

end Notes

namespace Part

/-- What walks over parts add, walks over one part after the other add together. -/
theorem resolveEach_notes {ps : List Part} (hps : ∀ p ∈ ps, ∀ {w w' : Walk},
      p.resolve w = .ok w' → Notes p.sites w.distances w'.distances) {w w' : Walk}
    (h : resolveEach ps w = .ok w') :
    Notes (ps.flatMap Part.sites) w.distances w'.distances := by
  induction ps generalizing w with
  | nil => cases h; exact .nil _
  | cons p ps ih =>
    obtain ⟨w₁, h₁, h₂⟩ := Except.bind_eq_ok.1 h
    exact (hps p (.head _) h₁).append (ih (fun q hq => hps q (.tail _ hq)) h₂)

/-- A part that is not walked over piece by piece is walked over as what stands inside it. -/
theorem resolve_notes_inside {p : Part} (hp : p.pieces = [])
    (ih : ∀ q : Part, q.Inside p → ∀ {w w' : Walk}, q.resolve w = .ok w' →
      Notes q.sites w.distances w'.distances) {w w' : Walk} (h : p.resolve w = .ok w') :
    Notes p.sites w.distances w'.distances := by
  cases p with
  | reference site name =>
    have hw : w.refer site name = .ok w' := h
    rw [Walk.refer_eq_ok hw]
    refine ⟨_, rfl, ?_⟩
    cases w.distance? name.text with
    | none => exact List.nil_subperm
    | some d => exact List.Subperm.refl _
  | expr e =>
    cases e with
    | literal => cases h; exact .nil _
    | function f =>
      obtain ⟨v, hv, h⟩ := Except.bind_eq_ok.1 h
      cases h
      have hf := ih _ .literal (w := w.enterLiteral f) hv
      have htitle : (w.enterLiteral f).distances = w.distances := w.distances_title f
      rwa [htitle] at hf
    | _ => cases hp
  | function f =>
    cases f with
    | mk title params body line =>
      obtain ⟨v, hv, h⟩ := Except.bind_eq_ok.1 h
      obtain ⟨u, hu, hv⟩ := Except.bind_eq_ok.1 hv
      cases h
      cases hv
      have noted := ih _ .body hu
      exact noted
  | method f =>
    obtain ⟨v, hv, hd⟩ := Pass.exists_receiver h
    rw [hd]
    exact ih _ .receiver (w := w.enterMethod) hv
  | rounds body =>
    obtain ⟨v, hv, h⟩ := Except.bind_eq_ok.1 h
    cases h
    have noted := ih _ .round hv
    exact noted
  | stmt s =>
    cases s with
    | «break» | «continue» =>
      obtain ⟨-, rfl⟩ := Walk.require_eq_ok.1 h
      exact .nil _
    | «let» name value =>
      obtain ⟨v, hv⟩ := Pass.exists_await h
      have hvalue := ih _ .value hv
      have hawait : (w.await name.text).distances = w.distances := by
        unfold Walk.await
        split
        · rfl
        · exact w.distances_mark _ _
      rwa [hawait, ← Pass.distances_await h hv] at hvalue
    | block body =>
      obtain ⟨v, hv, h⟩ := Except.bind_eq_ok.1 h
      cases h
      have noted := ih _ .block hv
      exact noted
    | «for» name value condition step body =>
      obtain ⟨v, hv, h⟩ := Except.bind_eq_ok.1 h
      cases h
      have noted := ih _ .loop hv
      exact noted
    | struct name methods =>
      obtain ⟨v, hv, h⟩ := Except.bind_eq_ok.1 h
      cases h
      have hmethods := ih _ .methods hv
      have hbind : (w.bind name.text).distances = w.distances := w.distances_bind _
      rwa [hbind] at hmethods
    | _ => cases hp
  | exprs es | methods es | stmts es =>
    cases es with
    | nil => cases h; exact .nil _
    | cons => cases hp
  | optional e | alternative e =>
    cases e with
    | none => cases h; exact .nil _
    | some => cases hp
  | clauses => cases hp

/-- **The walk over a part records at most one distance for each of its sites.** -/
theorem resolve_notes (p : Part) : ∀ {w w' : Walk}, p.resolve w = .ok w' →
    Notes p.sites w.distances w'.distances := by
  induction p using wellFounded_inside.induction with
  | _ p ih =>
  intro w w' h
  by_cases hp : p.pieces = []
  · exact resolve_notes_inside hp (fun q hq => ih q hq) h
  · have hpieces : ∀ q ∈ p.pieces.map Prod.fst, ∀ {w w' : Walk}, q.resolve w = .ok w' →
        Notes q.sites w.distances w'.distances := by
      intro q hq
      obtain ⟨⟨q, names⟩, hmem, rfl⟩ := List.mem_map.1 hq
      exact ih q (.piece hmem)
    refine (resolveEach_notes hpieces (resolveEach_pieces hp h)).perm ?_
    rw [List.flatMap_map]
    exact sites_pieces hp

end Part

/-! ## Programs -/

section
variable {globals : List String} {program : List Stmt} {ds : List (Nat × Nat)}

/-- The table of a program has entries for sites of the program, at most one for each. -/
theorem resolve_keys (h : resolve globals program = .ok ds) :
    (ds.map Prod.fst).Subperm (Part.stmts program).sites := by
  obtain ⟨w, hw, h⟩ := Except.bind_eq_ok.1 h
  cases h
  obtain ⟨new, e, hs⟩ := (Part.stmts program).resolve_notes hw
  rw [e, List.append_nil]
  exact hs

theorem resolve_nodup (h : resolve globals program = .ok ds)
    (hn : (Part.stmts program).sites.Nodup) : (ds.map Prod.fst).Nodup := by
  obtain ⟨keys, hp, hsub⟩ := resolve_keys h
  exact hp.nodup_iff.1 (hn.sublist hsub)

/-- No distance is found for a site that is not of the program. -/
theorem lookup_of_resolve (h : resolve globals program = .ok ds) {s : Nat}
    (hs : s ∉ (Part.stmts program).sites) : ds.lookup s = none := by
  rw [List.lookup_eq_none_iff]
  intro e he
  have : s ≠ e.1 := fun heq =>
    hs ((resolve_keys h).subset (heq ▸ List.mem_map_of_mem he))
  simpa using this

/-- **The table of a program has as many entries as sites of the program have distances**, if the
    sites are all different. -/
theorem resolve_length (h : resolve globals program = .ok ds)
    (hn : (Part.stmts program).sites.Nodup) :
    ds.length = (Part.stmts program).sites.countP fun s => (ds.lookup s).isSome := by
  have hkeys := resolve_keys h
  have hmem (s : Nat) : s ∈ ds.map Prod.fst ↔ (ds.lookup s).isSome = true := by
    rw [List.lookup_isSome_iff]
    simp
  have hperm : (ds.map Prod.fst).Perm
      ((Part.stmts program).sites.filter fun s => (ds.lookup s).isSome) := by
    refine (List.perm_ext_iff_of_nodup (resolve_nodup h hn) (hn.filter _)).2 fun s => ?_
    rw [List.mem_filter, ← hmem]
    exact ⟨fun hs => ⟨hkeys.subset hs, hs⟩, And.right⟩
  rw [List.countP_eq_length_filter, ← hperm.length_eq, List.length_map]

end

end Scriptling
