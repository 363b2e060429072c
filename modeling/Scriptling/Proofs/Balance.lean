/-
  Balance — the walk leaves its state as it was.

  * `Part.lets`: the parts that can end with the declaration of a variable;
  * `Part.resolve_pending`: only these change which global has its first value computed, and only
    outside of all scopes;
  * `Walk.Balanced`: everything that may differ between the walk before a part and the walk after it;
  * `walk_balances`: every part of a statement that is read leaves the walk balanced.
-/
import Scriptling.Proofs.Nodes
import Scriptling.Proofs.Visits
import Scriptling.Proofs.Widening

namespace Scriptling

/-! ## Pending globals -/

/-- The statement declares a variable. -/
def Stmt.isLet : Stmt → Bool
  | .let _ _ => true
  | _ => false

theorem Stmt.isLet_of_not_isDeclaration {s : Stmt} (h : s.isDeclaration = false) :
    s.isLet = false := by
  cases s <;> first | rfl | cases h

/-- The part can declare a variable right in the scope that it stands in. -/
def Part.lets : Part → Bool
  | .stmt s | .alternative (some s) | .rounds s => s.isLet
  | .stmts _ | .clauses _ _ _ _ _ => true
  | _ => false

theorem Walk.pending_mark (w : Walk) (x : String) (ready : Bool) :
    (w.mark x ready).pending = w.pending := by
  unfold mark
  split <;> rfl

theorem Walk.pending_bind (w : Walk) (x : String) : (w.bind x).pending = w.pending := by
  unfold bind
  split
  · rfl
  · exact w.pending_mark x true

theorem Walk.pending_title (w : Walk) (f : Function) : (w.title f).pending = w.pending := by
  unfold title
  split
  · exact w.pending_bind _
  · rfl

/-- Inside of scopes, walking leaves the pending global as it is. -/
theorem Walk.closed_pending_inside : Walk.Closed (fun _ => True) fun w w' =>
    w.Grows w' ∧ (w.scopes ≠ [] → w'.pending = w.pending) where
  refl w := ⟨.refl w, fun _ => rfl⟩
  trans {a b c} h h' := by
    refine ⟨h.1.trans h'.1, fun ha => ?_⟩
    rw [h'.2 (h.1.scopes.ne_nil ha), h.2 ha]
  refer hs h := ⟨closed_grows.refer hs h, fun _ => by rw [refer_eq_ok h]⟩
  bind w x := ⟨closed_grows.bind w x, fun _ => w.pending_bind x⟩
  within h := ⟨closed_grows.within h.1, fun _ => h.2 (List.cons_ne_nil _ _)⟩
  first hw h := ⟨closed_grows.first hw h.1, fun hne => absurd hw hne⟩
  declare {w after x} hw h := by
    refine ⟨closed_grows.declare hw h.1, fun _ => ?_⟩
    have begun : (w.mark x false).scopes ≠ [] := (w.grows_mark x false).scopes.ne_nil hw
    rw [pending_mark, h.2 begun, pending_mark]
  inLoop h := ⟨closed_grows.inLoop h.1, h.2⟩
  inFunction h := ⟨closed_grows.inFunction h.1, h.2⟩
  inBody h := ⟨closed_grows.inBody h.1, h.2⟩
  inMethods h := ⟨closed_grows.inMethods h.1, h.2⟩

namespace Part

variable {p q : Part} {ts : List Token} {w w' : Walk}

theorem resolve_pending_inside (hw : w.scopes ≠ []) (h : p.resolve w = .ok w') :
    w'.pending = w.pending :=
  (resolve_closed Walk.closed_pending_inside (fun _ _ => trivial) h).2 hw

theorem pending_within {s : Scope} (h : w.within s p.resolve = .ok w') :
    w'.pending = w.pending := by
  obtain ⟨after, ha, h⟩ := Except.bind_eq_ok.1 h
  cases h
  have inner : after.pending = w.pending :=
    resolve_pending_inside (w := { w with scopes := s :: w.scopes }) (List.cons_ne_nil _ _) ha
  exact inner

/-- No piece of a part declares a variable in its scope, if the part declares none and its branches
    are no declarations. -/
theorem lets_pieces (hp : p.lets = false) (hb : ∀ s ∈ p.branches, s.isDeclaration = false) :
    ∀ q ∈ p.pieces, q.1.lets = false := by
  have branch : ∀ s ∈ p.branches, s.isLet = false :=
    fun s hs => Stmt.isLet_of_not_isDeclaration (hb s hs)
  cases p with
  | expr e => cases e <;> simp [pieces, lets]
  | exprs es | methods es | optional es => cases es <;> simp [pieces, lets]
  | stmt s =>
    cases s with
    | «if» c y n => cases n <;> simpa [pieces, lets, branches] using branch
    | «while» c body => simpa [pieces, lets, branches] using branch
    | _ => simp [pieces, lets]
  | alternative s =>
    cases s with
    | none => simp [pieces]
    | some s => simpa [pieces, lets] using hp
  | stmts | clauses => cases hp
  | reference | function | method | rounds => simp [pieces]

theorem resolveEach_pending {ps : List Part} (hps : ∀ q ∈ ps, ∀ {v v' : Walk},
    q.resolve v = .ok v' → v'.pending = v.pending) {w w' : Walk} (h : resolveEach ps w = .ok w') :
    w'.pending = w.pending := by
  induction ps generalizing w with
  | nil =>
    cases h
    rfl
  | cons q ps ih =>
    obtain ⟨hq, hps⟩ := List.forall_mem_cons.1 hps
    obtain ⟨v, hv, h⟩ := Except.bind_eq_ok.1 h
    exact (ih hps h).trans (hq hv)

/-- A part without pieces: what is in it is in a scope of its own, or keeps the pending global. -/
theorem resolve_pending_leaf (hpieces : p.pieces = []) (hp : p.lets = false)
    (hin : ∀ q : Part, q.Inside p → q.lets = false → ∀ {v v' : Walk}, q.resolve v = .ok v' →
      v'.pending = v.pending) (h : p.resolve w = .ok w') : w'.pending = w.pending := by
  cases p with
  | stmts | clauses => cases hp
  | reference => rw [Walk.refer_eq_ok h]
  | method f =>
    obtain ⟨called, hcalled, h⟩ := Except.bind_eq_ok.1 h
    obtain ⟨after, ha, hcalled⟩ := Except.bind_eq_ok.1 hcalled
    cases hcalled
    cases h
    have inner := resolve_pending_inside (p := .function f) (List.cons_ne_nil _ _) ha
    exact inner
  | function f =>
    obtain ⟨title, params, body, line⟩ := f
    obtain ⟨after, ha, h⟩ := Except.bind_eq_ok.1 h
    cases h
    have inner := pending_within (p := .stmts body) ha
    exact inner
  | rounds body =>
    obtain ⟨after, ha, h⟩ := Except.bind_eq_ok.1 h
    cases h
    have inner := hin (.stmt body) .round hp ha
    exact inner
  | expr e =>
    cases e with
    | literal =>
      cases h
      rfl
    | function f =>
      obtain ⟨after, ha, h⟩ := Except.bind_eq_ok.1 h
      cases h
      exact (hin (.function f) .literal rfl ha).trans (w.pending_title f)
    | _ => exact absurd hpieces (List.cons_ne_nil _ _)
  | stmt s =>
    cases s with
    | «let» => cases hp
    | block body => exact pending_within (p := .stmts body) h
    | «for» name value condition step body =>
      exact pending_within (p := .clauses name value condition step body) h
    | «break» | «continue» =>
      obtain ⟨-, rfl⟩ := Walk.require_eq_ok.1 h
      rfl
    | struct name fs =>
      obtain ⟨after, ha, h⟩ := Except.bind_eq_ok.1 h
      cases h
      exact (hin (.methods fs) .methods rfl ha).trans (w.pending_bind name.text)
    | _ => exact absurd hpieces (List.cons_ne_nil _ _)
  | exprs es | methods es =>
    cases es with
    | nil =>
      cases h
      rfl
    | cons => exact absurd hpieces (List.cons_ne_nil _ _)
  | optional e | alternative e =>
    cases e with
    | none =>
      cases h
      rfl
    | some => exact absurd hpieces (List.cons_ne_nil _ _)

/-- **Only a declaration of a variable changes which global is pending.** -/
theorem resolve_pending (p : Part) : ∀ {w w' : Walk}, p.Everywhere (Made ts) → p.lets = false →
    p.resolve w = .ok w' → w'.pending = w.pending := by
  induction p using wellFounded_inside.induction with
  | _ p ih =>
  intro w w' made hp h
  have hin : ∀ q : Part, q.Inside p → q.lets = false → ∀ {v v' : Walk}, q.resolve v = .ok v' →
      v'.pending = v.pending := fun q hq hl _ _ => ih q hq (made.inside hq) hl
  by_cases hpieces : p.pieces = []
  · exact resolve_pending_leaf hpieces hp hin h
  · refine resolveEach_pending (fun q hq => ?_) (resolveEach_pieces hpieces h)
    obtain ⟨r, hr, rfl⟩ := List.mem_map.1 hq
    exact hin r.1 (.piece hr) (lets_pieces hp made.self.branches r hr)

end Part

/-! ## The walk before and after -/

/-- **The walk after a part stands as the walk before it**, up to what a part may leave behind: new
    names in the innermost scope, all of them with their values, new globals, and the distances of
    its own references. -/
structure Walk.Balanced (p : Part) (w w' : Walk) : Prop where
  depth : w'.scopes.length = w.scopes.length
  outer : w'.scopes.tail = w.scopes.tail
  /-- A name of the innermost scope is as before, or it has its value now: none is lost, and none is
      new and without its value. -/
  innermost : ∀ s ∈ w.scopes.head?, ∀ t ∈ w'.scopes.head?, ∀ x,
    t.get? x = s.get? x ∨ t.get? x = some true
  function : w'.function = w.function
  inStruct : w'.inStruct = w.inStruct
  loops : w'.loops = w.loops
  pending : w.scopes ≠ [] ∨ p.lets = false → w'.pending = w.pending
  /-- The first value of a global has been computed after its declaration. -/
  settled : ∀ name value, p = .stmt (.let name value) → w.scopes = [] → w'.pending = none
  globals : w.globals ⊆ w'.globals
  /-- No distance is lost. -/
  recorded : ∀ site, w.distances.lookup site ≠ none → w'.distances.lookup site ≠ none
  elsewhere : ∀ site ∉ p.sites, w'.distances.lookup site = w.distances.lookup site

namespace Walk

variable {p : Part} {w w' : Walk}

theorem Records.lookup_ne_none {S : Nat → Prop} (h : w.Records S w') {site : Nat}
    (hs : w.distances.lookup site ≠ none) : w'.distances.lookup site ≠ none := by
  obtain ⟨new, e, -⟩ := h
  rw [e, List.lookup_append]
  exact fun hn => hs (Option.or_eq_none_iff.1 hn).2

theorem settled_declare {x : String} {value : Walk → Except Error Walk} (hw : w.scopes = [])
    (h : w.declare x value = .ok w') : w'.pending = none := by
  unfold declare at h
  rw [if_pos (List.isEmpty_iff.2 hw)] at h
  obtain ⟨after, -, h⟩ := Except.bind_eq_ok.1 h
  cases h
  rfl

end Walk

theorem ScopesGrow.outer {ss ts : List Scope} (h : ScopesGrow ss ts) :
    ts.length = ss.length ∧ ts.tail = ss.tail := by
  cases h <;> exact ⟨rfl, rfl⟩

/-- **The walk is well bracketed.**  Whichever part of a statement that has been read it comes to,
    and in whatever state: if it passes, it leaves the part as it has come to it. -/
theorem walk_balances {ts : List Token} (hts : Ended ts) {root : Stmt} (hroot : root.ReadFrom ts)
    {p : Part} (hp : Relation.ReflTransGen Part.Inside p (.stmt root)) {w w' : Walk}
    (h : p.resolve w = .ok w') : w.Balanced p w' := by
  have grown := Part.resolve_grows h
  have records := Part.resolve_records h
  have made : p.Everywhere (Part.Made ts) := fun q hq => hroot.made hts q (hq.trans hp)
  exact
    { depth := grown.scopes.outer.1
      outer := grown.scopes.outer.2
      innermost := fun s hs t ht x => by
        obtain ⟨t', ht', hx⟩ := Part.resolve_settles h s w.scopes.tail (List.eq_cons_of_mem_head? hs)
        rw [ht'] at ht
        cases ht
        rw [hx]
        split
        · exact .inr rfl
        · exact .inl rfl
      function := grown.function
      inStruct := grown.inStruct
      loops := grown.loops
      pending := fun hlets => hlets.elim (Part.resolve_pending_inside · h)
        (Part.resolve_pending p made · h)
      settled := by
        rintro name value rfl hw
        exact Walk.settled_declare hw h
      globals := grown.globals
      recorded := fun site => records.lookup_ne_none
      elsewhere := fun site => records.lookup_eq }

/-- The tokens of a block with `let b = a;` in it. -/
def bracedTokens : List Token :=
  [⟨.leftBrace, "\x7b", 1⟩, ⟨.let, "let", 1⟩, ⟨.identifier, "b", 1⟩, ⟨.equal, "=", 1⟩,
    ⟨.identifier, "a", 1⟩, ⟨.semicolon, ";", 1⟩, ⟨.rightBrace, "\x7d", 1⟩, ⟨.endOfFile, "", 1⟩]

/-- The declaration in the block. -/
def bracedLet : Stmt := .let ⟨"b", 1⟩ (some (.variable 0 ⟨"a", 1⟩))

/-- A walk in the body of a function, where the variable is bound further out. -/
def bracedWalk : Walk :=
  { scopes := [.empty, Bindings.empty.set "a" true], globals := [], pending := some "f",
    function := .function, loops := 1 }

theorem walk_balances_braced :
    Ended bracedTokens ∧ (Stmt.block [bracedLet]).ReadFrom bracedTokens ∧
      Relation.ReflTransGen Part.Inside (.stmt bracedLet) (.stmt (.block [bracedLet])) ∧
      ∃ w', bracedLet.resolve bracedWalk = .ok w' ∧ bracedWalk.Balanced (.stmt bracedLet) w' := by
  have ended : Ended bracedTokens := ⟨⟨.endOfFile, "", 1⟩, by decide, rfl⟩
  have read : (Stmt.block [bracedLet]).ReadFrom bracedTokens := .inl ⟨0, .head _⟩
  have inside : Relation.ReflTransGen Part.Inside (.stmt bracedLet) (.stmt (.block [bracedLet])) :=
    .tail (.single (.piece (.head _))) .block
  exact ⟨ended, read, inside, _, rfl, walk_balances ended read inside rfl⟩

end Scriptling
