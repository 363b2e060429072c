/-
  Numbering — sites that are given out once are never given out again.

  All that is parsed on one machine draws its sites from one number, and a table of distances
  knows a program only by its sites.

  * `recoverUpTo_drawn`: also what is read by going on after errors has new sites, all different;
  * `Machine.Parses`: texts are parsed and loaded one after the other, and nothing else is done to
    the sites and the distances of a machine;
  * `Machine.Later.parses`: all that a machine does is such a sequence;
  * `Machine.Numbers`: between two machines, only sites that were given out in between have had
    distances recorded;
  * `sites_distinct`: so the programs of a machine keep apart, and each keeps its distances.
-/
import Scriptling.Proofs.Steps
import Scriptling.Proofs.Tables

namespace Scriptling

/-! ## What is read in spite of errors -/

/-- **What is read by going on after errors has new sites**, all different, as what is read before
    the first has. -/
theorem recoverUpTo_drawn (depth : Nat) : ∀ (count : Nat) (c : Cursor),
    Drawn c.nextSite (recoverUpTo depth count c).2.nextSite
      (Part.stmts (recoverUpTo depth count c).1.1).sites := by
  intro count
  induction count with
  | zero => exact fun c => .nil _
  | succ count ih =>
    intro c
    unfold recoverUpTo
    split
    · exact .nil _
    have hfirst := declaration_draws (N := fun _ => True) depth (c := c) fun _ _ _ => trivial
    cases hd : Parser.declaration depth c with
    | ok s c' =>
      rw [hd] at hfirst
      dsimp only
      rw [Part.sites_stmts_cons]
      exact hfirst.2.1.append (ih c')
    | error e c' =>
      rw [hd] at hfirst
      exact (ih { c' with rest := synchronize c'.rest }).widen hfirst.1

/-! ## Texts parsed one after the other -/

/-- **A text is parsed on a machine**, with the sites that come next: the statements that come of
    it, and the machine afterwards.  Without an error these are the statements of the program;
    with one there are none, or those before the error, or also those after it. -/
inductive Machine.Reads (m : Machine) : List Stmt → Machine → Prop
  | whole {source program m'} : Eval.parseText source m = some (.ok program, m') →
      Reads m program m'
  | failed {source e m'} : Eval.parseText source m = some (.error e, m') → Reads m [] m'
  | before (ts : List Token) : Reads m (parsePartial m.nextSite ts).1.1
      { m with nextSite := (parsePartial m.nextSite ts).2 }
  | around (ts : List Token) :
      Reads m (recoverUpTo (Parser.depthBound ts) ts.length ⟨ts, m.nextSite⟩).1.1
        { m with
          nextSite := (recoverUpTo (Parser.depthBound ts) ts.length ⟨ts, m.nextSite⟩).2.nextSite }

/-- **Programs are parsed one after the other from a machine on**, some of them also loaded: the
    programs, first to last, and the machine afterwards.  Before, in between and after, anything
    may happen to the rest of the machine. -/
inductive Machine.Parses (m : Machine) : List (List Stmt) → Machine → Prop
  | start : Parses m [] m
  | other {programs m₁ m₂} : Parses m programs m₁ → m₂.nextSite = m₁.nextSite →
      m₂.distances = m₁.distances → Parses m programs m₂
  | reads {programs m₁ program m₂} : Parses m programs m₁ → m₁.Reads program m₂ →
      Parses m (programs ++ [program]) m₂
  | loads {programs m₁ source program m' r m₂} : Parses m programs m₁ →
      Eval.parseText source m₁ = some (.ok program, m') → Eval.load source m₁ = some (r, m₂) →
      Parses m (programs ++ [program]) m₂

/-- The sites of programs. -/
def sitesOf (programs : List (List Stmt)) : List Nat :=
  programs.flatMap fun program => (Part.stmts program).sites

theorem sitesOf_append_singleton (programs : List (List Stmt)) (program : List Stmt) :
    sitesOf (programs ++ [program]) = sitesOf programs ++ (Part.stmts program).sites := by
  simp [sitesOf]

/-- Parsing a text gives out the sites of its statements, and does nothing else. -/
theorem Machine.Reads.drawn {m m' : Machine} {program : List Stmt} (h : m.Reads program m') :
    ∃ site, m' = { m with nextSite := site } ∧
      Drawn m.nextSite site (Part.stmts program).sites := by
  cases h with
  | whole h =>
    obtain ⟨site, -, rfl, -, hdrawn⟩ := Eval.parseText_eq h
    exact ⟨site, rfl, (hdrawn _ rfl).1⟩
  | failed h =>
    obtain ⟨site, hle, rfl, -, -⟩ := Eval.parseText_eq h
    exact ⟨site, rfl, (Drawn.nil site).widen hle⟩
  | before ts =>
    have hspelled : Spelled (fun _ => True) (⟨ts, m.nextSite⟩ : Cursor).rest :=
      fun _ _ _ => trivial
    exact ⟨_, rfl, (parseUpTo_draws _ _ hspelled).1⟩
  | around ts => exact ⟨_, rfl, recoverUpTo_drawn _ _ ⟨ts, m.nextSite⟩⟩

/-! ## Distances of new sites only -/

/-- **Between two machines, only sites that were given out in between have had distances
    recorded.** -/
structure Machine.Numbers (m m' : Machine) : Prop where
  le : m.nextSite ≤ m'.nextSite
  distances : ∀ s, s < m.nextSite ∨ m'.nextSite ≤ s → m'.distances.get? s = m.distances.get? s

namespace Machine

variable {m m' m₁ m₂ : Machine}

theorem Numbers.of_eq (hs : m'.nextSite = m.nextSite) (hd : m'.distances = m.distances) :
    m.Numbers m' :=
  ⟨Nat.le_of_eq hs.symm, fun s _ => by rw [hd]⟩

theorem Numbers.trans (h : m.Numbers m₁) (h' : m₁.Numbers m₂) : m.Numbers m₂ where
  le := Nat.le_trans h.le h'.le
  distances s hs := by
    have hle := h.le
    have hle' := h'.le
    rw [h'.distances s (by omega), h.distances s (by omega)]

theorem Reads.numbers {program : List Stmt} (h : m.Reads program m') : m.Numbers m' := by
  obtain ⟨site, rfl, hdrawn⟩ := h.drawn
  exact ⟨hdrawn.le, fun _ _ => rfl⟩

/-- The distances of an accepted program are recorded for its sites, which are new. -/
theorem numbers_load {source : String} {r : Except Error (List Stmt)}
    (h : Eval.load source m = some (r, m')) : m.Numbers m' := by
  obtain ⟨site, hle, ⟨e, -, -, rfl⟩ | ⟨program, ds, -, hr, hdrawn, -, rfl⟩⟩ := Eval.load_eq h
  · exact ⟨hle, fun _ _ => rfl⟩
  · refine ⟨hle, fun s hs => ?_⟩
    have hother : s ∉ (Part.stmts program).sites := fun hmem => by
      have := hdrawn.bounds s hmem
      dsimp only at hs
      omega
    dsimp only
    rw [Distances.get?_recordAll, lookup_of_resolve hr hother, Option.none_or]

theorem Parses.numbers {programs : List (List Stmt)} (h : m.Parses programs m') :
    m.Numbers m' := by
  induction h with
  | start => exact .of_eq rfl rfl
  | other _ hs hd ih => exact ih.trans (.of_eq hs hd)
  | reads _ h ih => exact ih.trans h.numbers
  | loads _ _ h ih => exact ih.trans (numbers_load h)

end Machine

/-- Loading a text gives out the same sites as parsing it. -/
theorem Eval.load_nextSite {source : String} {program : List Stmt} {m m' m₁ : Machine}
    {r : Except Error (List Stmt)} (hp : Eval.parseText source m = some (.ok program, m'))
    (h : Eval.load source m = some (r, m₁)) : m₁.nextSite = m'.nextSite := by
  rw [Eval.load_apply, hp] at h
  dsimp only at h
  split at h <;> · cases h; rfl

/-- **Programs that are parsed one after the other have new sites, all different.** -/
theorem Machine.Parses.drawn {m m' : Machine} {programs : List (List Stmt)}
    (h : m.Parses programs m') : Drawn m.nextSite m'.nextSite (sitesOf programs) := by
  induction h with
  | start => exact .nil _
  | other _ hs _ ih => rwa [hs]
  | reads _ h ih =>
    obtain ⟨site, rfl, hdrawn⟩ := h.drawn
    rw [sitesOf_append_singleton]
    exact ih.append hdrawn
  | loads _ hp h ih =>
    obtain ⟨site, rfl, hdrawn⟩ := (Reads.whole hp).drawn
    rw [sitesOf_append_singleton, Eval.load_nextSite hp h]
    exact ih.append hdrawn

/-! ## All that a machine does -/

namespace Machine

variable {m m' m₁ : Machine}

theorem Parses.append {ps qs : List (List Stmt)} (h : m.Parses ps m₁) (h' : m₁.Parses qs m') :
    m.Parses (ps ++ qs) m' := by
  induction h' with
  | start => rwa [List.append_nil]
  | other _ hs hd ih => exact ih.other hs hd
  | reads _ h ih => exact (List.append_assoc ..) ▸ ih.reads h
  | loads _ hp h ih => exact (List.append_assoc ..) ▸ ih.loads hp h

/-- What happens to the rest of a machine. -/
theorem exists_parses_other (hs : m'.nextSite = m.nextSite) (hd : m'.distances = m.distances) :
    ∃ programs, m.Parses programs m' :=
  ⟨[], Parses.start.other hs hd⟩

theorem exists_parses_parseText {source : String} {r : Except Error (List Stmt)}
    (h : Eval.parseText source m = some (r, m')) : ∃ programs, m.Parses programs m' := by
  cases r with
  | error => exact ⟨_, Parses.start.reads (.failed h)⟩
  | ok => exact ⟨_, Parses.start.reads (.whole h)⟩

theorem exists_parses_load {source : String} {r : Except Error (List Stmt)}
    (h : Eval.load source m = some (r, m')) : ∃ programs, m.Parses programs m' := by
  rcases hp : Eval.parseText source m with _ | ⟨_ | program, m₁⟩
  · rw [Eval.load_apply, hp] at h
    cases h
  · rw [Eval.load_apply, hp] at h
    cases h
    exact exists_parses_parseText hp
  · exact ⟨_, Parses.start.loads hp h⟩

theorem closed_parses : Closed fun m m' => ∃ programs, m.Parses programs m' where
  refl _ := exists_parses_other rfl rfl
  trans := by
    rintro _ _ _ ⟨ps, h⟩ ⟨qs, h'⟩
    exact ⟨ps ++ qs, h.append h'⟩
  identity _ _ := exists_parses_other rfl rfl
  frame _ _ _ := exists_parses_other rfl rfl
  inside := by
    rintro m m₁ scope frames - ⟨ps, h⟩
    have entered : m.Parses [] { m with scope := scope, frames := frames } :=
      Parses.start.other rfl rfl
    exact ⟨[] ++ ps, (entered.append h).other rfl rfl⟩
  define _ _ _ := exists_parses_other rfl rfl
  write _ _ := exists_parses_other rfl rfl
  print _ _ := exists_parses_other rfl rfl
  object _ := exists_parses_other rfl rfl
  field _ _ _ _ := exists_parses_other rfl rfl
  hear _ _ := exists_parses_other rfl rfl
  tick _ := exists_parses_other rfl rfl
  parse h := exists_parses_parseText h
  load h := exists_parses_load h

/-- **Whatever a machine does, it does to its sites and distances by parsing and loading one text
    after the other**: those that are run, and those that are run from within. -/
theorem Later.parses (h : m.Later m') : ∃ programs, m.Parses programs m' :=
  h.respects closed_parses fun _ _ _ => exists_parses_other rfl rfl

end Machine

/-! ## The programs of a session -/

/-- At the start no distances are recorded. -/
theorem Session.distances_start (library : List HostFunction) (host : Host) (sink : Sink)
    (time s : Nat) : (start library host sink time).distances.get? s = none := by
  have registered (fs : List HostFunction) : ∀ m : Machine,
      (fs.foldl Machine.register m).distances = m.distances := by
    induction fs with
    | nil => exact fun _ => rfl
    | cons f fs ih => exact fun m => ih (m.register f)
  have hnone : (start library host sink time).distances = {} := registered library _
  rw [hnone]
  rfl

section

variable {library : List HostFunction} {host : Host} {sink : Sink} {time : Nat}
  {programs others : List (List Stmt)} {m m' m₁ m₂ : Machine}

/-- A site that has not been given out has no distance. -/
theorem Machine.Parses.fresh (h : (Session.start library host sink time).Parses programs m)
    {s : Nat} (hs : m.nextSite ≤ s) : m.distances.get? s = none :=
  (h.numbers.distances s (Or.inr hs)).trans (Session.distances_start ..)

/-- Once its sites have been given out, the distances of a program do not change. -/
theorem Machine.Parses.stable {lo : Nat} {program : List Stmt} (h : m.Parses others m')
    (hdrawn : Drawn lo m.nextSite (Part.stmts program).sites) :
    ∀ s ∈ (Part.stmts program).sites, m'.distances.get? s = m.distances.get? s :=
  fun s hs => h.numbers.distances s (Or.inl (hdrawn.bounds s hs).2)

/-- What loading a program records for its sites. -/
theorem Eval.load_distances {source : String} {program : List Stmt}
    {r : Except Error (List Stmt)} (hp : Eval.parseText source m = some (.ok program, m'))
    (h : Eval.load source m = some (r, m₁))
    (hnone : ∀ s, m.nextSite ≤ s → m.distances.get? s = none) :
    (∀ e, resolve m.globalNames program = .error e → r = .error e ∧
      ∀ s ∈ (Part.stmts program).sites, m₁.distances.get? s = none) ∧
    ∀ ds, resolve m.globalNames program = .ok ds → r = .ok program ∧
      ∀ s ∈ (Part.stmts program).sites, m₁.distances.get? s = ds.lookup s := by
  obtain ⟨site, -, rfl, -, hdrawn⟩ := Eval.parseText_eq hp
  have none_of_mem (s : Nat) (hs : s ∈ (Part.stmts program).sites) :
      m.distances.get? s = none := hnone s ((hdrawn program rfl).1.bounds s hs).1
  have hglobals : ({ m with nextSite := site } : Machine).globalNames = m.globalNames := rfl
  rw [Eval.load_apply, hp] at h
  dsimp only at h
  rw [hglobals] at h
  constructor
  · intro e he
    rw [he] at h
    cases h
    exact ⟨rfl, none_of_mem⟩
  · intro ds hds
    rw [hds] at h
    cases h
    refine ⟨rfl, fun s hs => ?_⟩
    dsimp only
    rw [Distances.get?_recordAll, none_of_mem s hs, Option.or_none]

end

/-- **Sites never collide.**  All that a machine does is to parse and to load one text after the
    other, as far as sites and distances go; and whatever is parsed one after the other, in whatever
    way, all sites of all that comes of it are different.  So in a session a program that is parsed
    and not resolved never has a distance; a program that is loaded keeps for ever the distances
    that it then has, which are none if it is rejected; and if it is accepted, they are those of its
    table, which has as many entries as the program has sites with a distance. -/
theorem sites_distinct :
    (∀ {m m' : Machine}, m.Later m' → ∃ programs, m.Parses programs m') ∧
    (∀ {m m' : Machine} {programs : List (List Stmt)}, m.Parses programs m' →
      (sitesOf programs).Nodup) ∧
    ∀ {library : List HostFunction} {host : Host} {sink : Sink} {time : Nat}
      {programs : List (List Stmt)} {m : Machine},
      (Session.start library host sink time).Parses programs m →
      (∀ {program : List Stmt} {m' : Machine}, m.Reads program m' →
        ∀ {others : List (List Stmt)} {m₁ : Machine}, m'.Parses others m₁ →
          ∀ s ∈ (Part.stmts program).sites, m₁.distances.get? s = none) ∧
      ∀ {source : String} {program : List Stmt} {m' : Machine},
        Eval.parseText source m = some (.ok program, m') →
        ∀ {r : Except Error (List Stmt)} {m₁ : Machine}, Eval.load source m = some (r, m₁) →
          (∀ {others : List (List Stmt)} {m₂ : Machine}, m₁.Parses others m₂ →
            ∀ s ∈ (Part.stmts program).sites, m₂.distances.get? s = m₁.distances.get? s) ∧
          (∀ e, resolve m.globalNames program = .error e → r = .error e ∧
            ∀ s ∈ (Part.stmts program).sites, m₁.distances.get? s = none) ∧
          ∀ ds, resolve m.globalNames program = .ok ds → r = .ok program ∧
            (∀ s ∈ (Part.stmts program).sites, m₁.distances.get? s = ds.lookup s) ∧
            (ds.map Prod.fst).Nodup ∧
            ds.length =
              (Part.stmts program).sites.countP fun s => (m₁.distances.get? s).isSome := by
  refine ⟨fun h => h.parses, fun h => h.drawn.nodup, fun h => ⟨fun hr _ _ hlater s hs => ?_, ?_⟩⟩
  · obtain ⟨site, rfl, hdrawn⟩ := hr.drawn
    rw [hlater.stable hdrawn s hs]
    exact h.fresh (hdrawn.bounds s hs).1
  · intro source program m' hp r m₁ hload
    obtain ⟨site, hm', hdrawn⟩ := (Machine.Reads.whole hp).drawn
    have hsite : m₁.nextSite = site := by rw [Eval.load_nextSite hp hload, hm']
    obtain ⟨herror, hok⟩ := Eval.load_distances hp hload fun s hs => h.fresh hs
    refine ⟨fun hlater => hlater.stable (hsite ▸ hdrawn), herror, fun ds hds => ?_⟩
    obtain ⟨hr, hlookup⟩ := hok ds hds
    refine ⟨hr, hlookup, resolve_nodup hds hdrawn.nodup, ?_⟩
    rw [resolve_length hds hdrawn.nodup]
    exact List.countP_congr fun s hs => by rw [hlookup s hs]

/-- A block that refers to a variable of its own and to a global. -/
def blockText : String := "\x7b let b = 1; b; c; \x7d"

/-- A text that is rejected only after it has been parsed. -/
def misplacedText : String := "c; break;"

/-- From the machine on, `blockText` is loaded and parsed once more, and `misplacedText` is
    loaded: the three programs have two sites, two and one, and one entry in the table of the
    first. -/
def sitesCheck (m : Machine) : Bool :=
  match Eval.parseText blockText m, Eval.load blockText m with
  | some (.ok P, _), some (_, m₁) =>
    match resolve m.globalNames P, Eval.parseText blockText m₁ with
    | .ok ds, some (.ok Q, m₂) =>
      match Eval.parseText misplacedText m₂, Eval.load misplacedText m₂ with
      | some (.ok R, _), some (_, _) =>
        match resolve m₂.globalNames R with
        | .error _ => [P, Q, R].map (fun p => (Part.stmts p).sites.length) == [2, 2, 1] &&
            ds.length == 1
        | _ => false
      | _, _ => false
    | _, _ => false
  | _, _ => false

theorem sites_distinct_reparsed : ∃ (P Q R : List Stmt) (m₁ m₂ m₃ : Machine),
    Eval.load blockText (Session.start [] relay {} 0) = some (.ok P, m₁) ∧
    Eval.parseText blockText m₁ = some (.ok Q, m₂) ∧
    (∃ e, Eval.load misplacedText m₂ = some (.error e, m₃)) ∧
    [P, Q, R].map (fun p => (Part.stmts p).sites.length) = [2, 2, 1] ∧
    (sitesOf [P, Q, R]).Nodup ∧
    (Part.stmts P).sites.countP (fun s => (m₁.distances.get? s).isSome) = 1 ∧
    (∀ s ∈ (Part.stmts P).sites, m₃.distances.get? s = m₁.distances.get? s) ∧
    (∀ s ∈ (Part.stmts Q).sites, m₃.distances.get? s = none) ∧
    ∀ s ∈ (Part.stmts R).sites, m₃.distances.get? s = none := by
  have checked : sitesCheck (Session.start [] relay {} 0) = true := by decide +kernel
  unfold sitesCheck at checked
  split at checked
  · next P m' r m₁ hP hloadP =>
    split at checked
    · next ds Q m₂ hds hQ =>
      split at checked
      · next R m'' r' m₃ hR hloadR =>
        split at checked
        · next e he =>
          simp only [Bool.and_eq_true, beq_iff_eq] at checked
          obtain ⟨hlengths, hone⟩ := checked
          have begun := @Machine.Parses.start (Session.start [] relay {} 0)
          have first := begun.loads hP hloadP
          have second := first.reads (.whole hQ)
          have third := second.loads hR hloadR
          have afterP := (Machine.Parses.start.reads (.whole hQ)).loads hR hloadR
          have afterQ := Machine.Parses.start.loads hR hloadR
          obtain ⟨keptP, -, acceptedP⟩ := (sites_distinct.2.2 begun).2 hP hloadP
          obtain ⟨rfl, -, -, hcount⟩ := acceptedP ds hds
          obtain ⟨-, rejectedR, -⟩ := (sites_distinct.2.2 second).2 hR hloadR
          obtain ⟨rfl, noneR⟩ := rejectedR e he
          exact ⟨P, Q, R, m₁, m₂, m₃, hloadP, hQ, ⟨e, hloadR⟩, hlengths, sites_distinct.2.1 third,
            hcount.symm.trans hone, keptP afterP,
            (sites_distinct.2.2 first).1 (.whole hQ) afterQ, noneR⟩
        · cases checked
      · cases checked
    · cases checked
  · cases checked

end Scriptling
