/-
  Scopes — programs run in the scopes that the walk over them had.

  * `Matches`: the frames of a scope bind only names that the walk puts into its scopes;
  * `Session.scopes_match`: wherever a program comes to, the current scope matches the scopes
    of the walk; so the recorded distances never lead out of the scope, whatever the host does.
-/
import Scriptling.Proofs.Sessions

namespace Scriptling

open World Eval

/-- **The current scope of a machine matches the scopes of the walk**: there is one frame for
    each, besides the frame of the globals, and it binds only names that the scope ends up
    with. -/
structure Matches (m : Machine) (Γ : List Layer) (w : Walk) : Prop where
  layers : Γ.length = w.scopes.length
  depth : m.scope.length = w.scopes.length + 1
  root : m.scope.getLast? = some globalFrame
  names : ∀ (i F : Nat) l, m.scope[i]? = some F → Γ[i]? = some l →
    ∀ x, (m.frames.frame F).contains x = true → l.final.contains x = true

theorem World.Fits.matches {mode : Mode} {W : World} {pending : List (Nat × String)} {m : Machine}
    {p : Pass} {Γ : List Layer} {w : Walk} {part : Part} (hh : ¬ mode.hosted)
    (hm : Agrees mode W pending m) (hp : W.passes p) (hv : p.Visits Γ w part)
    (hf : W.Fits mode p m.scope Γ) : Matches m Γ w := by
  obtain ⟨-, ds, hds⟩ := hm.proper p hp
  obtain ⟨places, hs, hl⟩ := hf.exact hh
  have hlen := hv.length_eq hds
  refine ⟨hlen.symm, ?_, ?_, fun i F l hF hl' x hx => ?_⟩
  · rw [hs, List.length_append, hl.length_eq, hlen]
    rfl
  · rw [hs]
    exact List.getLast?_concat
  · obtain ⟨hi, rfl⟩ := List.getElem?_eq_some_iff.1 hl'
    have hi' : i < places.length := hl.length_eq ▸ hi
    rw [hs, List.getElem?_append_left hi', List.getElem?_eq_getElem hi'] at hF
    cases hF
    exact (hl.get hi' hi).admits x (hm.admitted hh _ x ((hm.bound _ x).2 hx))

namespace Session

/-- A variable of a block is read in the block. -/
theorem reaches_local (k site : Nat) (n x : Name) (l : Literal) (m : Machine) :
    ∃ m', Reaches ⟨k + 6, .program [.block [.let n (some (.literal l)),
        .print (.variable site x)]], m⟩ ⟨k, .read site x, m'⟩ ∧
      m'.distances = m.distances := by
  let inside : Machine := { m with
    frames := (m.frames.child m.scope .empty).2
    scope := (m.frames.child m.scope .empty).1 }
  have hinner : Calls ⟨k + 5, .stmt (.block [.let n (some (.literal l)),
      .print (.variable site x)]), m⟩ ⟨k + 4, .stmts [.let n (some (.literal l)),
      .print (.variable site x)], inside⟩ := .block rfl
  have htail : Calls ⟨k + 4, .stmts [.let n (some (.literal l)), .print (.variable site x)], inside⟩
      ⟨k + 3, .stmts [.print (.variable site x)], { inside with
        frames := inside.frames.define inside.scope n.text (.ofLiteral l) }⟩ := .tail rfl
  exact ⟨_, .head .statement (.head hinner (.head htail (.head .head (.head .print
    (.single .variable))))), rfl⟩

/-- The first variable of a block. -/
def localProgram : String := "\x7b let a = 1; print a; \x7d"

/-- The block, accepted with the distance of its reference. -/
def isLocal : Option (Except Error (List Stmt) × Machine) → Bool
  | some (.ok [.block [.let n (some (.literal _)), .print (.variable site x)]], m) =>
    m.distances.get? site == some 0 && n.text == "a" && x.text == "a"
  | _ => false

theorem load_localProgram : ∃ n x l site m,
    Eval.load localProgram (start [] relay {} 0) =
      some (.ok [.block [.let n (some (.literal l)), .print (.variable site x)]], m) ∧
    m.distances.get? site = some 0 ∧ n.text = "a" ∧ x.text = "a" := by
  have checked : isLocal (Eval.load localProgram (start [] relay {} 0)) = true := by
    decide +kernel
  unfold isLocal at checked
  split at checked
  · next n l site x m hl =>
    simp only [Bool.and_eq_true, beq_iff_eq] at checked
    exact ⟨n, x, l, site, m, hl, checked.1.1, checked.1.2, checked.2⟩
  · cases checked

/-- **Programs run in the scopes that the walk over them had.**

    Without host functions, wherever an accepted program comes to, the walk over it or over a
    program accepted before came to the same part, with matching scopes.  With any host, in any
    order of steps, no recorded distance leads out of the scope. -/
theorem scopes_match :
    (∀ {host : Host} {sink : Sink} {time k : Nat} {ps : List Pass} {m m₁ : Machine}
      {source : String} {program : List Stmt} {c : Point} {part : Part},
      Reached Step.Resolves (start [] host sink time) ps m →
      Eval.load source m = some (.ok program, m₁) → Reaches ⟨k, .text source, m⟩ c →
      c.job.part? = some part →
      ∃ p ∈ Pass.of m program :: ps, ∃ Γ w, p.Visits Γ w part ∧ Matches c.machine Γ w) ∧
    ∀ {library : List HostFunction} {host : Host} {sink : Sink} {time : Nat} {ps : List Pass}
      {m : Machine}, host.Honest → Reached (fun _ => True) (start library host sink time) ps m →
      (∀ {s : Step} {es : List Error} {m₁ : Machine}, s.outcome m = some (es, m₁) →
        ∀ e ∈ es, ¬ e.IsOutOfRange) ∧
      ∀ {s : Step} {k : Nat} {c c' : Point}, s.Enters k m c → Reaches c c' →
        (∀ e, c'.fault? = some e → ¬ e.IsOutOfRange) ∧
        ∀ {site : Nat} {name : Name} {d : Nat},
          c'.job.part? = some (.reference site name) →
          c'.machine.distances.get? site = some d → d < c'.machine.scope.length := by
  constructor
  · intro host sink time k ps m m₁ source program c part hm hl hc hp
    have hrests : Rests ⟨False, False⟩ ps m :=
      hm.rests (fun _ hs => Or.inl hs) (.start [] sink time (Or.inl rfl) False.elim)
    obtain ⟨W, pending, hW⟩ := hrests.load hl
    obtain ⟨others, ⟨V, hV, hma, hs⟩, -⟩ := hW.reaches hl hc hp
    cases hs.runs hp with
    | @resolved p Γ w hpass hv hf =>
      have hpW := hW.passes not_false p (hV.same not_false p hpass)
      exact ⟨p, hpW, Γ, w, hv, hf.matches not_false hma hpass hv⟩
    | raw hraw => exact hraw.elim
  · intro library host sink time ps m hh hm
    have hrests : Rests ⟨True, True⟩ ps m :=
      hm.rests (fun _ _ => Or.inr trivial) (.start library sink time (Or.inr trivial) fun _ => hh)
    refine ⟨fun ho e he => ((hrests.step (Or.inr trivial) ho).2 e he).inRange, ?_⟩
    intro s k c c' he hc
    obtain ⟨W, pending, hma, hs⟩ := hrests.enters trivial (Or.inr trivial) he
    obtain ⟨others, ⟨V, -, hma', hs'⟩, -⟩ := hma.reaches hs hc
    refine ⟨fun e he => (hs'.permits hma' he).inRange, ?_⟩
    intro site name d hp hd
    exact hma'.distance_lt (hs'.runs hp) hd

theorem scopes_match_local :
    (∃ program m₁ c site name, Eval.load localProgram (start [] relay {} 0) =
        some (.ok program, m₁) ∧
      Reaches ⟨7, .text localProgram, start [] relay {} 0⟩ c ∧ c.job = .read site name ∧
      ∃ p ∈ [Pass.of (start [] relay {} 0) program], ∃ Γ w,
        p.Visits Γ w (.reference site name) ∧ Matches c.machine Γ w) ∧
    (relay.Honest ∧ ∀ es m₁, (Step.run "relay(fn() \x7b print 1; \x7d);").outcome
      (start [⟨"relay", 1, .custom 0⟩] relay {} 0) = some (es, m₁) →
      ∀ e ∈ es, ¬ e.IsOutOfRange) := by
  constructor
  · obtain ⟨n, x, l, site, m₁, hl, -⟩ := load_localProgram
    obtain ⟨m', hc, -⟩ := reaches_local 0 site n x l m₁
    have hreach : Reaches ⟨7, .text localProgram, start [] relay {} 0⟩ ⟨0, .read site x, m'⟩ :=
      .head (.run hl) hc
    exact ⟨_, m₁, _, site, x, hl, hreach, rfl, scopes_match.1 .start hl hreach rfl⟩
  · exact ⟨relay_honest, fun _ _ ho => (scopes_match.2 relay_honest .start).1 ho⟩

end Session

end Scriptling
