/-
  Spacing — the tokens of a text do not depend on what stands between them.

  * `Separator`: white space, then more white space and comments;
  * `respaced`: the texts of tokens, each with a separator after it;
  * `scanFrom_lexeme`: a token in front of a separator is scanned as it is;
  * `scan_respaced`: tokens that are written down with any separators are scanned as before.
-/
import Scriptling.Proofs.Scanning

namespace Scriptling

/-! ## Separators -/

/-- A separator starts with white space; more white space and whole lines of comment may follow. -/
def Separator (sep : String) : Prop :=
  Trivia false sep.toList ∧ ∃ c ∈ sep.toList.head?, isSpace c = true

/-- The texts of tokens, each with the separator after it. -/
def respaced (ts : List Token) (seps : List String) : String :=
  String.join (List.zipWith (fun t sep => t.lexeme ++ sep) ts seps)

/-- What a token says, wherever it stands. -/
def Token.content (t : Token) : TokenKind × String := (t.kind, t.lexeme)

/-! ## Scanning tokens between separators -/

/-- **A token in front of a separator** is scanned as it is, and the separator skipped. -/
theorem scanFrom_lexeme {kind : TokenKind} {lexeme sep : String} (hk : Lexeme kind lexeme.toList)
    (hs : Separator sep) (line : Nat) (rest : List Char) :
    ∃ line₁ line₂, scanFrom line (lexeme.toList ++ (sep.toList ++ rest)) =
      let s := scanFrom line₂ rest
      ⟨⟨kind, lexeme, line₁⟩ :: s.tokens, s.error⟩ := by
  obtain ⟨hgap, c, hc, hspace⟩ := hs
  have hr : ∀ d ∈ (sep.toList ++ rest).head?, isSpace d = true := by
    rw [List.head?_append, Option.mem_def.1 hc]
    simpa using hspace
  generalize ht : lexeme.toList = text at hk
  cases text with
  | nil => exact absurd rfl hk.ne_nil
  | cons d text =>
    rw [List.cons_append, scanFrom_token (hk.piece_append hr), hgap.scanFrom_append nofun,
      ← ht, String.ofList_toList]
    exact ⟨_, _, rfl⟩

/-- Where only the end is left, there is nothing, or a last separator. -/
theorem scanFrom_respaced_last {seps : List String} (hseps : ∀ sep ∈ seps, Separator sep)
    (line l : Nat) : ∃ line', scanFrom line (respaced [⟨.endOfFile, "", l⟩] seps).toList =
      ⟨[⟨.endOfFile, "", line'⟩], none⟩ := by
  cases seps with
  | nil => exact ⟨line, by simp [respaced, scanFrom]⟩
  | cons sep seps =>
    have htext : (respaced [⟨.endOfFile, "", l⟩] (sep :: seps)).toList = sep.toList ++ [] := by
      simp [respaced]
    rw [htext, (hseps sep (.head _)).1.scanFrom_append (fun h => by cases h), scanFrom]
    exact ⟨_, rfl⟩

/-- What is written down with separators is scanned token by token. -/
theorem scanFrom_respaced {front : List Token} {seps : List String} {l : Nat}
    (hfront : ∀ t ∈ front, Lexeme t.kind t.lexeme.toList) (hseps : ∀ sep ∈ seps, Separator sep)
    (hlen : front.length ≤ seps.length) (line : Nat) :
    let ts := front ++ [(⟨.endOfFile, "", l⟩ : Token)]
    (scanFrom line (respaced ts seps).toList).error = none ∧
      (scanFrom line (respaced ts seps).toList).tokens.map Token.content =
        ts.map Token.content := by
  intro ts
  induction front generalizing seps line with
  | nil =>
    obtain ⟨line', hscan⟩ := scanFrom_respaced_last hseps line l
    rw [show ts = [⟨.endOfFile, "", l⟩] from rfl, hscan]
    exact ⟨rfl, rfl⟩
  | cons t front ih =>
    obtain _ | ⟨sep, seps⟩ := seps
    · simp at hlen
    obtain ⟨line₁, line₂, hscan⟩ := scanFrom_lexeme (hfront t (.head _)) (hseps sep (.head _)) line
      (respaced (front ++ [⟨.endOfFile, "", l⟩]) seps).toList
    have htext : (respaced ts (sep :: seps)).toList =
        t.lexeme.toList ++
          (sep.toList ++ (respaced (front ++ [⟨.endOfFile, "", l⟩]) seps).toList) := by
      simp [ts, respaced, String.toList_join]
    have hrest := ih (fun t ht => hfront t (.tail _ ht)) (fun s hs => hseps s (.tail _ hs))
      (Nat.le_of_succ_le_succ hlen) line₂
    rw [htext, hscan]
    exact ⟨hrest.1, congrArg (t.content :: ·) hrest.2⟩

/-- **Tokens do not depend on the layout.**  If a text has no fault, neither has any text that is
    made of its tokens, each with a separator after it; and the tokens of that text have the same
    kinds, with the same values, and the same texts.  After the end there may be a separator or
    none. -/
theorem scan_respaced {source : String} {seps : List String} (hscan : (scan source).error = none)
    (hseps : ∀ sep ∈ seps, Separator sep)
    (hlen : (scan source).tokens.length ≤ seps.length + 1) :
    (scan (respaced (scan source).tokens seps)).error = none ∧
      (scan (respaced (scan source).tokens seps)).tokens.map Token.content =
        (scan source).tokens.map Token.content := by
  obtain ⟨front, hfront, ⟨l, hends⟩ | ⟨_, _, hends⟩⟩ := (scan_scanned source).ends
  · rw [hends] at hlen ⊢
    rw [scan_eq]
    exact scanFrom_respaced hfront hseps (by simpa using hlen) 1
  · rw [hends] at hscan
    cases hscan

theorem scan_respaced_division :
    (scan "x/1.5").error = none ∧ (∀ sep ∈ [" ", "\n//é\n ", " "], Separator sep) ∧
      (scan "x/1.5").tokens.length ≤ 4 ∧
      (scan (respaced (scan "x/1.5").tokens [" ", "\n//é\n ", " "])).error = none ∧
      (scan (respaced (scan "x/1.5").tokens [" ", "\n//é\n ", " "])).tokens.map Token.content =
        (scan "x/1.5").tokens.map Token.content := by
  have hscan : (scan "x/1.5").error = none := by decide +kernel
  have hlen : (scan "x/1.5").tokens.length ≤ 4 := by decide +kernel
  have hspace : Separator " " := by
    have h : " ".toList = [' '] := by decide +kernel
    exact ⟨h ▸ .space rfl .nil, ' ', by simp [h], rfl⟩
  have hlines : Separator "\n//é\n " := by
    have h : "\n//é\n ".toList = ['\n', '/', '/', 'é', '\n', ' '] := by decide +kernel
    have hcomment : Trivia false ('/' :: '/' :: (['é'] ++ '\n' :: [' '])) :=
      .comment (by decide) (.space rfl .nil)
    exact ⟨h ▸ .space rfl hcomment, '\n', by simp [h], rfl⟩
  have hseps : ∀ sep ∈ [" ", "\n//é\n ", " "], Separator sep := by
    simp only [List.forall_mem_cons]
    exact ⟨hspace, hlines, hspace, nofun⟩
  exact ⟨hscan, hseps, hlen, scan_respaced hscan hseps hlen⟩

end Scriptling
