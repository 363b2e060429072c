/-
  Ambiguity — the parser accepts exactly the grammar.

  The grammar leaves two things open: which `if` an `else` belongs to, and whether an operator
  after a named function literal continues it.  Whatever derives at all also derives strictly:
  an `else` can be handed down to the nearest `if`, and a statement that starts with a sign
  can be joined to the literal in front of it.

  * `Derives.attach`, `Derives.carryOn`: the two repairs, each along the right edge;
  * `Derives.settle`: a derivation is made strict;
  * `parse_accepts_grammar`: the parser accepts the programs of the grammar, and gives the one
    tree that derives strictly.
-/
import Scriptling.Proofs.Recognition

namespace Scriptling

/-! ## An `else` for the nearest `if` -/

/-- An `else` after a statement that could take it goes to the nearest `if`. -/
theorem Derives.attach {word : Token} {bare bare' : Bool} {s no : Stmt} {ts vs : List Token}
    (h : Derives true (.statement bare' s) ts) (hs : s.EndsOpen) (hword : word.kind = .else)
    (hno : Derives true (.statement bare no) vs) :
    ∃ s', Derives true (.statement bare s') (ts ++ word :: vs) := by
  have hand : ∀ p ts, Derives true p ts → match p with
      | .statement _ s => s.EndsOpen → ∃ s', Derives true (.statement bare s') (ts ++ word :: vs)
      | _ => True := by
    intro p ts h
    induction h with
    | «for» hkey hopen hlet hb hc hsemicolon hstep hclose _ _ _ _ ih =>
      rintro (_ | _ | _ | hbody)
      obtain ⟨body, hbody⟩ := ih hbody
      simp only [List.cons_append, List.append_assoc]
      exact ⟨_, .for hkey hopen hlet hb hc hsemicolon hstep hclose hbody⟩
    | «while» hkey hopen hc hclose _ _ ih =>
      rintro (_ | _ | hbody | _)
      obtain ⟨body, hbody⟩ := ih hbody
      simp only [List.cons_append, List.append_assoc]
      exact ⟨_, .while hkey hopen hc hclose hbody⟩
    | @«if» _ _ _ _ _ yes _ _ hkey hopen hc hclose hyes _ ih =>
      intro _
      simp only [List.cons_append, List.append_assoc]
      by_cases hdangling : yes.EndsOpen
      · obtain ⟨yes', hyes'⟩ := ih hdangling
        exact ⟨_, .if hkey hopen hc hclose hyes'⟩
      · exact ⟨_, .ifElse hkey hopen hc hclose hyes (fun _ => hdangling) hword hno⟩
    | ifElse hkey hopen hc hclose hyes hdangling hword' _ _ _ ih =>
      rintro (_ | hno' | _ | _)
      obtain ⟨no', hno'⟩ := ih hno'
      simp only [List.cons_append, List.append_assoc]
      exact ⟨_, .ifElse hkey hopen hc hclose hyes hdangling hword' hno'⟩
    | print | «return» | «break» | «continue» | block | expression | bare => rintro (_ | _ | _ | _)
    | _ => trivial
  exact hand _ _ h hs

/-! ## An operator that continues a function literal -/

theorem TokenKind.not_joins_of_opensCall {k : TokenKind} (h : k.opensCall) : ¬k.Joins := by
  rintro ⟨l, op, hl⟩
  cases l <;> cases k <;> first | (cases h; done) | cases hl

/-- The only operators that an expression starts with are signs. -/
theorem TokenKind.sum_of_joins {k : TokenKind} (h : k.opensExpression) (hjoins : k.Joins) :
    ∃ op, Level.sum.operator? k = some op := by
  obtain ⟨l, op, hl⟩ := hjoins
  cases l <;> cases k <;> first | exact ⟨op, hl⟩ | (cases h; done) | cases hl

theorem not_joins_head {t : Token} {ts : List Token} {k : TokenKind} (ht : t.kind = k)
    (hk : ∀ l : Level, l.operator? k = none) : ¬(frontToken (t :: ts)).kind.Joins := by
  rintro ⟨l, op, hl⟩
  rw [show (frontToken (t :: ts)).kind = k from ht, hk l] at hl
  cases hl

/-- A factor that starts with a sign is a factor without it. -/
theorem Derives.drop_sign {p : Phrase} {ts : List Token} (h : Derives true p ts)
    (hjoins : (frontToken ts).kind.Joins) : match p with
      | .unary _ => ∃ e, Derives true (.unary e) ts.tail
      | .operand .product _ => ∃ e, Derives true (.operand .product e) ts.tail
      | .operation .product _ => ∃ e, Derives true (.operation .product e) ts.tail
      | .operand .sum _ => ∃ e, Derives true (.operand .sum e) ts.tail
      | _ => True := by
  induction h with
  | unary _ he => exact ⟨_, he⟩
  | anonymous hkey | named hkey =>
    exact absurd hjoins (not_joins_head hkey fun l => by cases l <;> rfl)
  | noFunction he =>
    obtain ⟨t, us, rfl, ht⟩ := he.starts
    exact absurd hjoins (TokenKind.not_joins_of_opensCall ht)
  | @tightest l _ _ htight _ ih =>
    cases l <;> cases htight
    obtain ⟨e, he⟩ := ih hjoins
    exact ⟨e, .tightest rfl he⟩
  | @tighter l k _ _ htight _ ih =>
    cases l <;> cases htight <;> try trivial
    obtain ⟨e, he⟩ := ih hjoins
    exact ⟨e, .tighter rfl he⟩
  | @first l _ _ _ ih =>
    cases l <;> try trivial
    obtain ⟨e, he⟩ := ih hjoins
    exact ⟨e, .first he⟩
  | @join l _ _ _ _ _ _ hleft hop hright ih _ =>
    cases l <;> try trivial
    obtain ⟨t, us, rfl, ht⟩ := hleft.starts
    obtain ⟨e, he⟩ := ih hjoins
    exact ⟨_, .join he hop hright⟩
  | _ => trivial

/-- An expression that starts with an operator carries on a factor in front of it. -/
theorem Derives.carryOn {f : Expr} {us : List Token} (hf : Derives true (.unary f) us) {p : Phrase}
    {ts : List Token} (h : Derives true p ts) (hjoins : (frontToken ts).kind.Joins) : match p with
      | .operand l _ => l.tightness < 4 → ∃ e, Derives true (.operand l e) (us ++ ts)
      | .operation l _ => l.tightness < 5 → ∃ e, Derives true (.operation l e) (us ++ ts)
      | .ternary _ => ∃ e, Derives true (.ternary e) (us ++ ts)
      | .expression _ => ∃ e, Derives true (.expression e) (us ++ ts)
      | _ => True := by
  induction h with
  | assign htitle =>
    exact absurd hjoins (not_joins_head htitle fun l => by cases l <;> rfl)
  | set ho =>
    obtain ⟨t, us, rfl, ht⟩ := ho.starts
    exact absurd hjoins (TokenKind.not_joins_of_opensCall ht)
  | noAssignment _ ih =>
    obtain ⟨e, he⟩ := ih hjoins
    exact ⟨e, .noAssignment he⟩
  | noChoice _ ih =>
    obtain ⟨e, he⟩ := ih hjoins (by decide)
    exact ⟨e, .noChoice he⟩
  | choice hc hquestion hyes hcolon hno ih _ _ =>
    obtain ⟨t, vs, rfl, ht⟩ := hc.starts
    obtain ⟨c, hc⟩ := ih hjoins (by decide)
    rw [← List.append_assoc]
    exact ⟨_, .choice hc hquestion hyes hcolon hno⟩
  | @tighter l k _ _ htight _ ih =>
    intro hl
    have hk := Level.tightness_tighter htight
    obtain ⟨e, he⟩ := ih hjoins (by omega)
    exact ⟨e, .tighter htight he⟩
  | @tightest l _ _ htight =>
    intro hl
    cases l <;> cases htight
    simp [Level.tightness] at hl
  | @first l _ ts he ih =>
    intro hl
    by_cases hlt : l.tightness < 4
    · obtain ⟨e, he⟩ := ih hjoins hlt
      exact ⟨e, .first he⟩
    · -- at the level of sums, the sign joins the factor to the rest of the first operand
      have hsum : l = .sum := by cases l <;> simp [Level.tightness] at hl hlt; rfl
      subst hsum
      obtain ⟨e, hrest⟩ := he.drop_sign hjoins
      obtain ⟨t, vs, rfl, ht⟩ := he.starts
      obtain ⟨op, hop⟩ := TokenKind.sum_of_joins ht hjoins
      exact ⟨_, .join (.first (.tighter rfl (.first (.tightest rfl hf)))) hop hrest⟩
  | @join l _ _ _ _ _ _ hleft hop hright ih _ =>
    intro hl
    obtain ⟨t, vs, rfl, ht⟩ := hleft.starts
    obtain ⟨e, he⟩ := ih hjoins hl
    rw [← List.append_assoc]
    exact ⟨_, .join he hop hright⟩
  | _ => trivial

/-- An expression that is a function literal was read as one. -/
theorem Derives.unary_of_function {strict : Bool} {f : Function} {ts : List Token}
    (h : Derives strict (.expression (.function f)) ts) :
    Derives strict (.unary (.function f)) ts ∧ Opens (· = .fn) ts := by
  cases h with
  | noAssignment h =>
    have hunary := h.unary_of_ternary rfl
    refine ⟨hunary, ?_⟩
    cases hunary with
    | anonymous hkey | named hkey => exact ⟨_, _, rfl, decide_eq_true hkey⟩
    | noFunction h => exact absurd rfl (h.not_function f)

/-- A statement that starts with an operator is an expression with its semicolon. -/
theorem Derives.of_joins {bare : Bool} {s : Stmt} {ts : List Token}
    (h : Derives true (.declaration bare s) ts) (hjoins : (frontToken ts).kind.Joins) :
    ∃ e us, ∃ semicolon : Token, ts = us ++ [semicolon] ∧ semicolon.kind = .semicolon ∧
      bare = false ∧ Derives true (.expression e) us := by
  cases h with
  | struct hkey | «let» hkey =>
    exact absurd hjoins (not_joins_head hkey fun l => by cases l <;> rfl)
  | statement h =>
    cases h with
    | expression he hsemicolon =>
      obtain ⟨t, us, rfl, ht⟩ := he.starts
      exact ⟨_, _, _, rfl, hsemicolon, rfl, he⟩
    | bare he =>
      obtain ⟨t, us, rfl, ht⟩ := he.unary_of_function.2
      exact absurd hjoins (not_joins_head (of_decide_eq_true ht) fun l => by cases l <;> rfl)
    | «for» hkey | «while» hkey | «if» hkey | ifElse hkey | print hkey | «return» hkey
    | «break» hkey | «continue» hkey | block hkey =>
      exact absurd hjoins (not_joins_head hkey fun l => by cases l <;> rfl)

/-- A statement that ends with a named function literal is carried on by one that starts with an
    operator. -/
theorem Derives.joinStatements {e : Expr} {s : Stmt} {ts us : List Token} {semicolon : Token}
    (h : Derives true (.statement true s) ts) (he : Derives true (.expression e) us)
    (hjoins : (frontToken us).kind.Joins) (hsemicolon : semicolon.kind = .semicolon) :
    ∃ s', Derives true (.statement false s') (ts ++ (us ++ [semicolon])) := by
  have hand : ∀ p ts, Derives true p ts → match p with
      | .statement true _ => ∃ s', Derives true (.statement false s') (ts ++ (us ++ [semicolon]))
      | _ => True := by
    intro p ts h
    induction h with
    | @«for» _ _ _ _ _ _ _ _ _ bare _ _ _ _ _ hkey hopen hlet hb hc hsemicolon' hstep hclose
        _ _ _ _ ih =>
      cases bare <;> try trivial
      obtain ⟨body, hbody⟩ := ih
      simp only [List.cons_append, List.append_assoc]
      exact ⟨_, .for hkey hopen hlet hb hc hsemicolon' hstep hclose hbody⟩
    | @«while» _ _ _ _ bare _ _ _ hkey hopen hc hclose _ _ ih =>
      cases bare <;> try trivial
      obtain ⟨body, hbody⟩ := ih
      simp only [List.cons_append, List.append_assoc]
      exact ⟨_, .while hkey hopen hc hclose hbody⟩
    | @«if» _ _ _ _ bare _ _ _ hkey hopen hc hclose _ _ ih =>
      cases bare <;> try trivial
      obtain ⟨yes, hyes⟩ := ih
      simp only [List.cons_append, List.append_assoc]
      exact ⟨_, .if hkey hopen hc hclose hyes⟩
    | @ifElse _ _ _ _ _ _ _ bare _ _ _ _ hkey hopen hc hclose hyes hdangling hword _ _ _ ih =>
      cases bare <;> try trivial
      obtain ⟨no, hno⟩ := ih
      simp only [List.cons_append, List.append_assoc]
      exact ⟨_, .ifElse hkey hopen hc hclose hyes hdangling hword hno⟩
    | bare hf _ =>
      obtain ⟨e, he⟩ := hf.unary_of_function.1.carryOn he hjoins
      rw [← List.append_assoc]
      exact ⟨_, .expression he hsemicolon⟩
    | _ => trivial
  exact hand _ _ h

/-- A declaration that could go on, in front of declarations that start with an operator, is
    joined to the first of them. -/
theorem Derives.joinDeclarations {s : Stmt} {ss : List Stmt} {ts us : List Token}
    (hs : Derives true (.declaration true s) ts) (hss : Derives true (.declarations ss) us)
    (hjoins : (frontToken us).kind.Joins) : ∃ ss', Derives true (.declarations ss') (ts ++ us) := by
  cases hs with
  | statement hs =>
    cases hss with
    | nil => exact absurd hjoins TokenKind.not_joins_end
    | cons hnext hrest _ =>
      obtain ⟨t, vs, rfl, _⟩ := hnext.starts
      obtain ⟨e, ws, semicolon, heq, hsemicolon, rfl, he⟩ := hnext.of_joins hjoins
      obtain ⟨t', ws, rfl, _⟩ := he.starts
      obtain ⟨rfl, _⟩ := List.cons.inj heq
      obtain ⟨s', hs'⟩ := hs.joinStatements he hjoins hsemicolon
      rw [heq, ← List.append_assoc]
      exact ⟨_, .cons (.statement hs') hrest nofun⟩

/-! ## Strict derivations -/

/-- An expression that is a named function literal. -/
def Expr.IsNamed (e : Expr) : Prop :=
  ∃ name ps body line, e = .function (.mk (some name) ps body line)

/-- A phrase with the same tokens and a strict derivation; what the surrounding phrases depend on
    stays. -/
def Phrase.Settles (ts : List Token) : Phrase → Prop
  | .declarations _ => ∃ ss, Derives true (.declarations ss) ts
  | .declaration bare _ => ∃ s, Derives true (.declaration bare s) ts
  | .statement bare _ => ∃ s, Derives true (.statement bare s) ts
  | .binding name _ => ∃ value, Derives true (.binding name value) ts
  | .methods _ => ∃ fs, Derives true (.methods fs) ts
  | .function ps _ => ∃ body, Derives true (.function ps body) ts
  | .optionalParameters ps => Derives true (.optionalParameters ps) ts
  | .parameters ps => Derives true (.parameters ps) ts
  | .optionalArguments _ => ∃ es, Derives true (.optionalArguments es) ts
  | .arguments es => ∃ es', es'.length = es.length ∧ Derives true (.arguments es') ts
  | .optionalExpression _ => ∃ e, Derives true (.optionalExpression e) ts
  | .expression e => ∃ e', Derives true (.expression e') ts ∧ (e.IsNamed → e'.IsNamed)
  | .ternary e => ∃ e', Derives true (.ternary e') ts ∧ (e.IsNamed → e'.IsNamed)
  | .operation l e => ∃ e', Derives true (.operation l e') ts ∧ (e.IsNamed → e'.IsNamed)
  | .operand l e => ∃ e', Derives true (.operand l e') ts ∧ (e.IsNamed → e'.IsNamed)
  | .unary e => ∃ e', Derives true (.unary e') ts ∧ (e.IsNamed → e'.IsNamed)
  | .call _ => ∃ e', Derives true (.call e') ts
  | .primary _ => ∃ e', Derives true (.primary e') ts

/-- **What derives at all derives strictly.** -/
theorem Derives.settle {p : Phrase} {ts : List Token} (h : Derives false p ts) : p.Settles ts := by
  induction h with
  | nil => exact ⟨[], .nil⟩
  | @cons bare _ _ _ us _ _ _ ihs ihss =>
    obtain ⟨s, hs⟩ := ihs
    obtain ⟨ss, hss⟩ := ihss
    by_cases hjoins : bare = true ∧ (frontToken us).kind.Joins
    · obtain ⟨rfl, hjoins⟩ := hjoins
      exact hs.joinDeclarations hss hjoins
    · exact ⟨_, .cons hs hss fun _ hbare h => hjoins ⟨hbare, h⟩⟩
  | struct hkey htitle hopen _ hclose ih =>
    obtain ⟨fs, hfs⟩ := ih
    exact ⟨_, .struct hkey htitle hopen hfs hclose⟩
  | «let» hkey _ ih =>
    obtain ⟨value, h⟩ := ih
    exact ⟨_, .let hkey h⟩
  | statement _ ih =>
    obtain ⟨s, h⟩ := ih
    exact ⟨_, .statement h⟩
  | noMethods => exact ⟨_, .noMethods⟩
  | method htitle _ _ ihf ihfs =>
    obtain ⟨body, hf⟩ := ihf
    obtain ⟨fs, hfs⟩ := ihfs
    exact ⟨_, .method htitle hf hfs⟩
  | fnMethod hkey htitle _ _ ihf ihfs =>
    obtain ⟨body, hf⟩ := ihf
    obtain ⟨fs, hfs⟩ := ihfs
    exact ⟨_, .fnMethod hkey htitle hf hfs⟩
  | unset htitle hsemicolon => exact ⟨_, .unset htitle hsemicolon⟩
  | initialized htitle hsign _ hsemicolon ih =>
    obtain ⟨e, he, _⟩ := ih
    exact ⟨_, .initialized htitle hsign he hsemicolon⟩
  | «for» hkey hopen hlet _ _ hsemicolon _ hclose _ ihb ihc ihs ih =>
    obtain ⟨value, hb⟩ := ihb
    obtain ⟨c, hc⟩ := ihc
    obtain ⟨step, hs⟩ := ihs
    obtain ⟨body, hbody⟩ := ih
    exact ⟨_, .for hkey hopen hlet hb hc hsemicolon hs hclose hbody⟩
  | «while» hkey hopen _ hclose _ ihc ih =>
    obtain ⟨c, hc, _⟩ := ihc
    obtain ⟨body, hbody⟩ := ih
    exact ⟨_, .while hkey hopen hc hclose hbody⟩
  | «if» hkey hopen _ hclose _ ihc ih =>
    obtain ⟨c, hc, _⟩ := ihc
    obtain ⟨yes, hyes⟩ := ih
    exact ⟨_, .if hkey hopen hc hclose hyes⟩
  | ifElse hkey hopen _ hclose _ _ hword _ ihc ihyes ihno =>
    obtain ⟨c, hc, _⟩ := ihc
    obtain ⟨yes, hyes⟩ := ihyes
    obtain ⟨no, hno⟩ := ihno
    by_cases hdangling : yes.EndsOpen
    · obtain ⟨yes', hyes'⟩ := hyes.attach hdangling hword hno
      exact ⟨_, .if hkey hopen hc hclose hyes'⟩
    · exact ⟨_, .ifElse hkey hopen hc hclose hyes (fun _ => hdangling) hword hno⟩
  | print hkey _ hsemicolon ih =>
    obtain ⟨e, he, _⟩ := ih
    exact ⟨_, .print hkey he hsemicolon⟩
  | «return» hkey _ hsemicolon ih =>
    obtain ⟨e, he⟩ := ih
    exact ⟨_, .return hkey he hsemicolon⟩
  | «break» hkey hsemicolon => exact ⟨_, .break hkey hsemicolon⟩
  | «continue» hkey hsemicolon => exact ⟨_, .continue hkey hsemicolon⟩
  | block hopen _ hclose ih =>
    obtain ⟨body, hbody⟩ := ih
    exact ⟨_, .block hopen hbody hclose⟩
  | expression _ hsemicolon ih =>
    obtain ⟨e, he, _⟩ := ih
    exact ⟨_, .expression he hsemicolon⟩
  | bare _ ih =>
    obtain ⟨e, he, hnamed⟩ := ih
    obtain ⟨name, ps, body, line, rfl⟩ := hnamed ⟨_, _, _, _, rfl⟩
    exact ⟨_, .bare he⟩
  | noExpression => exact ⟨_, .noExpression⟩
  | someExpression _ ih =>
    obtain ⟨e, he, _⟩ := ih
    exact ⟨_, .someExpression he⟩
  | @assign _ _ site _ _ htitle hsign _ ih =>
    obtain ⟨e, he, _⟩ := ih
    exact ⟨.assign site _ e, .assign htitle hsign he, by rintro ⟨_, _, _, _, h⟩; cases h⟩
  | set _ hdot htitle hsign _ iho ih =>
    obtain ⟨object, ho⟩ := iho
    obtain ⟨e, he, _⟩ := ih
    exact ⟨_, .set ho hdot htitle hsign he, by rintro ⟨_, _, _, _, h⟩; cases h⟩
  | noAssignment _ ih =>
    obtain ⟨e, he, hnamed⟩ := ih
    exact ⟨_, .noAssignment he, hnamed⟩
  | choice _ hquestion _ hcolon _ ihc ihyes ihno =>
    obtain ⟨c, hc, _⟩ := ihc
    obtain ⟨yes, hyes, _⟩ := ihyes
    obtain ⟨no, hno, _⟩ := ihno
    exact ⟨_, .choice hc hquestion hyes hcolon hno, by rintro ⟨_, _, _, _, h⟩; cases h⟩
  | noChoice _ ih =>
    obtain ⟨e, he, hnamed⟩ := ih
    exact ⟨_, .noChoice he, hnamed⟩
  | first _ ih =>
    obtain ⟨e, he, hnamed⟩ := ih
    exact ⟨_, .first he, hnamed⟩
  | @join _ op _ _ _ _ _ _ hop _ ihl ihr =>
    obtain ⟨l, hl, _⟩ := ihl
    obtain ⟨r, hr, _⟩ := ihr
    exact ⟨_, .join hl hop hr, by rintro ⟨_, _, _, _, h⟩; cases op <;> cases h⟩
  | tighter htight _ ih =>
    obtain ⟨e, he, hnamed⟩ := ih
    exact ⟨_, .tighter htight he, hnamed⟩
  | tightest htight _ ih =>
    obtain ⟨e, he, hnamed⟩ := ih
    exact ⟨_, .tightest htight he, hnamed⟩
  | unary hop _ ih =>
    obtain ⟨e, he, _⟩ := ih
    exact ⟨_, .unary hop he, by rintro ⟨_, _, _, _, h⟩; cases h⟩
  | anonymous hkey _ ih =>
    obtain ⟨body, hf⟩ := ih
    exact ⟨_, .anonymous hkey hf, by rintro ⟨_, _, _, _, h⟩; cases h⟩
  | named hkey htitle _ ih =>
    obtain ⟨body, hf⟩ := ih
    exact ⟨_, .named hkey htitle hf, fun _ => ⟨_, _, _, _, rfl⟩⟩
  | noFunction he ih =>
    obtain ⟨e, he'⟩ := ih
    refine ⟨_, .noFunction he', ?_⟩
    rintro ⟨_, _, _, _, h⟩
    exact absurd h (he.not_function _)
  | function hopen _ hclose hbrace _ hbrace' ihps ih =>
    obtain ⟨body, hbody⟩ := ih
    exact ⟨_, .function hopen ihps hclose hbrace hbody hbrace'⟩
  | noParameters => exact .noParameters
  | someParameters _ hle ih => exact .someParameters ih hle
  | lastParameter htitle => exact .lastParameter htitle
  | parameter htitle hcomma _ ih => exact .parameter htitle hcomma ih
  | noCall _ ih =>
    obtain ⟨e, he⟩ := ih
    exact ⟨_, .noCall he⟩
  | call _ hopen _ hclose ih ihes =>
    obtain ⟨e, he⟩ := ih
    obtain ⟨es, hes⟩ := ihes
    exact ⟨_, .call he hopen hes hclose⟩
  | get _ hdot htitle ih =>
    obtain ⟨e, he⟩ := ih
    exact ⟨_, .get he hdot htitle⟩
  | noArguments => exact ⟨_, .noArguments⟩
  | someArguments _ hle ih =>
    obtain ⟨es, hlen, hes⟩ := ih
    exact ⟨_, .someArguments hes (hlen ▸ hle)⟩
  | lastArgument _ ih =>
    obtain ⟨e, he, _⟩ := ih
    exact ⟨[e], rfl, .lastArgument he⟩
  | argument _ hcomma _ ih ihes =>
    obtain ⟨e, he, _⟩ := ih
    obtain ⟨es, hlen, hes⟩ := ihes
    exact ⟨_, by simp only [List.length_cons, hlen], .argument he hcomma hes⟩
  | constant hv => exact ⟨_, .constant hv⟩
  | @receiver _ site ht => exact ⟨.this site _, .receiver ht⟩
  | @reference _ site ht => exact ⟨.variable site _, .reference ht⟩
  | group hopen _ hclose ih =>
    obtain ⟨e, he, _⟩ := ih
    exact ⟨_, .group hopen he hclose⟩

/-! ## The parser and the grammar -/

/-- **The parser accepts exactly its grammar.**  A list of tokens up to its end of file is parsed
    if and only if it derives; the tree that is returned derives all the tokens, strictly too, and
    up to the numbers of its sites it is the only one that does so strictly. -/
theorem parse_accepts_grammar {ts : List Token} {eof : Token} (site : Nat)
    (hts : ∀ t ∈ ts, t.kind ≠ .endOfFile) (heof : eof.kind = .endOfFile) :
    ((∃ ss site', parse site (ts ++ [eof]) = (.ok ss, site')) ↔
      ∃ ss, Derives false (.declarations ss) ts) ∧
    ∀ ss site', parse site (ts ++ [eof]) = (.ok ss, site') →
      (∀ strict, Derives strict (.declarations ss) ts) ∧
      ∀ ss', Derives true (.declarations ss') ts → Stmt.outlineAll ss' = Stmt.outlineAll ss := by
  refine ⟨⟨?_, ?_⟩, ?_⟩
  · rintro ⟨ss, site', h⟩
    exact ⟨ss, parse_derives hts heof h false⟩
  · rintro ⟨ss, h⟩
    obtain ⟨ss', hstrict⟩ := h.settle
    obtain ⟨ss'', site', hparse, _⟩ := parse_read site hstrict heof
    exact ⟨ss'', site', hparse⟩
  · intro ss site' h
    refine ⟨parse_derives hts heof h, fun ss' hstrict => ?_⟩
    obtain ⟨ss'', site'', hparse, houtline⟩ := parse_read site hstrict heof
    cases h.symm.trans hparse
    exact houtline.symm

/-- The tokens of `if (true) if (false) null; else null;`. -/
def danglingElse : List Token :=
  [⟨.if, "if", 1⟩, ⟨.leftParen, "(", 1⟩, ⟨.true, "true", 1⟩, ⟨.rightParen, ")", 1⟩,
    ⟨.if, "if", 1⟩, ⟨.leftParen, "(", 1⟩, ⟨.false, "false", 1⟩, ⟨.rightParen, ")", 1⟩,
    ⟨.null, "null", 1⟩, ⟨.semicolon, ";", 1⟩, ⟨.else, "else", 1⟩, ⟨.null, "null", 1⟩,
    ⟨.semicolon, ";", 1⟩]

theorem parse_accepts_danglingElse :
    (∀ t ∈ danglingElse, t.kind ≠ .endOfFile) ∧ (⟨.endOfFile, "", 1⟩ : Token).kind = .endOfFile ∧
    ((∃ ss site', parse 0 (danglingElse ++ [⟨.endOfFile, "", 1⟩]) = (.ok ss, site')) ↔
      ∃ ss, Derives false (.declarations ss) danglingElse) ∧
    ∀ ss site', parse 0 (danglingElse ++ [⟨.endOfFile, "", 1⟩]) = (.ok ss, site') →
      (∀ strict, Derives strict (.declarations ss) danglingElse) ∧
      ∀ ss', Derives true (.declarations ss') danglingElse →
        Stmt.outlineAll ss' = Stmt.outlineAll ss :=
  have hts : ∀ t ∈ danglingElse, t.kind ≠ .endOfFile := by decide
  ⟨hts, rfl, parse_accepts_grammar 0 hts rfl⟩

/-- The `else` goes to the inner `if`. -/
example : parse 0 (danglingElse ++ [⟨.endOfFile, "", 1⟩]) =
    (.ok [.if (.literal (.bool true))
      (.if (.literal (.bool false)) (.expression (.literal .null))
        (some (.expression (.literal .null)))) none], 0) := by rfl

end Scriptling
