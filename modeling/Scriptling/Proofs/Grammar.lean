/-
  Grammar — which token lists are programs, and which trees they stand for.

  The productions of the language, each with the tree that is read from its parts.  An
  expression is divided by the levels of its operators, and each level joins to the left.

  * `Phrase`: a nonterminal with its tree; `Derives`: the productions;
  * a derivation that is `strict` also settles what the productions leave open: an `else`
    goes to the nearest `if`, and an operator after a named function literal continues the
    expression;
  * `Stmt.outlineAll`: a program without the numbers of its sites;
  * `Derives.starts`: the tokens a phrase can start with; `Derives.no_end`: none is an end
    of file.
-/
import Scriptling.Syntax.Parse

namespace Scriptling

/-! ## Outlines -/

mutual

/-- A tree with all its sites forgotten. -/
@[simp]
def Expr.outline : Expr → Expr
  | .literal v => .literal v
  | .group e => .group e.outline
  | .unary op line e => .unary op line e.outline
  | .binary op line l r => .binary op line l.outline r.outline
  | .logical op l r => .logical op l.outline r.outline
  | .ternary c y n => .ternary c.outline y.outline n.outline
  | .variable _ name => .variable 0 name
  | .assign _ name value => .assign 0 name value.outline
  | .call callee line arguments => .call callee.outline line (Expr.outlineAll arguments)
  | .get object name => .get object.outline name
  | .set object name value => .set object.outline name value.outline
  | .this _ line => .this 0 line
  | .function f => .function f.outline

@[simp]
def Expr.outlineAll : List Expr → List Expr
  | [] => []
  | e :: es => e.outline :: Expr.outlineAll es

@[simp]
def Expr.outlineOpt : Option Expr → Option Expr
  | none => none
  | some e => some e.outline

@[simp]
def Function.outline : Function → Function
  | .mk name params body line => .mk name params (Stmt.outlineAll body) line

@[simp]
def Function.outlineAll : List Function → List Function
  | [] => []
  | f :: fs => f.outline :: Function.outlineAll fs

@[simp]
def Stmt.outline : Stmt → Stmt
  | .expression e => .expression e.outline
  | .print e => .print e.outline
  | .let name value => .let name (Expr.outlineOpt value)
  | .block body => .block (Stmt.outlineAll body)
  | .if condition yes no => .if condition.outline yes.outline (Stmt.outlineOpt no)
  | .while condition body => .while condition.outline body.outline
  | .for name value condition step body =>
    .for name (Expr.outlineOpt value) (Expr.outlineOpt condition) (Expr.outlineOpt step)
      body.outline
  | .break line => .break line
  | .continue line => .continue line
  | .return line value => .return line (Expr.outlineOpt value)
  | .struct name methods => .struct name (Function.outlineAll methods)

@[simp]
def Stmt.outlineOpt : Option Stmt → Option Stmt
  | none => none
  | some s => some s.outline

/-- A program with all its sites forgotten. -/
@[simp]
def Stmt.outlineAll : List Stmt → List Stmt
  | [] => []
  | s :: ss => s.outline :: Stmt.outlineAll ss

end

/-! ## Productions -/

/-- The name that a token is. -/
def Token.toName (t : Token) : Name := ⟨t.lexeme, t.line⟩

/-- The constant that a token is. -/
def TokenKind.constant? : TokenKind → Option Literal
  | .false => some (.bool Bool.false)
  | .true => some (.bool Bool.true)
  | .null => some .null
  | .number value => some (.number value)
  | .string contents => some (.string contents)
  | _ => none

/-- A token is a binary operator. -/
def TokenKind.Joins (k : TokenKind) : Prop := ∃ (l : Level) (op : InfixOp), l.operator? k = some op

/-- An `if` without `else` stands at the end of the statement, so that a following `else`
    could belong to it. -/
inductive Stmt.EndsOpen : Stmt → Prop where
  | if {condition yes} : EndsOpen (.if condition yes none)
  | else {condition yes no} : EndsOpen no → EndsOpen (.if condition yes (some no))
  | while {condition body} : EndsOpen body → EndsOpen (.while condition body)
  | for {name value condition step body} :
      EndsOpen body → EndsOpen (.for name value condition step body)

/-- The nonterminals of the grammar, each with the tree that stands for it.  A statement or
    declaration is `bare` if it ends with a named function literal and no semicolon. -/
inductive Phrase where
  /-- A program, or what stands between the braces of a block. -/
  | declarations (ss : List Stmt)
  | declaration (bare : Bool) (s : Stmt)
  | statement (bare : Bool) (s : Stmt)
  /-- What follows `let`. -/
  | binding (name : Name) (value : Option Expr)
  /-- What stands between the braces of a struct. -/
  | methods (fs : List Function)
  /-- A function from its opening parenthesis on. -/
  | function (params : List Name) (body : List Stmt)
  | optionalParameters (ps : List Name)
  | parameters (ps : List Name)
  | optionalArguments (es : List Expr)
  | arguments (es : List Expr)
  | optionalExpression (e : Option Expr)
  | expression (e : Expr)
  | ternary (e : Expr)
  | operation (level : Level) (e : Expr)
  /-- One operand of a level: an operation of the next tighter one. -/
  | operand (level : Level) (e : Expr)
  | unary (e : Expr)
  | call (e : Expr)
  | primary (e : Expr)

/-- The productions of the grammar: a phrase and its tokens.  Where a program can be read in
    two ways, a `strict` derivation gives an `else` to the nearest `if` and lets an operator
    after a named function literal continue the expression. -/
inductive Derives (strict : Bool) : Phrase → List Token → Prop where
  -- program and block: any number of declarations
  | nil : Derives strict (.declarations []) []
  | cons {bare s ss ts us} :
      Derives strict (.declaration bare s) ts → Derives strict (.declarations ss) us →
      (strict = true → bare = true → ¬(frontToken us).kind.Joins) →
      Derives strict (.declarations (s :: ss)) (ts ++ us)
  -- structDecl, letDecl and statement
  | struct {key title left right : Token} {fs ts} :
      key.kind = .struct → title.kind = .identifier → left.kind = .leftBrace →
      Derives strict (.methods fs) ts → right.kind = .rightBrace →
      Derives strict (.declaration false (.struct title.toName fs))
        (key :: title :: left :: (ts ++ [right]))
  | let {key : Token} {name value ts} :
      key.kind = .let → Derives strict (.binding name value) ts →
      Derives strict (.declaration false (.let name value)) (key :: ts)
  | statement {bare s ts} :
      Derives strict (.statement bare s) ts → Derives strict (.declaration bare s) ts
  -- methods; the word `fn` is optional
  | noMethods : Derives strict (.methods []) []
  | method {title : Token} {ps body fs ts us} :
      title.kind = .identifier → Derives strict (.function ps body) ts →
      Derives strict (.methods fs) us →
      Derives strict (.methods (.mk (some title.toName) ps body title.line :: fs))
        (title :: (ts ++ us))
  | fnMethod {key title : Token} {ps body fs ts us} :
      key.kind = .fn → title.kind = .identifier → Derives strict (.function ps body) ts →
      Derives strict (.methods fs) us →
      Derives strict (.methods (.mk (some title.toName) ps body title.line :: fs))
        (key :: title :: (ts ++ us))
  -- the rest of a letDecl
  | unset {title semicolon : Token} :
      title.kind = .identifier → semicolon.kind = .semicolon →
      Derives strict (.binding title.toName none) [title, semicolon]
  | initialized {title sign semicolon : Token} {e ts} :
      title.kind = .identifier → sign.kind = .equal → Derives strict (.expression e) ts →
      semicolon.kind = .semicolon →
      Derives strict (.binding title.toName (some e)) (title :: sign :: (ts ++ [semicolon]))
  -- the statements
  | for {key left word semicolon right : Token}
      {name value condition step bare body ts us vs ws} :
      key.kind = .for → left.kind = .leftParen → word.kind = .let →
      Derives strict (.binding name value) ts →
      Derives strict (.optionalExpression condition) us → semicolon.kind = .semicolon →
      Derives strict (.optionalExpression step) vs → right.kind = .rightParen →
      Derives strict (.statement bare body) ws →
      Derives strict (.statement bare (.for name value condition step body))
        (key :: left :: word :: (ts ++ (us ++ semicolon :: (vs ++ right :: ws))))
  | while {key left right : Token} {condition bare body ts us} :
      key.kind = .while → left.kind = .leftParen → Derives strict (.expression condition) ts →
      right.kind = .rightParen → Derives strict (.statement bare body) us →
      Derives strict (.statement bare (.while condition body)) (key :: left :: (ts ++ right :: us))
  | if {key left right : Token} {condition bare yes ts us} :
      key.kind = .if → left.kind = .leftParen → Derives strict (.expression condition) ts →
      right.kind = .rightParen → Derives strict (.statement bare yes) us →
      Derives strict (.statement bare (.if condition yes none))
        (key :: left :: (ts ++ right :: us))
  | ifElse {key left right word : Token} {condition bare yes bare' no ts us vs} :
      key.kind = .if → left.kind = .leftParen → Derives strict (.expression condition) ts →
      right.kind = .rightParen → Derives strict (.statement bare yes) us →
      (strict = true → ¬yes.EndsOpen) → word.kind = .else →
      Derives strict (.statement bare' no) vs →
      Derives strict (.statement bare' (.if condition yes (some no)))
        (key :: left :: (ts ++ right :: (us ++ word :: vs)))
  | print {key semicolon : Token} {e ts} :
      key.kind = .print → Derives strict (.expression e) ts → semicolon.kind = .semicolon →
      Derives strict (.statement false (.print e)) (key :: (ts ++ [semicolon]))
  | return {key semicolon : Token} {e ts} :
      key.kind = .return → Derives strict (.optionalExpression e) ts →
      semicolon.kind = .semicolon →
      Derives strict (.statement false (.return key.line e)) (key :: (ts ++ [semicolon]))
  | break {key semicolon : Token} :
      key.kind = .break → semicolon.kind = .semicolon →
      Derives strict (.statement false (.break key.line)) [key, semicolon]
  | continue {key semicolon : Token} :
      key.kind = .continue → semicolon.kind = .semicolon →
      Derives strict (.statement false (.continue key.line)) [key, semicolon]
  | block {left right : Token} {body ts} :
      left.kind = .leftBrace → Derives strict (.declarations body) ts →
      right.kind = .rightBrace →
      Derives strict (.statement false (.block body)) (left :: (ts ++ [right]))
  | expression {semicolon : Token} {e ts} :
      Derives strict (.expression e) ts → semicolon.kind = .semicolon →
      Derives strict (.statement false (.expression e)) (ts ++ [semicolon])
  -- the semicolon is optional after an expression that is a named function literal
  | bare {name ps body line ts} :
      Derives strict (.expression (.function (.mk (some name) ps body line))) ts →
      Derives strict (.statement true (.expression (.function (.mk (some name) ps body line)))) ts
  | noExpression : Derives strict (.optionalExpression none) []
  | someExpression {e ts} :
      Derives strict (.expression e) ts → Derives strict (.optionalExpression (some e)) ts
  -- assignment
  | assign {title sign : Token} {site value ts} :
      title.kind = .identifier → sign.kind = .equal → Derives strict (.expression value) ts →
      Derives strict (.expression (.assign site title.toName value)) (title :: sign :: ts)
  | set {dot title sign : Token} {object value ts us} :
      Derives strict (.call object) ts → dot.kind = .dot → title.kind = .identifier →
      sign.kind = .equal → Derives strict (.expression value) us →
      Derives strict (.expression (.set object title.toName value))
        (ts ++ dot :: title :: sign :: us)
  | noAssignment {e ts} : Derives strict (.ternary e) ts → Derives strict (.expression e) ts
  -- ternary
  | choice {question colon : Token} {c yes no ts us vs} :
      Derives strict (.operation .or c) ts → question.kind = .question →
      Derives strict (.ternary yes) us → colon.kind = .colon → Derives strict (.ternary no) vs →
      Derives strict (.ternary (.ternary c yes no)) (ts ++ question :: (us ++ colon :: vs))
  | noChoice {e ts} : Derives strict (.operation .or e) ts → Derives strict (.ternary e) ts
  -- from logic_or to factor: operands of the next tighter level, joined to the left
  | first {level e ts} :
      Derives strict (.operand level e) ts → Derives strict (.operation level e) ts
  | join {level op left right ts us} {sign : Token} :
      Derives strict (.operation level left) ts → level.operator? sign.kind = some op →
      Derives strict (.operand level right) us →
      Derives strict (.operation level (op.join sign.line left right)) (ts ++ sign :: us)
  | tighter {level tighter : Level} {e ts} :
      level.tighter? = some tighter → Derives strict (.operation tighter e) ts →
      Derives strict (.operand level e) ts
  | tightest {level : Level} {e ts} :
      level.tighter? = none → Derives strict (.unary e) ts → Derives strict (.operand level e) ts
  -- unary and function
  | unary {sign : Token} {op e ts} :
      UnaryOp.ofKind? sign.kind = some op → Derives strict (.unary e) ts →
      Derives strict (.unary (.unary op sign.line e)) (sign :: ts)
  | anonymous {key : Token} {ps body ts} :
      key.kind = .fn → Derives strict (.function ps body) ts →
      Derives strict (.unary (.function (.mk none ps body key.line))) (key :: ts)
  | named {key title : Token} {ps body ts} :
      key.kind = .fn → title.kind = .identifier → Derives strict (.function ps body) ts →
      Derives strict (.unary (.function (.mk (some title.toName) ps body key.line)))
        (key :: title :: ts)
  | noFunction {e ts} : Derives strict (.call e) ts → Derives strict (.unary e) ts
  | function {left right brace brace' : Token} {ps body ts us} :
      left.kind = .leftParen → Derives strict (.optionalParameters ps) ts →
      right.kind = .rightParen → brace.kind = .leftBrace →
      Derives strict (.declarations body) us → brace'.kind = .rightBrace →
      Derives strict (.function ps body) (left :: (ts ++ right :: brace :: (us ++ [brace'])))
  -- parameters, of which there are no more than `maxArguments`
  | noParameters : Derives strict (.optionalParameters []) []
  | someParameters {ps ts} :
      Derives strict (.parameters ps) ts → ps.length ≤ maxArguments →
      Derives strict (.optionalParameters ps) ts
  | lastParameter {title : Token} :
      title.kind = .identifier → Derives strict (.parameters [title.toName]) [title]
  | parameter {title comma : Token} {ps ts} :
      title.kind = .identifier → comma.kind = .comma → Derives strict (.parameters ps) ts →
      Derives strict (.parameters (title.toName :: ps)) (title :: comma :: ts)
  -- call
  | noCall {e ts} : Derives strict (.primary e) ts → Derives strict (.call e) ts
  | call {left right : Token} {callee es ts us} :
      Derives strict (.call callee) ts → left.kind = .leftParen →
      Derives strict (.optionalArguments es) us → right.kind = .rightParen →
      Derives strict (.call (.call callee right.line es)) (ts ++ left :: (us ++ [right]))
  | get {dot title : Token} {object ts} :
      Derives strict (.call object) ts → dot.kind = .dot → title.kind = .identifier →
      Derives strict (.call (.get object title.toName)) (ts ++ [dot, title])
  -- arguments, of which there are no more than `maxArguments`
  | noArguments : Derives strict (.optionalArguments []) []
  | someArguments {es ts} :
      Derives strict (.arguments es) ts → es.length ≤ maxArguments →
      Derives strict (.optionalArguments es) ts
  | lastArgument {e ts} : Derives strict (.expression e) ts → Derives strict (.arguments [e]) ts
  | argument {comma : Token} {e es ts us} :
      Derives strict (.expression e) ts → comma.kind = .comma → Derives strict (.arguments es) us →
      Derives strict (.arguments (e :: es)) (ts ++ comma :: us)
  -- primary
  | constant {t : Token} {v} :
      t.kind.constant? = some v → Derives strict (.primary (.literal v)) [t]
  | receiver {t : Token} {site} : t.kind = .this → Derives strict (.primary (.this site t.line)) [t]
  | reference {t : Token} {site} :
      t.kind = .identifier → Derives strict (.primary (.variable site t.toName)) [t]
  | group {left right : Token} {e ts} :
      left.kind = .leftParen → Derives strict (.expression e) ts → right.kind = .rightParen →
      Derives strict (.primary (.group e)) (left :: (ts ++ [right]))

/-! ## The tokens of a phrase -/

/-- A token can be the first of a call. -/
def TokenKind.opensCall : TokenKind → Bool
  | .false | .true | .null | .number _ | .string _ | .this | .identifier | .leftParen => Bool.true
  | _ => Bool.false

/-- A token can be the first of an expression. -/
def TokenKind.opensExpression : TokenKind → Bool
  | .bang | .minus | .plus | .fn => Bool.true
  | k => k.opensCall

/-- A token can be the first of a statement. -/
def TokenKind.opensStatement : TokenKind → Bool
  | .for | .if | .while | .print | .return | .break | .continue | .leftBrace => Bool.true
  | k => k.opensExpression

/-- A token can be the first of a declaration. -/
def TokenKind.opensDeclaration : TokenKind → Bool
  | .struct | .let => Bool.true
  | k => k.opensStatement

/-- The first token of a list is of one of some kinds. -/
def Opens (K : TokenKind → Bool) (ts : List Token) : Prop := ∃ t us, ts = t :: us ∧ K t.kind

theorem Opens.head {K : TokenKind → Bool} {t : Token} {ts : List Token} {k : TokenKind}
    (ht : t.kind = k) (hk : K k) : Opens K (t :: ts) := ⟨t, ts, rfl, ht ▸ hk⟩

theorem Opens.ne_nil {K : TokenKind → Bool} {ts : List Token} (h : Opens K ts) : ts ≠ [] := by
  obtain ⟨t, us, rfl, -⟩ := h
  exact List.cons_ne_nil t us

theorem Opens.append {K : TokenKind → Bool} {ts : List Token} (h : Opens K ts)
    (us : List Token) : Opens K (ts ++ us) := by
  obtain ⟨t, vs, rfl, ht⟩ := h
  exact ⟨t, vs ++ us, rfl, ht⟩

theorem Opens.mono {K L : TokenKind → Bool} {ts : List Token} (hKL : ∀ k, K k → L k)
    (h : Opens K ts) : Opens L ts := by
  obtain ⟨t, us, rfl, ht⟩ := h
  exact ⟨t, us, rfl, hKL _ ht⟩

theorem TokenKind.opensExpression_of_opensCall (k : TokenKind) (h : k.opensCall) :
    k.opensExpression := by
  cases k <;> first | rfl | exact h

theorem TokenKind.opensStatement_of_opensExpression (k : TokenKind) (h : k.opensExpression) :
    k.opensStatement := by
  cases k <;> first | rfl | exact h

theorem TokenKind.opensDeclaration_of_opensStatement (k : TokenKind) (h : k.opensStatement) :
    k.opensDeclaration := by
  cases k <;> first | rfl | exact h

theorem TokenKind.opensCall_of_constant? {k : TokenKind} {v : Literal}
    (h : k.constant? = some v) : k.opensCall := by
  cases k <;> first | rfl | cases h

theorem UnaryOp.opensExpression_of_ofKind? {k : TokenKind} {op : UnaryOp}
    (h : ofKind? k = some op) : k.opensExpression := by
  cases k <;> first | rfl | cases h

theorem UnaryOp.ofKind?_of_opensCall {k : TokenKind} (h : k.opensCall) :
    ofKind? k = none ∧ k ≠ .fn := by
  constructor
  · cases k <;> first | rfl | cases h
  · rintro rfl
    cases h

/-- How the tokens of a phrase start. -/
def Phrase.Starts (ts : List Token) : Phrase → Prop
  | .declarations _ => ts = [] ∨ Opens TokenKind.opensDeclaration ts
  | .declaration _ _ => Opens TokenKind.opensDeclaration ts
  | .statement _ _ => Opens TokenKind.opensStatement ts
  | .arguments _ | .expression _ | .ternary _ | .operation _ _ | .operand _ _ | .unary _ =>
    Opens TokenKind.opensExpression ts
  | .call _ | .primary _ => Opens TokenKind.opensCall ts
  | .function _ _ => Opens (· = .leftParen) ts
  | .parameters _ => Opens (· = .identifier) ts
  | _ => True

theorem Derives.starts {strict : Bool} {p : Phrase} {ts : List Token} (h : Derives strict p ts) :
    p.Starts ts := by
  induction h with
  | nil => exact Or.inl rfl
  | cons _ _ _ ih _ => exact Or.inr (ih.append _)
  | statement _ ih => exact ih.mono TokenKind.opensDeclaration_of_opensStatement
  | struct hk | «let» hk => exact .head hk rfl
  | «for» hk | «while» hk | «if» hk | ifElse hk => exact .head hk rfl
  | print hk | «return» hk | «break» hk | «continue» hk | block hk => exact .head hk rfl
  | expression _ _ ih => exact (ih.append _).mono TokenKind.opensStatement_of_opensExpression
  | bare _ ih => exact ih.mono TokenKind.opensStatement_of_opensExpression
  | assign hk | anonymous hk | named hk => exact .head hk rfl
  | receiver hk | reference hk | group hk => exact .head hk rfl
  | set _ _ _ _ _ ih => exact (ih.append _).mono TokenKind.opensExpression_of_opensCall
  | choice _ _ _ _ _ ih => exact ih.append _
  | join _ _ _ ih _ | call _ _ _ _ ih _ | get _ _ _ ih => exact ih.append _
  | argument _ _ _ ih _ => exact ih.append _
  | noAssignment _ ih | noChoice _ ih | first _ ih | tighter _ _ ih | tightest _ _ ih => exact ih
  | noFunction _ ih => exact ih.mono TokenKind.opensExpression_of_opensCall
  | noCall _ ih | lastArgument _ ih => exact ih
  | function hk | lastParameter hk | parameter hk => exact ⟨_, _, rfl, decide_eq_true hk⟩
  | unary hk => exact ⟨_, _, rfl, UnaryOp.opensExpression_of_ofKind? hk⟩
  | constant hk => exact ⟨_, _, rfl, TokenKind.opensCall_of_constant? hk⟩
  | _ => trivial

theorem Level.operator?_end (l : Level) : l.operator? .endOfFile = none := by cases l <;> rfl

theorem TokenKind.not_joins_end : ¬TokenKind.endOfFile.Joins := by
  rintro ⟨l, op, hl⟩
  rw [Level.operator?_end] at hl
  cases hl

theorem not_joins_of_append {ts us : List Token} (h : ¬(frontToken (ts ++ us)).kind.Joins) :
    ¬(frontToken ts).kind.Joins := by
  cases ts with
  | nil => exact TokenKind.not_joins_end
  | cons t ts => exact h

/-- No token of a phrase is an end of file. -/
theorem Derives.no_end {strict : Bool} {p : Phrase} {ts : List Token}
    (h : Derives strict p ts) : ∀ t ∈ ts, t.kind ≠ .endOfFile := by
  induction h with
  | constant hk =>
    intro t ht he
    rw [← List.mem_singleton.1 ht, he] at hk
    cases hk
  | unary hk _ ih =>
    refine List.forall_mem_cons.2 ⟨fun he => ?_, ih⟩
    rw [he] at hk
    cases hk
  | join _ hk _ ihl ihr =>
    refine List.forall_mem_append.2 ⟨ihl, List.forall_mem_cons.2 ⟨fun he => ?_, ihr⟩⟩
    rw [he, Level.operator?_end] at hk
    cases hk
  | _ => simp_all [or_imp]

/-! ## Trees of operands -/

/-- A tree made of operands by a binary operator or a condition. -/
def Expr.joined : Expr → Bool
  | .ternary _ _ _ | .logical _ _ _ | .binary _ _ _ _ => true
  | _ => false

theorem InfixOp.joined_join (op : InfixOp) (line : Nat) (left right : Expr) :
    (op.join line left right).joined = true := by cases op <;> rfl

/-- A tree that no operator made was read as a single operand. -/
theorem Derives.unary_of_ternary {strict : Bool} {e : Expr} {ts : List Token}
    (h : Derives strict (.ternary e) ts) (he : e.joined = false) :
    Derives strict (.unary e) ts := by
  have narrow : ∀ p ts, Derives strict p ts → match p with
      | .ternary e | .operation _ e | .operand _ e =>
        e.joined = false → Derives strict (.unary e) ts
      | _ => True := by
    clear he h ts
    intro p ts h
    induction h with
    | choice => intro he; cases he
    | join => intro he; rw [InfixOp.joined_join] at he; cases he
    | noChoice _ ih | first _ ih | tighter _ _ ih => exact ih
    | tightest _ h => exact fun _ => h
    | _ => trivial
  exact narrow _ _ h he

theorem Derives.not_function {strict : Bool} {e : Expr} {ts : List Token}
    (h : Derives strict (.call e) ts) (f : Function) : e ≠ .function f := by
  rintro rfl
  cases h with
  | noCall h => cases h

theorem Derives.of_variable {strict : Bool} {site : Nat} {n : Name} {ts : List Token}
    (h : Derives strict (.unary (.variable site n)) ts) :
    ∃ t : Token, ts = [t] ∧ t.kind = .identifier ∧ n = t.toName := by
  cases h with
  | noFunction h => cases h with
    | noCall h => cases h with
      | reference ht => exact ⟨_, rfl, ht, rfl⟩

theorem Derives.of_get {strict : Bool} {object : Expr} {n : Name} {ts : List Token}
    (h : Derives strict (.unary (.get object n)) ts) :
    ∃ us, ∃ dot title : Token, ts = us ++ [dot, title] ∧ dot.kind = .dot ∧
      title.kind = .identifier ∧ n = title.toName ∧ Derives strict (.call object) us := by
  cases h with
  | noFunction h => cases h with
    | get h hdot htitle => exact ⟨_, _, _, rfl, hdot, htitle, rfl, h⟩
    | noCall h => cases h

end Scriptling
