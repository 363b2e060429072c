/-
  Readback — a statement is read back from its listing.

  * `Expr.skeleton`, `Stmt.skeleton`: trees with their sites and lines forgotten; a listing shows no
    more (`Stmt.listing_skeleton`);
  * `Sexp.expr?`, `Sexp.stmt?`: a reader of listings;
  * `Part.Legible`: what the reader asks of a node; `Expr.read_back`, `Stmt.read_back`: trees of such
    nodes are read back;
  * `Part.Plain`: a node without strings and without names that mean something else in a listing;
    in a statement that is read such nodes are legible (`Part.Made.legible`);
  * `listing_faithful`: so two statements with the same listing are the same, up to sites and lines.
-/
import Scriptling.Proofs.Literals
import Scriptling.Proofs.Munch
import Scriptling.Proofs.Nodes
import Scriptling.Proofs.Readability

namespace Scriptling

/-! ## Skeletons -/

/-- A name with its line forgotten. -/
@[simp]
def Name.unplaced (n : Name) : Name := ⟨n.text, 0⟩

mutual

/-- A tree with all its sites and lines forgotten. -/
@[simp]
def Expr.skeleton : Expr → Expr
  | .literal v => .literal v
  | .group e => .group e.skeleton
  | .unary op _ e => .unary op 0 e.skeleton
  | .binary op _ l r => .binary op 0 l.skeleton r.skeleton
  | .logical op l r => .logical op l.skeleton r.skeleton
  | .ternary c y n => .ternary c.skeleton y.skeleton n.skeleton
  | .variable _ name => .variable 0 name.unplaced
  | .assign _ name value => .assign 0 name.unplaced value.skeleton
  | .call callee _ arguments => .call callee.skeleton 0 (Expr.skeletonAll arguments)
  | .get object name => .get object.skeleton name.unplaced
  | .set object name value => .set object.skeleton name.unplaced value.skeleton
  | .this _ _ => .this 0 0
  | .function f => .function f.skeleton

@[simp]
def Expr.skeletonAll : List Expr → List Expr
  | [] => []
  | e :: es => e.skeleton :: Expr.skeletonAll es

@[simp]
def Expr.skeletonOpt : Option Expr → Option Expr
  | none => none
  | some e => some e.skeleton

@[simp]
def Function.skeleton : Function → Function
  | .mk name params body _ =>
    .mk (name.map Name.unplaced) (params.map Name.unplaced) (Stmt.skeletonAll body) 0

@[simp]
def Function.skeletonAll : List Function → List Function
  | [] => []
  | f :: fs => f.skeleton :: Function.skeletonAll fs

@[simp]
def Stmt.skeleton : Stmt → Stmt
  | .expression e => .expression e.skeleton
  | .print e => .print e.skeleton
  | .let name value => .let name.unplaced (Expr.skeletonOpt value)
  | .block body => .block (Stmt.skeletonAll body)
  | .if condition yes no => .if condition.skeleton yes.skeleton (Stmt.skeletonOpt no)
  | .while condition body => .while condition.skeleton body.skeleton
  | .for name value condition step body =>
    .for name.unplaced (Expr.skeletonOpt value) (Expr.skeletonOpt condition)
      (Expr.skeletonOpt step) body.skeleton
  | .break _ => .break 0
  | .continue _ => .continue 0
  | .return _ value => .return 0 (Expr.skeletonOpt value)
  | .struct name methods => .struct name.unplaced (Function.skeletonAll methods)

@[simp]
def Stmt.skeletonOpt : Option Stmt → Option Stmt
  | none => none
  | some s => some s.skeleton

@[simp]
def Stmt.skeletonAll : List Stmt → List Stmt
  | [] => []
  | s :: ss => s.skeleton :: Stmt.skeletonAll ss

end

mutual

theorem Expr.toSexp_skeleton : ∀ e : Expr, e.skeleton.toSexp = e.toSexp
  | .literal _ | .variable _ _ | .this _ _ => by simp [Expr.toSexp]
  | .group e | .unary _ _ e | .get e _ => by simp [Expr.toSexp, e.toSexp_skeleton]
  | .binary _ _ l r | .logical _ l r => by
    simp [Expr.toSexp, l.toSexp_skeleton, r.toSexp_skeleton]
  | .ternary c y n => by
    simp [Expr.toSexp, c.toSexp_skeleton, y.toSexp_skeleton, n.toSexp_skeleton]
  | .assign _ _ value => by simp [Expr.toSexp, value.toSexp_skeleton]
  | .call callee _ arguments => by
    simp [Expr.toSexp, callee.toSexp_skeleton, Expr.toSexps_skeleton arguments]
  | .set object _ value => by
    simp [Expr.toSexp, object.toSexp_skeleton, value.toSexp_skeleton]
  | .function f => by simp [Expr.toSexp, f.toSexp_skeleton]

theorem Expr.toSexps_skeleton : ∀ es : List Expr,
    Expr.toSexps (Expr.skeletonAll es) = Expr.toSexps es
  | [] => rfl
  | e :: es => by simp [Expr.toSexps, e.toSexp_skeleton, Expr.toSexps_skeleton es]

theorem Expr.toSexpOpt_skeleton : ∀ e : Option Expr,
    Expr.toSexpOpt (Expr.skeletonOpt e) = Expr.toSexpOpt e
  | none => rfl
  | some e => by simp [Expr.toSexpOpt, e.toSexp_skeleton]

theorem Expr.toSexpClause_skeleton : ∀ e : Option Expr,
    Expr.toSexpClause (Expr.skeletonOpt e) = Expr.toSexpClause e
  | none => rfl
  | some e => by simp [Expr.toSexpClause, e.toSexp_skeleton]

theorem Function.toSexp_skeleton : ∀ f : Function, f.skeleton.toSexp = f.toSexp
  | .mk title _ body _ => by
    cases title <;> simp [Function.toSexp, Stmt.toSexps_skeleton body]

theorem Function.toSexps_skeleton : ∀ fs : List Function,
    Function.toSexps (Function.skeletonAll fs) = Function.toSexps fs
  | [] => rfl
  | f :: fs => by simp [Function.toSexps, f.toSexp_skeleton, Function.toSexps_skeleton fs]

theorem Stmt.toSexp_skeleton : ∀ s : Stmt, s.skeleton.toSexp = s.toSexp
  | .expression e | .print e => by simp [Stmt.toSexp, e.toSexp_skeleton]
  | .let _ value => by simp [Stmt.toSexp, Expr.toSexpOpt_skeleton value]
  | .block body => by simp [Stmt.toSexp, Stmt.toSexps_skeleton body]
  | .if c y n => by
    simp [Stmt.toSexp, c.toSexp_skeleton, y.toSexp_skeleton, Stmt.toSexpOpt_skeleton n]
  | .while c body => by simp [Stmt.toSexp, c.toSexp_skeleton, body.toSexp_skeleton]
  | .for _ value c step body => by
    simp [Stmt.toSexp, Expr.toSexpOpt_skeleton value, Expr.toSexpClause_skeleton c,
      Expr.toSexpClause_skeleton step, body.toSexp_skeleton]
  | .break _ | .continue _ => by simp [Stmt.toSexp]
  | .return _ value => by simp [Stmt.toSexp, Expr.toSexpOpt_skeleton value]
  | .struct _ fs => by simp [Stmt.toSexp, Function.toSexps_skeleton fs]

theorem Stmt.toSexps_skeleton : ∀ ss : List Stmt,
    Stmt.toSexps (Stmt.skeletonAll ss) = Stmt.toSexps ss
  | [] => rfl
  | s :: ss => by simp [Stmt.toSexps, s.toSexp_skeleton, Stmt.toSexps_skeleton ss]

theorem Stmt.toSexpOpt_skeleton : ∀ s : Option Stmt,
    Stmt.toSexpOpt (Stmt.skeletonOpt s) = Stmt.toSexpOpt s
  | none => rfl
  | some s => by simp [Stmt.toSexpOpt, s.toSexp_skeleton]

end

/-- **A listing shows neither sites nor lines.** -/
theorem Stmt.listing_skeleton (s : Stmt) : s.skeleton.listing = s.listing :=
  congrArg Sexp.text s.toSexp_skeleton

/-! ## A reader of listings -/

/-- What the digits of a token come to if they are too large. -/
def infiniteNumber : Number := .ofParts false infinityPattern

/-- The expression that a token stands for. -/
def tokenExpr? (text : String) : TokenKind → Option Expr
  | .identifier => some (.variable 0 ⟨text, 0⟩)
  | .this => some (.this 0 0)
  | kind => kind.constant?.map .literal

/-- The expression that an atom stands for: the atom is a token, or an infinite number. -/
def atomExpr? (text : String) : Option Expr :=
  if text = "inf" then some (.literal (.number infiniteNumber))
  else (scan text).tokens.head?.bind fun t => tokenExpr? text t.kind

@[simp]
def UnaryOp.ofSymbol? : String → Option UnaryOp
  | "!" => some .not
  | "-" => some .minus
  | "+" => some .plus
  | _ => none

/-- What an operator between two operands makes of them. -/
@[simp]
def joinOfSymbol? : String → Option (Expr → Expr → Expr)
  | "+" => some (.binary .plus 0)
  | "-" => some (.binary .minus 0)
  | "*" => some (.binary .times 0)
  | "/" => some (.binary .over 0)
  | ">" => some (.binary .greater 0)
  | ">=" => some (.binary .greaterEqual 0)
  | "<" => some (.binary .less 0)
  | "<=" => some (.binary .lessEqual 0)
  | "==" => some (.binary .equal 0)
  | "!=" => some (.binary .notEqual 0)
  | "&&" => some (.logical .and)
  | "||" => some (.logical .or)
  | _ => none

namespace Sexp

/-- The name of a function, if it has one. -/
def title? : String → Option Name
  | "anonymous" => none
  | text => some ⟨text, 0⟩

/-- The names that some atoms are. -/
@[simp]
def names? : List Sexp → Option (List Name)
  | [] => some []
  | atom text :: xs => do return ⟨text, 0⟩ :: (← names? xs)
  | list _ :: _ => none

/-- A clause of a `for`, given the expression that it is read as. -/
def clause? : Sexp → Option Expr → Option (Option Expr)
  | atom "_", _ => some none
  | _, e => e.map some

mutual

/-- The expression with a listing. -/
@[simp]
def expr? : Sexp → Option Expr
  | atom text => atomExpr? text
  | list [atom "group", e] => e.expr?.map .group
  | list [atom "?", c, y, n] => do return .ternary (← c.expr?) (← y.expr?) (← n.expr?)
  | list (atom "call" :: callee :: arguments) => do
    return .call (← callee.expr?) 0 (← exprs? arguments)
  | list [atom ".", object, atom x] => do return .get (← object.expr?) ⟨x, 0⟩
  | list [atom "=", atom x, value] => do return .assign 0 ⟨x, 0⟩ (← value.expr?)
  | list [atom "=", list [atom ".", object, atom x], value] => do
    return .set (← object.expr?) ⟨x, 0⟩ (← value.expr?)
  | list (atom "fn" :: atom x :: list params :: body) => do
    return .function (.mk (title? x) (← names? params) (← stmts? body) 0)
  | list [atom symbol, e] => do return .unary (← UnaryOp.ofSymbol? symbol) 0 (← e.expr?)
  | list [atom symbol, l, r] => do return (← joinOfSymbol? symbol) (← l.expr?) (← r.expr?)
  | _ => none

@[simp]
def exprs? : List Sexp → Option (List Expr)
  | [] => some []
  | x :: xs => do return (← x.expr?) :: (← exprs? xs)

@[simp]
def exprOpt? : List Sexp → Option (Option Expr)
  | [] => some none
  | [x] => x.expr?.map some
  | _ => none

@[simp]
def functions? : List Sexp → Option (List Function)
  | [] => some []
  | x :: xs => do
    match ← x.expr? with
    | .function f => return f :: (← functions? xs)
    | _ => none

/-- The statement with a listing. -/
@[simp]
def stmt? : Sexp → Option Stmt
  | list [atom "expr", e] => e.expr?.map .expression
  | list [atom "print", e] => e.expr?.map .print
  | list (atom "let" :: atom x :: value) => do return .let ⟨x, 0⟩ (← exprOpt? value)
  | list (atom "block" :: body) => do return .block (← stmts? body)
  | list (atom "if" :: c :: y :: n) => do return .if (← c.expr?) (← y.stmt?) (← stmtOpt? n)
  | list [atom "while", c, body] => do return .while (← c.expr?) (← body.stmt?)
  | list [atom "for", list (atom "let" :: atom x :: value), c, step, body] => do
    return .for ⟨x, 0⟩ (← exprOpt? value) (← clause? c c.expr?) (← clause? step step.expr?)
      (← body.stmt?)
  | list [atom "break"] => some (.break 0)
  | list [atom "continue"] => some (.continue 0)
  | list (atom "return" :: value) => do return .return 0 (← exprOpt? value)
  | list (atom "struct" :: atom x :: methods) => do return .struct ⟨x, 0⟩ (← functions? methods)
  | _ => none

@[simp]
def stmts? : List Sexp → Option (List Stmt)
  | [] => some []
  | x :: xs => do return (← x.stmt?) :: (← stmts? xs)

@[simp]
def stmtOpt? : List Sexp → Option (Option Stmt)
  | [] => some none
  | [x] => x.stmt?.map some
  | _ => none

end

end Sexp

/-! ## Legible nodes -/

/-- A name that is told from everything else in a listing. -/
structure Name.Legible (n : Name) : Prop where
  isAtom : IsAtom n.text
  read : atomExpr? n.text = some (.variable 0 n.unplaced)
  ne_blank : n.text ≠ "_"

structure Literal.Legible (v : Literal) : Prop where
  isAtom : IsAtom v.listing
  read : atomExpr? v.listing = some (.literal v)

structure Part.Legible (p : Part) : Prop where
  names : ∀ n ∈ p.names, n.Legible
  constants : ∀ v ∈ p.constants, v.Legible
  titles : ∀ f, p = .function f → ∀ n ∈ f.name, n.text ≠ "anonymous"

/-- An atom that is a token is read by its kind. -/
theorem atomExpr?_of_lexeme {kind : TokenKind} {text : String} (h : Lexeme kind text.toList)
    (hinf : text ≠ "inf") : atomExpr? text = tokenExpr? text kind := by
  have scanned := h.scan_ofList
  rw [String.ofList_toList] at scanned
  rw [atomExpr?, if_neg hinf, scanned]
  rfl

theorem atomExpr?_word {text : String} (hstart : text.toList.head?.any isWordStart = true)
    (hword : text.toList.all isWordChar = true) (hinf : text ≠ "inf") :
    atomExpr? text = tokenExpr? text (.ofWord text) := by
  refine atomExpr?_of_lexeme ?_ hinf
  cases htext : text.toList with
  | nil => simp [htext] at hstart
  | cons c cs =>
    rw [htext] at hstart hword
    have hcs : ∀ d ∈ cs, isWordChar d = true := fun d hd => List.all_eq_true.1 hword d (.tail _ hd)
    have hlexeme := Lexeme.word (by simpa using hstart) hcs
    rw [← htext, String.ofList_toList] at hlexeme
    rwa [← htext]

theorem atomExpr?_this : atomExpr? "this" = some (.this 0 0) :=
  atomExpr?_word (by decide) (by decide) (by decide)

theorem atomExpr?_blank : atomExpr? "_" = some (.variable 0 ⟨"_", 0⟩) :=
  atomExpr?_word (by decide) (by decide) (by decide)

namespace Sexp

theorem title?_eq {text : String} (h : text ≠ "anonymous") : title? text = some ⟨text, 0⟩ := by
  unfold title?
  split
  · exact absurd rfl h
  · rfl

theorem names?_atoms (names : List Name) :
    names? (names.map fun n => atom n.text) = some (names.map Name.unplaced) := by
  induction names with
  | nil => rfl
  | cons n names ih => simp [ih]

theorem wordyAll_atoms {names : List Name} (h : ∀ n ∈ names, IsAtom n.text) :
    WordyAll (names.map fun n => atom n.text) := by
  induction names with
  | nil => trivial
  | cons n names ih =>
    obtain ⟨hn, hnames⟩ := List.forall_mem_cons.1 h
    exact ⟨hn, ih hnames⟩

/-- An expression is told from an empty clause. -/
theorem clause?_toSexp {e : Expr} (h : (Part.expr e).Everywhere Part.Legible)
    (hr : e.toSexp.expr? = some e.skeleton) :
    clause? e.toSexp e.toSexp.expr? = some (some e.skeleton) := by
  rw [hr]
  unfold clause?
  split
  · next hblank =>
    rw [hblank, expr?, atomExpr?_blank] at hr
    cases e with
    | «variable» site name =>
      have hname := (h.self.names name (.head _)).ne_blank
      simp at hr
      exact absurd hr.symm hname
    | _ => cases hr
  · rfl

end Sexp

open Scriptling.Part Sexp

mutual

theorem Expr.read_back : ∀ e : Expr, (Part.expr e).Everywhere Legible →
    e.toSexp.Wordy ∧ e.toSexp.expr? = some e.skeleton
  | .literal v, h => by
    have hv := h.self.constants v (.head _)
    simp [Expr.toSexp, hv.isAtom, hv.read]
  | .group e, h => by
    obtain ⟨hw, hr⟩ := e.read_back (h.inside (.piece (.head _)))
    simp +decide [Expr.toSexp, hw, hr]
  | .unary op _ e, h => by
    obtain ⟨hw, hr⟩ := e.read_back (h.inside (.piece (.head _)))
    cases op <;>
      simp +decide [Expr.toSexp, hw, hr, UnaryOp.symbol]
  | .binary op _ l r, h => by
    obtain ⟨hwl, hl⟩ := l.read_back (h.inside (.piece (.head _)))
    obtain ⟨hwr, hr⟩ := r.read_back (h.inside (.piece (.tail _ (.head _))))
    cases op <;>
      simp +decide [Expr.toSexp, hwl, hl, hwr, hr, BinaryOp.symbol]
  | .logical op l r, h => by
    obtain ⟨hwl, hl⟩ := l.read_back (h.inside (.piece (.head _)))
    obtain ⟨hwr, hr⟩ := r.read_back (h.inside (.piece (.tail _ (.head _))))
    cases op <;>
      simp +decide [Expr.toSexp, hwl, hl, hwr, hr, LogicalOp.symbol]
  | .ternary c y n, h => by
    obtain ⟨hwc, hc⟩ := c.read_back (h.inside (.piece (.head _)))
    obtain ⟨hwy, hy⟩ := y.read_back (h.inside (.piece (.tail _ (.head _))))
    obtain ⟨hwn, hn⟩ := n.read_back (h.inside (.piece (.tail _ (.tail _ (.head _)))))
    simp +decide [Expr.toSexp, hwc, hc, hwy, hy, hwn, hn]
  | .variable _ name, h => by
    have hn := h.self.names name (.head _)
    simp [Expr.toSexp, hn.isAtom, hn.read]
  | .assign _ name value, h => by
    have hn := h.self.names name (.head _)
    obtain ⟨hw, hr⟩ := value.read_back (h.inside (.piece (.head _)))
    simp +decide [Expr.toSexp, hn.isAtom, hw, hr]
  | .call callee _ arguments, h => by
    obtain ⟨hwc, hc⟩ := callee.read_back (h.inside (.piece (.head _)))
    obtain ⟨hwa, ha⟩ := Expr.read_back_all arguments (h.inside (.piece (.tail _ (.head _))))
    simp +decide [Expr.toSexp, hwc, hc, hwa, ha]
  | .get object name, h => by
    have hn := h.self.names name (.head _)
    obtain ⟨hw, hr⟩ := object.read_back (h.inside (.piece (.head _)))
    simp +decide [Expr.toSexp, hn.isAtom, hw, hr]
  | .set object name value, h => by
    have hn := h.self.names name (.head _)
    obtain ⟨hwv, hv⟩ := value.read_back (h.inside (.piece (.head _)))
    obtain ⟨hwo, ho⟩ := object.read_back (h.inside (.piece (.tail _ (.head _))))
    simp +decide [Expr.toSexp, hn.isAtom, hwv, hv, hwo, ho]
  | .this _ _, _ => by
    simp +decide [Expr.toSexp, atomExpr?_this]
  | .function f, h => f.read_back (h.inside .literal)

theorem Expr.read_back_all : ∀ es : List Expr, (Part.exprs es).Everywhere Legible →
    WordyAll (Expr.toSexps es) ∧ exprs? (Expr.toSexps es) = some (Expr.skeletonAll es)
  | [], _ => ⟨trivial, rfl⟩
  | e :: es, h => by
    obtain ⟨hw, hr⟩ := e.read_back (h.inside (.piece (.head _)))
    obtain ⟨hws, hrs⟩ := Expr.read_back_all es (h.inside (.piece (.tail _ (.head _))))
    simp [Expr.toSexps, hw, hr, hws, hrs]

theorem Expr.read_back_opt : ∀ e : Option Expr, (Part.optional e).Everywhere Legible →
    WordyAll (Expr.toSexpOpt e) ∧ exprOpt? (Expr.toSexpOpt e) = some (Expr.skeletonOpt e)
  | none, _ => ⟨trivial, rfl⟩
  | some e, h => by
    obtain ⟨hw, hr⟩ := e.read_back (h.inside (.piece (.head _)))
    simp [Expr.toSexpOpt, hw, hr]

theorem Expr.read_back_clause : ∀ e : Option Expr, (Part.optional e).Everywhere Legible →
    (Expr.toSexpClause e).Wordy ∧
      clause? (Expr.toSexpClause e) (Expr.toSexpClause e).expr? = some (Expr.skeletonOpt e)
  | none, _ => by
    simp +decide [Expr.toSexpClause, clause?]
  | some e, h => by
    have inner := h.inside (.piece (.head _))
    obtain ⟨hw, hr⟩ := e.read_back inner
    exact ⟨hw, clause?_toSexp inner hr⟩

theorem Function.read_back : ∀ f : Function, (Part.function f).Everywhere Legible →
    f.toSexp.Wordy ∧ f.toSexp.expr? = some (.function f.skeleton)
  | .mk title params body line, h => by
    obtain ⟨hwb, hb⟩ := Stmt.read_back_all body (h.inside .body)
    have names := h.self.names
    have hwp := wordyAll_atoms fun n hn => (names n (List.mem_append_right _ hn)).isAtom
    cases title with
    | none =>
      simp +decide [Function.toSexp, hwb, hb, hwp, names?_atoms, title?]
    | some name =>
      have hname := names name (List.mem_append_left _ (.head _))
      have htitle := title?_eq (h.self.titles _ rfl name rfl)
      simp +decide [Function.toSexp, hwb, hb, hwp, names?_atoms, htitle,
        hname.isAtom]

theorem Function.read_back_all : ∀ fs : List Function, (Part.methods fs).Everywhere Legible →
    WordyAll (Function.toSexps fs) ∧
      functions? (Function.toSexps fs) = some (Function.skeletonAll fs)
  | [], _ => ⟨trivial, rfl⟩
  | f :: fs, h => by
    obtain ⟨hw, hr⟩ := f.read_back ((h.inside (.piece (.head _))).inside .receiver)
    obtain ⟨hws, hrs⟩ := Function.read_back_all fs (h.inside (.piece (.tail _ (.head _))))
    simp [Function.toSexps, hw, hr, hws, hrs]

theorem Stmt.read_back : ∀ s : Stmt, (Part.stmt s).Everywhere Legible →
    s.toSexp.Wordy ∧ s.toSexp.stmt? = some s.skeleton
  | .expression e, h => by
    obtain ⟨hw, hr⟩ := e.read_back (h.inside (.piece (.head _)))
    simp +decide [Stmt.toSexp, hw, hr]
  | .print e, h => by
    obtain ⟨hw, hr⟩ := e.read_back (h.inside (.piece (.head _)))
    simp +decide [Stmt.toSexp, hw, hr]
  | .let name value, h => by
    have hn := h.self.names name (.head _)
    obtain ⟨hw, hr⟩ := Expr.read_back_opt value (h.inside .value)
    simp +decide [Stmt.toSexp, hn.isAtom, hw, hr]
  | .block body, h => by
    obtain ⟨hw, hr⟩ := Stmt.read_back_all body (h.inside .block)
    simp +decide [Stmt.toSexp, hw, hr]
  | .if c y n, h => by
    obtain ⟨hwc, hc⟩ := c.read_back (h.inside (.piece (.head _)))
    obtain ⟨hwy, hy⟩ := y.read_back (h.inside (.piece (.tail _ (.head _))))
    obtain ⟨hwn, hn⟩ := Stmt.read_back_opt n (h.inside (.piece (.tail _ (.tail _ (.head _)))))
    simp +decide [Stmt.toSexp, hwc, hc, hwy, hy, hwn, hn]
  | .while c body, h => by
    obtain ⟨hwc, hc⟩ := c.read_back ((h.inside (.piece (.head _))).inside (.piece (.head _)))
    obtain ⟨hwb, hb⟩ := body.read_back ((h.inside (.piece (.tail _ (.head _)))).inside .round)
    simp +decide [Stmt.toSexp, hwc, hc, hwb, hb]
  | .for name value c step body, h => by
    have inner := h.inside .loop
    have hn := h.self.names name (.head _)
    obtain ⟨hwv, hv⟩ := Expr.read_back_opt value ((inner.inside (.piece (.head _))).inside .value)
    obtain ⟨hwc, hc⟩ := Expr.read_back_clause c (inner.inside (.piece (.tail _ (.head _))))
    obtain ⟨hws, hs⟩ := Expr.read_back_clause step
      (inner.inside (.piece (.tail _ (.tail _ (.head _)))))
    obtain ⟨hwb, hb⟩ := body.read_back
      ((inner.inside (.piece (.tail _ (.tail _ (.tail _ (.head _)))))).inside .round)
    simp +decide [Stmt.toSexp, hn.isAtom, hwv, hv, hwc, hc, hws, hs, hwb, hb]
  | .break _, _ => by
    simp +decide [Stmt.toSexp]
  | .continue _, _ => by
    simp +decide [Stmt.toSexp]
  | .return _ value, h => by
    obtain ⟨hw, hr⟩ := Expr.read_back_opt value (h.inside (.piece (.head _)))
    simp +decide [Stmt.toSexp, hw, hr]
  | .struct name fs, h => by
    have hn := h.self.names name (.head _)
    obtain ⟨hw, hr⟩ := Function.read_back_all fs (h.inside .methods)
    simp +decide [Stmt.toSexp, hn.isAtom, hw, hr]

theorem Stmt.read_back_all : ∀ ss : List Stmt, (Part.stmts ss).Everywhere Legible →
    WordyAll (Stmt.toSexps ss) ∧ stmts? (Stmt.toSexps ss) = some (Stmt.skeletonAll ss)
  | [], _ => ⟨trivial, rfl⟩
  | s :: ss, h => by
    obtain ⟨hw, hr⟩ := s.read_back (h.inside (.piece (.head _)))
    obtain ⟨hws, hrs⟩ := Stmt.read_back_all ss (h.inside (.piece (.tail _ (.head _))))
    simp [Stmt.toSexps, hw, hr, hws, hrs]

theorem Stmt.read_back_opt : ∀ s : Option Stmt, (Part.alternative s).Everywhere Legible →
    WordyAll (Stmt.toSexpOpt s) ∧ stmtOpt? (Stmt.toSexpOpt s) = some (Stmt.skeletonOpt s)
  | none, _ => ⟨trivial, rfl⟩
  | some s, h => by
    obtain ⟨hw, hr⟩ := s.read_back (h.inside (.piece (.head _)))
    simp [Stmt.toSexpOpt, hw, hr]

end

/-! ## What is read is legible -/

theorem delimits_of_isWordChar {c : Char} (h : isWordChar c = true) : delimits c = false := by
  refine Bool.eq_false_iff.2 fun hc => ?_
  simp only [delimits, Bool.or_eq_true, beq_iff_eq] at hc
  rcases hc with (rfl | rfl) | rfl <;> exact absurd h (by decide)

theorem Lexeme.isAtom_of_identifier {text : String} (h : Lexeme .identifier text.toList) :
    IsAtom text :=
  ⟨fun he => h.ne_nil (by rw [he]; rfl),
    fun c hc => delimits_of_isWordChar (h.spelt c hc)⟩

namespace Number

variable {n : Number}

theorem isAtom_of_numeral {text : String} {x : ℚ} (h : Numeral text.toList x) : IsAtom text := by
  have digit {c : Char} (hc : c.isDigit = true) : delimits c = false := by
    refine delimits_of_isWordChar ?_
    simp [isWordChar, Char.isAlphanum, hc]
  obtain ⟨d, cs, hd, -⟩ := h.exists_digit
  refine ⟨?_, ?_⟩
  · rintro rfl
    cases hd
  · generalize text.toList = chars at h
    cases h with
    | whole _ hds => exact fun c hc => digit (hds c hc)
    | fraction _ hds _ hes =>
      simp only [List.mem_append, List.mem_cons]
      rintro c (hc | rfl | hc)
      · exact digit (hds c hc)
      · rfl
      · exact digit (hes c hc)

/-- **A number of a token is read back from its listing.** -/
theorem legible_of_lexeme {text : List Char} (h : Lexeme (.number n) text) :
    (Literal.number n).Legible := by
  have hsign := isNegative_of_lexeme h
  have hle := magnitude_le_of_lexeme h
  by_cases hfinite : n.isFinite = true
  · have hwritten := writtenAs_listing hsign hfinite
    have hscan := hwritten.scan hsign
    obtain ⟨d, hnumeral, -⟩ := hwritten
    refine ⟨isAtom_of_numeral hnumeral, ?_⟩
    have hinf : n.listing ≠ "inf" := by
      intro he
      obtain ⟨c, cs, hc, hdigit⟩ := hnumeral.exists_digit
      rw [he] at hc
      cases hc
      cases hdigit
    show atomExpr? n.listing = _
    rw [atomExpr?, if_neg hinf, hscan]
    rfl
  · have hge : ¬ n.magnitude < infinityPattern := fun hlt => hfinite (decide_eq_true hlt)
    have hmagnitude : n.magnitude = infinityPattern := by omega
    have hself := ofParts_self n
    rw [hsign, hmagnitude] at hself
    have hnan : n.isNaN = false := decide_eq_false (by omega)
    have hinfinite : n.isInfinite = true := beq_iff_eq.2 hmagnitude
    have hlisting : n.listing = "inf" := by
      simp [listing, isWhole, hfinite, Layout.write, hnan, hinfinite, hsign, Layout.plain]
    have hatom : IsAtom n.listing := by
      rw [hlisting]
      decide
    refine ⟨hatom, ?_⟩
    show atomExpr? n.listing = _
    rw [hlisting, atomExpr?, if_pos rfl, ← hself]
    rfl

end Number

/-- The tokens of a text: an end of file behind tokens with the texts of their kinds. -/
theorem lexemes_of_tokens {source : String} {ts : List Token} (h : tokens source = .ok ts) :
    Ended ts ∧ ∀ t ∈ ts, t.kind = .endOfFile ∨ Lexeme t.kind t.lexeme.toList := by
  obtain ⟨front, hfront, hscan⟩ := (scan_scanned source).ends
  unfold tokens at h
  obtain ⟨line, hs⟩ | ⟨line, fault, hs⟩ := hscan
  · rw [hs] at h
    cases h
    refine ⟨⟨⟨.endOfFile, "", line⟩, by simp, rfl⟩, fun t ht => ?_⟩
    rcases List.mem_append.1 ht with ht | ht
    · exact .inr (hfront t ht)
    · exact .inl (by rw [List.mem_singleton.1 ht])
  · rw [hs] at h
    cases h

/-- **What the listing of a node leaves open is not in it**: strings, which are listed without
    quotes, and the names that stand for what is missing or for an infinite number. -/
structure Part.Plain (p : Part) : Prop where
  strings : ∀ v ∈ p.constants, ∀ contents, v ≠ .string contents
  names : ∀ n ∈ p.names, n.text ≠ "_" ∧ n.text ≠ "inf"
  titles : ∀ f, p = .function f → ∀ n ∈ f.name, n.text ≠ "anonymous"

section
variable {source : String} {ts : List Token} (hts : tokens source = .ok ts)
include hts

theorem Name.StandsIn.legible {n : Name} (h : n.StandsIn ts) (hblank : n.text ≠ "_")
    (hinf : n.text ≠ "inf") : n.Legible := by
  obtain ⟨t, ht, hkind, rfl⟩ := h
  rcases (lexemes_of_tokens hts).2 t ht with hend | hlexeme
  · rw [hend] at hkind
    cases hkind
  · rw [hkind] at hlexeme
    exact ⟨hlexeme.isAtom_of_identifier, atomExpr?_of_lexeme hlexeme hinf, hblank⟩

theorem Literal.legible_of_tokens {t : Token} (ht : t ∈ ts) {v : Literal}
    (hv : t.kind.constant? = some v) (hstring : ∀ contents, v ≠ .string contents) : v.Legible := by
  rcases (lexemes_of_tokens hts).2 t ht with hend | hlexeme
  · rw [hend] at hv
    cases hv
  · unfold TokenKind.constant? at hv
    split at hv <;> cases hv
    · exact ⟨by decide, atomExpr?_word (by decide) (by decide) (by decide)⟩
    · exact ⟨by decide, atomExpr?_word (by decide) (by decide) (by decide)⟩
    · exact ⟨by decide, atomExpr?_word (by decide) (by decide) (by decide)⟩
    · next hkind => exact Number.legible_of_lexeme (hkind ▸ hlexeme)
    · exact absurd rfl (hstring _)

theorem Part.Made.legible {p : Part} (h : p.Made ts) (hplain : p.Plain) : p.Legible where
  names n hn := (h.names n hn).legible hts (hplain.names n hn).1 (hplain.names n hn).2
  constants v hv := by
    obtain ⟨t, ht, hkind⟩ := h.constants v hv
    exact Literal.legible_of_tokens hts ht hkind (hplain.strings v hv)
  titles := hplain.titles

/-- **A plain statement that is read is read back from its listing**, up to sites and lines. -/
theorem Stmt.ReadFrom.read_back {s : Stmt} (h : s.ReadFrom ts)
    (hplain : (Part.stmt s).Everywhere Part.Plain) :
    s.toSexp.Wordy ∧ s.toSexp.stmt? = some s.skeleton :=
  Stmt.read_back s fun q hq =>
    (h.made (lexemes_of_tokens hts).1 q hq).legible hts (hplain q hq)

end

/-- **The listing is faithful.**  Two plain statements that are read from texts have the same listing
    if and only if they are the same, up to sites and lines; even the numbers in them are then the
    same. -/
theorem listing_faithful {source source' : String} {ts ts' : List Token}
    (hts : tokens source = .ok ts) (hts' : tokens source' = .ok ts') {s t : Stmt}
    (hs : s.ReadFrom ts) (ht : t.ReadFrom ts') (hplain : (Part.stmt s).Everywhere Part.Plain)
    (hplain' : (Part.stmt t).Everywhere Part.Plain) :
    s.listing = t.listing ↔ s.skeleton = t.skeleton := by
  constructor
  · intro h
    obtain ⟨hw, hr⟩ := hs.read_back hts hplain
    obtain ⟨hw', hr'⟩ := ht.read_back hts' hplain'
    rw [Sexp.text_injective hw hw' h] at hr
    exact Option.some.inj (hr.symm.trans hr')
  · intro h
    rw [← s.listing_skeleton, h, t.listing_skeleton]

/-- The tokens of `x = 1;`. -/
def plainTokens : List Token :=
  [⟨.identifier, "x", 1⟩, ⟨.equal, "=", 1⟩, ⟨.number ⟨0x3ff0000000000000⟩, "1", 1⟩,
    ⟨.semicolon, ";", 1⟩, ⟨.endOfFile, "", 1⟩]

/-- The tokens of the same statement, spelt with a decimal and on another line. -/
def respeltTokens : List Token :=
  [⟨.identifier, "x", 2⟩, ⟨.equal, "=", 2⟩, ⟨.number ⟨0x3ff0000000000000⟩, "1.00", 2⟩,
    ⟨.semicolon, ";", 2⟩, ⟨.endOfFile, "", 2⟩]

/-- An assignment of one. -/
def assignsOne (site line : Nat) : Stmt :=
  .expression (.assign site ⟨"x", line⟩ (.literal (.number ⟨0x3ff0000000000000⟩)))

theorem everywhere_plain_assignsOne (site line : Nat) :
    (Part.stmt (assignsOne site line)).Everywhere Part.Plain := by
  have leaf : (Part.expr (.literal (.number ⟨0x3ff0000000000000⟩))).Everywhere Part.Plain :=
    .intro ⟨by simp [Part.constants], nofun, nofun⟩ nofun
  have target : (Part.reference site ⟨"x", line⟩).Everywhere Part.Plain :=
    .intro ⟨nofun, nofun, nofun⟩ nofun
  refine .intro ⟨nofun, nofun, nofun⟩ (List.forall_mem_singleton.2 (.intro ⟨nofun, ?_, nofun⟩ ?_))
  · simp [Part.names]
  · exact List.forall_mem_cons.2 ⟨leaf, List.forall_mem_singleton.2 target⟩

theorem listing_faithful_respelt :
    tokens "x = 1;" = .ok plainTokens ∧ tokens "\nx = 1.00;" = .ok respeltTokens ∧
      (assignsOne 1 1).ReadFrom plainTokens ∧ (assignsOne 8 2).ReadFrom respeltTokens ∧
      (Part.stmt (assignsOne 1 1)).Everywhere Part.Plain ∧
      (Part.stmt (assignsOne 8 2)).Everywhere Part.Plain ∧
      (assignsOne 1 1).listing = (assignsOne 8 2).listing ∧
      (assignsOne 1 1).skeleton = (assignsOne 8 2).skeleton := by
  have scanned : tokens "x = 1;" = .ok plainTokens := by decide +kernel
  have scanned' : tokens "\nx = 1.00;" = .ok respeltTokens := by decide +kernel
  have read : (assignsOne 1 1).ReadFrom plainTokens := .inl ⟨0, .head _⟩
  have read' : (assignsOne 8 2).ReadFrom respeltTokens := .inl ⟨7, .head _⟩
  have plain := everywhere_plain_assignsOne
  have listed : (assignsOne 1 1).listing = (assignsOne 8 2).listing := rfl
  exact ⟨scanned, scanned', read, read', plain 1 1, plain 8 2, listed,
    (listing_faithful scanned scanned' read read' (plain 1 1) (plain 8 2)).1 listed⟩

end Scriptling
