/-
  Serials — sites are numbered in the order in which they are read.

  So the numbers of a program that has been read say nothing about it beyond where they begin.

  * `Part.serial`: the numbers of a part run on from the given one, and which number comes next;
  * `Recast.exact`: parts that differ only in how loops are written, and in the numbers of their
    sites, have the same numbers if both are numbered from the same one on;
  * `Parser.serial`: the rules of the grammar number what they read;
  * `Eval.parseText_recast`: so two texts that are read from the same number on have the same sites.
-/
import Scriptling.Proofs.Sites
import Scriptling.Proofs.Recasts

namespace Scriptling

/-! ## Serial numbers -/

/-- A site has the number that comes next; the number after it. -/
def serialSite (site n : Nat) : Option Nat := if site = n then some (n + 1) else none

mutual

/-- The sites of an expression are numbered from the given number on, in the order in which they
    are read; the number that comes next. -/
def Expr.serial : Expr → Nat → Option Nat
  | .literal _, n => some n
  | .group e, n => e.serial n
  | .unary _ _ e, n => e.serial n
  | .binary _ _ l r, n => l.serial n >>= r.serial
  | .logical _ l r, n => l.serial n >>= r.serial
  | .ternary c yes no, n => c.serial n >>= fun n => yes.serial n >>= no.serial
  | .variable site _, n => serialSite site n
  -- the number that was given out for reading the target is not used
  | .assign site _ value, n => value.serial (n + 1) >>= serialSite site
  | .call callee _ arguments, n => callee.serial n >>= Expr.serialAll arguments
  | .get object _, n => object.serial n
  | .set object _ value, n => object.serial n >>= value.serial
  | .this site _, n => serialSite site n
  | .function f, n => f.serial n

def Expr.serialAll : List Expr → Nat → Option Nat
  | [], n => some n
  | e :: es, n => e.serial n >>= Expr.serialAll es

def Expr.serialOpt : Option Expr → Nat → Option Nat
  | none, n => some n
  | some e, n => e.serial n

def Function.serial : Function → Nat → Option Nat
  | .mk _ _ body _, n => Stmt.serialAll body n

def Function.serialAll : List Function → Nat → Option Nat
  | [], n => some n
  | f :: fs, n => f.serial n >>= Function.serialAll fs

def Stmt.serial : Stmt → Nat → Option Nat
  | .expression e, n => e.serial n
  | .print e, n => e.serial n
  | .let _ value, n => Expr.serialOpt value n
  | .block body, n => Stmt.serialAll body n
  | .if condition yes no, n =>
    condition.serial n >>= fun n => yes.serial n >>= Stmt.serialOpt no
  | .while condition body, n => condition.serial n >>= body.serial
  | .for _ value condition step body, n =>
    Expr.serialOpt value n >>= fun n => Expr.serialOpt condition n >>= fun n =>
      Expr.serialOpt step n >>= body.serial
  | .break _, n => some n
  | .continue _, n => some n
  | .return _ value, n => Expr.serialOpt value n
  | .struct _ methods, n => Function.serialAll methods n

def Stmt.serialOpt : Option Stmt → Nat → Option Nat
  | none, n => some n
  | some s, n => s.serial n

def Stmt.serialAll : List Stmt → Nat → Option Nat
  | [], n => some n
  | s :: ss, n => s.serial n >>= Stmt.serialAll ss

end

theorem serialSite_eq_succ {site n m : Nat} (h : serialSite site n = some m) : m = n + 1 := by
  unfold serialSite at h
  split at h
  · exact (Option.some.inj h).symm
  · cases h

/-- One thing is numbered after another. -/
theorem serial_seq {f g : Nat → Option Nat} {n m k : Nat} (hf : f n = some m)
    (hg : g m = some k) : (f n >>= g) = some k := by
  rw [hf]
  exact hg

/-- **The sites of a part are numbered in the order in which they are read.** -/
def Part.serial : Part → Nat → Option Nat
  | expr e => e.serial
  | exprs es => Expr.serialAll es
  | optional e => Expr.serialOpt e
  | reference site _ => serialSite site
  | function f | method f => f.serial
  | methods fs => Function.serialAll fs
  | stmt s | rounds s => s.serial
  | alternative s => Stmt.serialOpt s
  | stmts ss => Stmt.serialAll ss
  | clauses name value condition step body => (Stmt.for name value condition step body).serial

/-- A condition that is not there has no sites. -/
theorem Expr.serialOpt_eq_guard (condition : Option Expr) :
    Expr.serialOpt condition = (Expr.guard condition).serial := by
  cases condition <;> rfl

/-- The sites of a `for` without a step come in the order of those of the block. -/
theorem Stmt.serial_for (name : Name) (value condition : Option Expr) (body : Stmt) :
    (Stmt.for name value condition none body).serial =
      (Stmt.block [.let name value, .while (Expr.guard condition) body]).serial := by
  have last (x : Option Nat) : x = (x >>= fun n => some n) := by cases x <;> rfl
  have inside (n : Nat) : (Expr.serialOpt condition n >>= fun n => some n >>= body.serial) =
      Stmt.serialAll [.while (Expr.guard condition) body] n := by
    rw [Expr.serialOpt_eq_guard]
    exact last _
  funext n
  exact congrArg (Expr.serialOpt value n >>= ·) (funext inside)

/-- Numbered from the same number on, two things come to the same number, and agree. -/
def SerialAgree (f f' : Nat → Option Nat) (P : Prop) : Prop :=
  ∀ n a b, f n = some a → f' n = some b → a = b ∧ P

namespace SerialAgree

variable {f f' g g' : Nat → Option Nat} {P R : Prop}

theorem same (f : Nat → Option Nat) (hP : P) : SerialAgree f f P :=
  fun _ _ _ h h' => ⟨Option.some.inj (h.symm.trans h'), hP⟩

theorem imp (h : SerialAgree f f' P) (hPR : P → R) : SerialAgree f f' R :=
  fun n a b ha hb => (h n a b ha hb).imp_right hPR

theorem seq (hf : SerialAgree f f' P) (hg : SerialAgree g g' R) :
    SerialAgree (fun n => f n >>= g) (fun n => f' n >>= g') (P ∧ R) := by
  intro n a b ha hb
  obtain ⟨m, hm, ha⟩ := Option.bind_eq_some_iff.1 ha
  obtain ⟨m', hm', hb⟩ := Option.bind_eq_some_iff.1 hb
  obtain ⟨rfl, hP⟩ := hf n m m' hm hm'
  obtain ⟨rfl, hR⟩ := hg m a b ha hb
  exact ⟨rfl, hP, hR⟩

theorem site (s s' : Nat) : SerialAgree (serialSite s) (serialSite s') (s = s') := by
  intro n a b ha hb
  unfold serialSite at ha hb
  split at ha <;> split at hb <;> simp_all

end SerialAgree

/-- **Parts that differ only in how loops are written are numbered in the same way.** -/
theorem Recast.exact {same : Nat → Nat → Prop} {p q : Part} (h : Recast same p q) :
    SerialAgree p.serial q.serial (Recast Eq p q) := by
  have looped {name : Name} {value value' : Option Expr} {c c' : Expr} {body body' : Stmt}
      {P Q R : Prop} (hv : SerialAgree (Expr.serialOpt value) (Expr.serialOpt value') P)
      (hc : SerialAgree c.serial c'.serial Q) (hb : SerialAgree body.serial body'.serial R) :
      SerialAgree (Stmt.block [.let name value, .while c body]).serial
        (Stmt.block [.let name value', .while c' body']).serial (P ∧ (Q ∧ R) ∧ True) :=
    hv.seq ((hc.seq hb).seq (.same _ trivial))
  induction h with
  | literal => exact .same _ .literal
  | group _ ih => exact ih.imp .group
  | unary _ ih => exact ih.imp .unary
  | binary _ _ ihl ihr => exact (ihl.seq ihr).imp fun ⟨hl, hr⟩ => .binary hl hr
  | logical _ _ ihl ihr => exact (ihl.seq ihr).imp fun ⟨hl, hr⟩ => .logical hl hr
  | ternary _ _ _ ihc ihy ihn =>
    exact (ihc.seq (ihy.seq ihn)).imp fun ⟨hc, hy, hn⟩ => .ternary hc hy hn
  | «variable» => exact (SerialAgree.site _ _).imp .variable
  | assign _ _ ih =>
    intro n a b ha hb
    exact ((ih.seq (.site _ _)).imp fun ⟨hv, hs⟩ => .assign hv hs) (n + 1) a b ha hb
  | call _ _ ih ihs => exact (ih.seq ihs).imp fun ⟨hc, ha⟩ => .call hc ha
  | get _ ih => exact ih.imp .get
  | set _ _ iho ihv => exact (iho.seq ihv).imp fun ⟨ho, hv⟩ => .set ho hv
  | this => exact (SerialAgree.site _ _).imp .this
  | function _ ih => exact ih.imp .function
  | noExprs => exact .same _ .noExprs
  | exprs _ _ ih ihs => exact (ih.seq ihs).imp fun ⟨he, hes⟩ => .exprs he hes
  | absent => exact .same _ .absent
  | present _ ih => exact ih.imp .present
  | body _ ih => exact ih.imp .body
  | noMethods => exact .same _ .noMethods
  | methods _ _ ih ihs => exact (ih.seq ihs).imp fun ⟨hf, hfs⟩ => .methods hf hfs
  | expression _ ih => exact ih.imp .expression
  | print _ ih => exact ih.imp .print
  | «let» _ ih => exact ih.imp .let
  | block _ ih => exact ih.imp .block
  | «if» _ _ _ ihc ihy ihn =>
    exact (ihc.seq (ihy.seq ihn)).imp fun ⟨hc, hy, hn⟩ => .if hc hy hn
  | «while» _ _ ihc ih => exact (ihc.seq ih).imp fun ⟨hc, hb⟩ => .while hc hb
  | @«for» _ _ _ c c' _ _ _ _ _ _ _ _ ihv ihc ihs ih =>
    have guarded : SerialAgree (Expr.serialOpt c) (Expr.serialOpt c')
        (Recast Eq (.expr (Expr.guard c)) (.expr (Expr.guard c'))) := by
      rw [Expr.serialOpt_eq_guard, Expr.serialOpt_eq_guard]
      exact ihc
    exact (ihv.seq (guarded.seq (ihs.seq ih))).imp fun ⟨hv, hc, hs, hb⟩ => .for hv hc hs hb
  | forBlock _ _ _ ihv ihc ih =>
    rw [Part.serial, Stmt.serial_for]
    exact (looped ihv ihc ih).imp fun ⟨hv, ⟨hc, hb⟩, _⟩ => .forBlock hv hc hb
  | blockFor _ _ _ ihv ihc ih =>
    rw [Part.serial, Part.serial, Stmt.serial_for]
    exact (looped ihv ihc ih).imp fun ⟨hv, ⟨hc, hb⟩, _⟩ => .blockFor hv hc hb
  | «break» => exact .same _ .break
  | «continue» => exact .same _ .continue
  | «return» _ ih => exact ih.imp .return
  | struct _ ih => exact ih.imp .struct
  | noAlternative => exact .same _ .noAlternative
  | alternative _ ih => exact ih.imp .alternative
  | noStmts => exact .same _ .noStmts
  | stmts _ _ ih ihs => exact (ih.seq ihs).imp fun ⟨hs, hss⟩ => .stmts hs hss

namespace Parser

/-! ## What rules number -/

/-- From the number that comes next, a rule that succeeds comes to a result and a number that have
    a property. -/
def Counts {α : Type} (n : Nat) (p : Parser α) (Q : α → Nat → Prop) : Prop :=
  ∀ ts a c, p ⟨ts, n⟩ = .ok a c → Q a c.nextSite

namespace Counts

variable {α β : Type} {n : Nat} {Q : α → Nat → Prop} {R : β → Nat → Prop}

theorem pure {a : α} (h : Q a n) : Counts n (Pure.pure a) Q := by
  rintro ts _ _ ⟨⟩
  exact h

theorem fault {f : SyntaxFault} : Counts n (Parser.fault f) Q := fun _ _ _ hc => nomatch hc

theorem throw {e : Error} : Counts n (MonadExcept.throw e) Q := fun _ _ _ hc => nomatch hc

theorem bind {p : Parser α} {q : α → Parser β} (hp : Counts n p Q)
    (hq : ∀ a n', Q a n' → Counts n' (q a) R) : Counts n (p >>= q) R := by
  intro ts b c hc
  simp only [Bind.bind, EStateM.bind] at hc
  cases hpc : p ⟨ts, n⟩ with
  | error e c₁ =>
    rw [hpc] at hc
    cases hc
  | ok a c₁ =>
    rw [hpc] at hc
    exact hq a c₁.nextSite (hp ts a c₁ hpc) c₁.rest b c hc

theorem map {p : Parser α} {k : α → β} (hp : Counts n p Q) (hk : ∀ a n', Q a n' → R (k a) n') :
    Counts n (p >>= fun a => Pure.pure (k a)) R := hp.bind fun a n' ha => .pure (hk a n' ha)

theorem ite {c : Prop} [Decidable c] {p q : Parser α} (hp : Counts n p Q) (hq : Counts n q Q) :
    Counts n (if c then p else q) Q := by
  split
  · exact hp
  · exact hq

/-- A rule that reads no site in front of another one. -/
theorem skip {p : Parser α} {q : α → Parser β} (hp : Counts n p fun _ n' => n' = n)
    (hq : ∀ a, Counts n (q a) R) : Counts n (p >>= q) R :=
  hp.bind fun a _ hn => hn ▸ hq a

theorem peek : Counts n peek fun _ n' => n' = n := by
  rintro ts _ _ ⟨⟩
  rfl

theorem advance : Counts n advance fun _ n' => n' = n := by
  rintro ts _ _ ⟨⟩
  rfl

theorem freshSite : Counts n freshSite fun s n' => serialSite s n = some n' := by
  rintro ts _ _ ⟨⟩
  exact if_pos rfl

theorem accept {kind : TokenKind} : Counts n (accept kind) fun _ n' => n' = n :=
  peek.skip fun _ => .ite (advance.skip fun _ => .pure rfl) (.pure rfl)

theorem expect {kind : TokenKind} {what : Expected} :
    Counts n (expect kind what) fun _ n' => n' = n :=
  peek.skip fun _ => .ite (advance.skip fun _ => .pure rfl) .fault

theorem name {what : Expected} : Counts n (name what) fun _ n' => n' = n :=
  expect.skip fun _ => .pure rfl

theorem parameters : ∀ {room : Nat}, Counts n (parameters room) fun _ n' => n' = n
  | 0 => .fault
  | _ + 1 => name.skip fun _ => accept.skip fun _ => .ite
      (parameters.skip fun _ => .pure rfl) (.pure rfl)

end Counts

/-- A rule that numbers what it reads. -/
def Numbers {α : Type} (p : Parser α) (part : α → Part) : Prop :=
  ∀ n, Counts n p fun a n' => (part a).serial n = some n'

/-! ## The rules of the grammar -/

/-- What the rules of the grammar number when they descend no deeper than a bound. -/
structure Serial (depth : Nat) : Prop where
  expression : Numbers (expression depth) .expr
  ternary : Numbers (ternary depth) .expr
  operation (level : Level) : Numbers (operation level depth) .expr
  operationRest (level : Level) (left : Expr) (n n' : Nat) : left.serial n = some n' →
    Counts n' (operationRest level left depth) fun e n' => e.serial n = some n'
  operand (level : Level) : Numbers (operand level depth) .expr
  unary : Numbers (unary depth) .expr
  function (title : Option Name) (line : Nat) : Numbers (function title line depth) .function
  callRest (callee : Expr) (n n' : Nat) : callee.serial n = some n' →
    Counts n' (callRest callee depth) fun e n' => e.serial n = some n'
  arguments (room : Nat) : Numbers (arguments room depth) .exprs
  primary : Numbers (primary depth) .expr
  declaration : Numbers (declaration depth) .stmt
  methods : Numbers (methods depth) .methods
  variableRest : Numbers (variableRest depth) fun r => .optional r.2
  optional (close : TokenKind) (what : Expected) : Numbers (optional close what depth) .optional
  statement : Numbers (statement depth) .stmt
  block : Numbers (block depth) .stmts

theorem serial_zero : Serial 0 where
  expression _ := .fault
  ternary _ := .fault
  operation _ _ := .fault
  operationRest _ _ _ _ _ := .fault
  operand _ _ := .fault
  unary _ := .fault
  function _ _ _ := .fault
  callRest _ _ _ _ := .fault
  arguments _ _ := .fault
  primary _ := .fault
  declaration _ := .fault
  methods _ := .fault
  variableRest _ := .fault
  optional _ _ _ := .fault
  statement _ := .fault
  block _ := .fault

namespace Serial

variable {depth : Nat} (d : Serial depth)
include d

theorem expression_succ : Numbers (Parser.expression (depth + 1)) .expr := by
  intro n
  unfold Parser.expression
  refine (d.ternary n).bind fun target n₁ htarget => Counts.peek.skip fun sign => .ite ?_
    (.pure htarget)
  refine Counts.advance.skip fun _ => (d.expression n₁).bind fun value n₂ hvalue => ?_
  split
  · next site _ =>
    have hnext : n₁ = n + 1 := serialSite_eq_succ htarget
    exact Counts.freshSite.map fun site n₃ hsite => serial_seq (hnext ▸ hvalue) hsite
  · exact .pure (serial_seq htarget hvalue)
  · exact .throw

theorem ternary_succ : Numbers (Parser.ternary (depth + 1)) .expr := by
  intro n
  unfold Parser.ternary
  refine (d.operation .or n).bind fun c n₁ hc => Counts.accept.skip fun _ => .ite ?_ (.pure hc)
  exact (d.ternary n₁).bind fun yes n₂ hyes => Counts.expect.skip fun _ =>
    (d.ternary n₂).map fun no n₃ hno => serial_seq hc (serial_seq hyes hno)

theorem operation_succ (level : Level) : Numbers (Parser.operation level (depth + 1)) .expr := by
  intro n
  unfold Parser.operation
  exact (d.operand level n).bind fun left n₁ hleft => d.operationRest level left n n₁ hleft

theorem operationRest_succ (level : Level) (left : Expr) (n n' : Nat)
    (hleft : left.serial n = some n') :
    Counts n' (Parser.operationRest level left (depth + 1)) fun e n' => e.serial n = some n' := by
  unfold Parser.operationRest
  refine Counts.peek.skip fun t => ?_
  split
  · exact .pure hleft
  · next op _ =>
    refine Counts.advance.skip fun _ => (d.operand level n').bind fun right n₁ hright =>
      d.operationRest level _ n n₁ ?_
    cases op <;> exact serial_seq hleft hright

theorem operand_succ (level : Level) : Numbers (Parser.operand level (depth + 1)) .expr := by
  intro n
  unfold Parser.operand
  split
  · exact d.operation _ n
  · exact d.unary n

theorem unary_succ : Numbers (Parser.unary (depth + 1)) .expr := by
  intro n
  unfold Parser.unary
  refine Counts.peek.skip fun t => ?_
  split
  · exact Counts.advance.skip fun _ => (d.unary n).map fun _ _ he => he
  · refine .ite (Counts.advance.skip fun _ => Counts.peek.skip fun _ => .ite ?_ ?_) ?_
    · exact Counts.name.skip fun _ => (d.function _ _ n).map fun _ _ hf => hf
    · exact (d.function _ _ n).map fun _ _ hf => hf
    · exact (d.primary n).bind fun callee n₁ hcallee => d.callRest callee n n₁ hcallee

theorem function_succ (title : Option Name) (line : Nat) :
    Numbers (Parser.function title line (depth + 1)) .function := by
  intro n
  unfold Parser.function
  have rest (params : List Name) : Counts n
      (do
        let _ ← expect .rightParen .parametersClose
        let _ ← expect .leftBrace .functionBody
        let body ← Parser.block depth
        return .mk title params body line)
      fun f n' => (Part.function f).serial n = some n' :=
    Counts.expect.skip fun _ => Counts.expect.skip fun _ => (d.block n).map fun _ _ hb => hb
  exact Counts.expect.skip fun _ => Counts.peek.skip fun _ => .ite (rest [])
    (Counts.parameters.skip rest)

theorem callRest_succ (callee : Expr) (n n' : Nat) (hcallee : callee.serial n = some n') :
    Counts n' (Parser.callRest callee (depth + 1)) fun e n' => e.serial n = some n' := by
  unfold Parser.callRest
  refine Counts.peek.skip fun t => ?_
  split
  · have rest (es : List Expr) (n₁ : Nat) (hes : Expr.serialAll es n' = some n₁) : Counts n₁
        (do
          let close ← expect .rightParen .argumentsClose
          Parser.callRest (.call callee close.line es) depth)
        fun e n' => e.serial n = some n' :=
      Counts.expect.skip fun _ => d.callRest _ n n₁ (serial_seq hcallee hes)
    exact Counts.advance.skip fun _ => Counts.peek.skip fun _ => .ite (rest [] n' rfl)
      ((d.arguments _ n').bind rest)
  · exact Counts.advance.skip fun _ => Counts.name.skip fun _ => d.callRest _ n n' hcallee
  · exact .pure hcallee

theorem arguments_succ (room : Nat) : Numbers (Parser.arguments room (depth + 1)) .exprs := by
  intro n
  unfold Parser.arguments
  cases room with
  | zero => exact .fault
  | succ room =>
    refine (d.expression n).bind fun e n₁ he => Counts.accept.skip fun _ => .ite ?_ ?_
    · exact (d.arguments room n₁).map fun es n₂ hes => serial_seq he hes
    · exact .pure (serial_seq he rfl)

theorem primary_succ : Numbers (Parser.primary (depth + 1)) .expr := by
  intro n
  unfold Parser.primary
  refine Counts.peek.skip fun t => ?_
  split
  any_goals exact Counts.advance.skip fun _ => .pure rfl
  · exact Counts.advance.skip fun _ => Counts.freshSite.map fun _ _ hs => hs
  · exact Counts.advance.skip fun _ => Counts.freshSite.map fun _ _ hs => hs
  · exact Counts.advance.skip fun _ => (d.expression n).bind fun _ _ he =>
      Counts.expect.skip fun _ => .pure he
  · exact .fault

theorem declaration_succ : Numbers (Parser.declaration (depth + 1)) .stmt := by
  intro n
  unfold Parser.declaration
  refine Counts.peek.skip fun t => ?_
  split
  · exact Counts.advance.skip fun _ => Counts.name.skip fun _ => Counts.expect.skip fun _ =>
      (d.methods n).map fun _ _ hm => hm
  · exact Counts.advance.skip fun _ => (d.variableRest n).map fun _ _ hv => hv
  · exact d.statement n

theorem methods_succ : Numbers (Parser.methods (depth + 1)) .methods := by
  intro n
  unfold Parser.methods
  refine Counts.peek.skip fun t => ?_
  split
  · exact Counts.advance.skip fun _ => .pure rfl
  · exact .fault
  · exact Counts.accept.skip fun _ => Counts.name.skip fun _ => (d.function _ _ n).bind
      fun _ n₁ hf => (d.methods n₁).map fun _ _ hfs => serial_seq hf hfs

theorem variableRest_succ :
    Numbers (Parser.variableRest (depth + 1)) fun r => .optional r.2 := by
  intro n
  unfold Parser.variableRest
  refine Counts.name.skip fun _ => Counts.accept.skip fun _ => .ite ?_ ?_
  · exact (d.expression n).bind fun _ _ he => Counts.expect.skip fun _ => .pure he
  · exact Counts.expect.skip fun _ => .pure rfl

theorem optional_succ (close : TokenKind) (what : Expected) :
    Numbers (Parser.optional close what (depth + 1)) .optional := by
  intro n
  unfold Parser.optional
  refine Counts.accept.skip fun _ => .ite (.pure rfl) ?_
  exact (d.expression n).bind fun _ _ he => Counts.expect.skip fun _ => .pure he

theorem statement_succ : Numbers (Parser.statement (depth + 1)) .stmt := by
  intro n
  unfold Parser.statement
  refine Counts.peek.skip fun t => ?_
  split
  · refine Counts.advance.skip fun _ => Counts.expect.skip fun _ => Counts.expect.skip fun _ =>
      (d.variableRest n).bind fun _ n₁ hv => (d.optional _ _ n₁).bind fun _ n₂ hc =>
        (d.optional _ _ n₂).bind fun _ n₃ hs => (d.statement n₃).map fun _ _ hb => ?_
    exact serial_seq hv (serial_seq hc (serial_seq hs hb))
  · refine Counts.advance.skip fun _ => Counts.expect.skip fun _ => (d.expression n).bind
      fun _ n₁ hc => Counts.expect.skip fun _ => (d.statement n₁).bind fun _ n₂ hy =>
        Counts.accept.skip fun _ => .ite ?_ ?_
    · exact (d.statement n₂).map fun _ _ hn => serial_seq hc (serial_seq hy hn)
    · exact .pure (serial_seq hc (serial_seq hy rfl))
  · exact Counts.advance.skip fun _ => Counts.expect.skip fun _ => (d.expression n).bind
      fun _ n₁ hc => Counts.expect.skip fun _ => (d.statement n₁).map fun _ _ hb =>
        serial_seq hc hb
  · exact Counts.advance.skip fun _ => (d.optional _ _ n).map fun _ _ hv => hv
  · exact Counts.advance.skip fun _ => Counts.expect.skip fun _ => .pure rfl
  · exact Counts.advance.skip fun _ => Counts.expect.skip fun _ => .pure rfl
  · exact Counts.advance.skip fun _ => (d.block n).map fun _ _ hb => hb
  · exact Counts.advance.skip fun _ => (d.expression n).bind fun _ _ he =>
      Counts.expect.skip fun _ => .pure he
  · refine (d.expression n).bind fun _ _ he => ?_
    split
    · exact Counts.accept.skip fun _ => .pure he
    · exact Counts.expect.skip fun _ => .pure he

theorem block_succ : Numbers (Parser.block (depth + 1)) .stmts := by
  intro n
  unfold Parser.block
  refine Counts.peek.skip fun t => ?_
  split
  · exact Counts.advance.skip fun _ => .pure rfl
  · exact .fault
  · exact (d.declaration n).bind fun _ n₁ hs => (d.block n₁).map fun _ _ hss => serial_seq hs hss

theorem succ : Serial (depth + 1) where
  expression := d.expression_succ
  ternary := d.ternary_succ
  operation := d.operation_succ
  operationRest := d.operationRest_succ
  operand := d.operand_succ
  unary := d.unary_succ
  function := d.function_succ
  callRest := d.callRest_succ
  arguments := d.arguments_succ
  primary := d.primary_succ
  declaration := d.declaration_succ
  methods := d.methods_succ
  variableRest := d.variableRest_succ
  optional := d.optional_succ
  statement := d.statement_succ
  block := d.block_succ

end Serial

/-- **Every rule of the grammar numbers what it reads.** -/
theorem serial : ∀ depth, Serial depth
  | 0 => serial_zero
  | depth + 1 => (serial depth).succ

end Parser

/-! ## Programs -/

theorem parseUpTo_serial (depth : Nat) : ∀ (count : Nat) {c c' : Cursor} {ss : List Stmt},
    parseUpTo depth count c = ((ss, none), c') →
      Stmt.serialAll ss c.nextSite = some c'.nextSite := by
  intro count
  induction count with
  | zero =>
    rintro c _ _ ⟨⟩
    rfl
  | succ count ih =>
    intro c c' ss h
    unfold parseUpTo at h
    split at h
    · cases h
      rfl
    · cases hd : Parser.declaration depth c with
      | error e c₁ =>
        rw [hd] at h
        cases h
      | ok s c₁ =>
        rw [hd] at h
        dsimp only at h
        generalize hrest : parseUpTo depth count c₁ = outcome at h
        obtain ⟨⟨ss', e⟩, c₂⟩ := outcome
        cases h
        exact serial_seq ((Parser.serial depth).declaration c.nextSite c.rest s c₁ hd) (ih hrest)

/-- **A parsed program has the numbers from the given one on.** -/
theorem parse_serial {site site' : Nat} {ts : List Token} {program : List Stmt}
    (h : parse site ts = (.ok program, site')) :
    (Part.stmts program).serial site = some site' := by
  have hserial := @parseUpTo_serial (Parser.depthBound ts) ts.length ⟨ts, site⟩
  unfold parse parsePartial at h
  generalize parseUpTo (Parser.depthBound ts) ts.length ⟨ts, site⟩ = outcome at h hserial
  obtain ⟨⟨ss, _ | e⟩, c⟩ := outcome
  · cases h
    exact hserial rfl
  · cases h

/-- **Texts that differ only in how loops are written have the same sites**, when they are read
    from the same number on. -/
theorem Eval.parseText_recast {same : Nat → Nat → Prop} {m m₁ m₂ : Machine}
    {source source' : String} {program program' : List Stmt}
    (h : Eval.parseText source m = some (.ok program, m₁))
    (h' : Eval.parseText source' m = some (.ok program', m₂))
    (hr : Recast same (.stmts program) (.stmts program')) :
    m₂ = m₁ ∧ Recast Eq (.stmts program) (.stmts program') := by
  have numbered {source : String} {program : List Stmt} {m₁ : Machine}
      (h : Eval.parseText source m = some (.ok program, m₁)) :
      ∃ site, m₁ = { m with nextSite := site } ∧
        (Part.stmts program).serial m.nextSite = some site := by
    rw [Eval.parseText_apply] at h
    split at h
    · cases h
    · next ts _ =>
      obtain ⟨hok, rfl⟩ := Prod.mk.inj (Option.some.inj h)
      exact ⟨_, rfl, parse_serial (Prod.ext hok rfl)⟩
  obtain ⟨site, rfl, hs⟩ := numbered h
  obtain ⟨site', rfl, hs'⟩ := numbered h'
  obtain ⟨rfl, hrecast⟩ := hr.exact _ _ _ hs hs'
  exact ⟨rfl, hrecast⟩

end Scriptling
