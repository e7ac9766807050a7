import Ember.Source.Program.Parser

/-!
# The grammar of programs

What it is for tokens to write a program, said without the parser. A phrase is an expression as it
may stand in some position: operators bind the tighter the further down they stand in

    or < and < comparisons < sums < products < `!` and `-` < attributes and calls,

binary ones group to the left, and parentheses may stand around any expression. `Written n p ts`
says that the tokens write the phrase with at most `n` expression levels open at once; the
expression itself, parentheses, arguments and unary operators each open one. `Laid m f ts` says the
same of statements and blocks, with at most `m` blocks one inside the other.

A statement may be followed by a semicolon. It has to be if the token behind could go on with the
statement (`Statement.Stops`): in `f; (x)` the semicolon keeps `f` from being called.
-/

namespace Ember.Source

open Ember.Source.Parser

/-! ## Lexemes in expressions -/

/-- The lexeme of an expression without parts. -/
inductive Leaf : Expr → Lexeme → Prop
  | integer (n : Int64) : Leaf (.integer n) (.integer n)
  | float (x : Float) : Leaf (.float x) (.float x)
  | text (s : String) : Leaf (.text s) (.text s)
  | name (s : String) : Leaf (.variable s) (.name s)
  | true_ : Leaf (.bool true) (.keyword .true_)
  | false_ : Leaf (.bool false) (.keyword .false_)
  | nil : Leaf .nil (.keyword .nil)

def BinaryOp.level : BinaryOp → Level
  | or => .either
  | and => .both
  | operator .eq | operator .ne | operator .lt | operator .gt | operator .le | operator .ge =>
    .comparison
  | operator .add | operator .sub => .sum
  | operator .mul | operator .div | operator .mod => .product

def BinaryOp.spellings : BinaryOp → List Lexeme
  | or => [.symbol .either, .keyword .or]
  | and => [.symbol .both, .keyword .and]
  | operator .eq => [.symbol .equal]
  | operator .ne => [.symbol .notEqual]
  | operator .lt => [.symbol .less]
  | operator .gt => [.symbol .greater]
  | operator .le => [.symbol .atMost]
  | operator .ge => [.symbol .atLeast]
  | operator .add => [.symbol .plus]
  | operator .sub => [.symbol .minus]
  | operator .mul => [.symbol .star]
  | operator .div => [.symbol .slash]
  | operator .mod => [.symbol .percent]

def UnaryOp.spellings : UnaryOp → List Lexeme
  | not => [.symbol .bang, .keyword .not]
  | neg => [.symbol .minus]

theorem UnaryOp.ne_finish {op : UnaryOp} {x : Lexeme} (h : x ∈ op.spellings) : x ≠ .finish := by
  rintro rfl
  cases op <;> simp [spellings] at h

theorem BinaryOp.ne_finish {op : BinaryOp} {x : Lexeme} (h : x ∈ op.spellings) :
    x ≠ .finish := by
  rintro rfl
  rcases op with ⟨_ | _⟩ | _ | _ <;> simp [spellings] at h

/-! ## Expressions -/

/-- An expression, or the arguments of a call, as it may stand in some position. -/
inductive Phrase where
  | whole (e : Expr)
  /-- With operators of this level or tighter ones outermost. -/
  | binary (l : Level) (e : Expr)
  | unary (e : Expr)
  /-- With attributes and calls behind it. -/
  | trailed (e : Expr)
  | primary (e : Expr)
  | args (es : List Expr)

/-- The operands of a level's operators. The left ones may have operators of the same level. -/
def Phrase.operand : Level → Expr → Phrase
  | .either => binary .both
  | .both => binary .comparison
  | .comparison => binary .sum
  | .sum => binary .product
  | .product => unary

theorem Phrase.operand_ne_args {l : Level} {e : Expr} {es : List Expr} :
    operand l e ≠ args es := by
  cases l <;> nofun

/-- The tokens write the phrase, with at most so many expression levels open at once. -/
inductive Written : Nat → Phrase → List Token → Prop
  | leaf {n : Nat} {e : Expr} {x : Lexeme} {p : Place} : Leaf e x → Written n (.primary e) [⟨x, p⟩]
  | parens {n : Nat} {e : Expr} {ts : List Token} {p q : Place} : Written n (.whole e) ts →
    Written n (.primary e) (⟨.symbol .openParen, p⟩ :: (ts ++ [⟨.symbol .closeParen, q⟩]))
  | primary {n : Nat} {e : Expr} {ts : List Token} : Written n (.primary e) ts →
    Written n (.trailed e) ts
  | member {n : Nat} {e : Expr} {x : String} {ts : List Token} {p q : Place} :
    Written n (.trailed e) ts →
    Written n (.trailed (.attribute e x)) (ts ++ [⟨.symbol .dot, p⟩, ⟨.name x, q⟩])
  | call {n : Nat} {e : Expr} {es : List Expr} {ts us : List Token} {p q : Place} :
    Written n (.trailed e) ts → Written n (.args es) us →
    Written n (.trailed (.call e es))
      (ts ++ ⟨.symbol .openParen, p⟩ :: (us ++ [⟨.symbol .closeParen, q⟩]))
  | noArgs {n : Nat} : Written n (.args []) []
  | lastArg {n : Nat} {e : Expr} {ts : List Token} : Written n (.whole e) ts →
    Written n (.args [e]) ts
  | moreArgs {n : Nat} {e f : Expr} {es : List Expr} {ts us : List Token} {p : Place} :
    Written n (.whole e) ts → Written n (.args (f :: es)) us →
    Written n (.args (e :: f :: es)) (ts ++ ⟨.symbol .comma, p⟩ :: us)
  | trailed {n : Nat} {e : Expr} {ts : List Token} : Written n (.trailed e) ts →
    Written n (.unary e) ts
  | unary {n : Nat} {op : UnaryOp} {x : Lexeme} {e : Expr} {ts : List Token} {p : Place} :
    x ∈ op.spellings → Written n (.unary e) ts →
    Written (n + 1) (.unary (.unary op e)) (⟨x, p⟩ :: ts)
  | operand {n : Nat} {l : Level} {e : Expr} {ts : List Token} : Written n (.operand l e) ts →
    Written n (.binary l e) ts
  | binary {n : Nat} {op : BinaryOp} {x : Lexeme} {a b : Expr} {ts us : List Token} {p : Place} :
    Written n (.binary op.level a) ts → x ∈ op.spellings → Written n (.operand op.level b) us →
    Written n (.binary op.level (.binary op a b)) (ts ++ ⟨x, p⟩ :: us)
  | whole {n : Nat} {e : Expr} {ts : List Token} : Written n (.binary .either e) ts →
    Written (n + 1) (.whole e) ts

/-- Can an expression begin with it? -/
def Lexeme.opens : Lexeme → Bool
  | .integer _ | .float _ | .text _ | .name _ => true
  | .keyword k => k ∈ [Keyword.true_, .false_, .nil, .not]
  | .symbol s => s ∈ [Symbol.bang, .minus, .openParen]
  | .finish => false

/-- A phrase that is not an empty list of arguments begins as an expression does. -/
theorem Written.opens {n : Nat} {p : Phrase} {ts : List Token} (h : Written n p ts)
    (hp : p ≠ .args []) : ∃ t us, ts = t :: us ∧ t.lexeme.opens := by
  induction h with
  | leaf h => cases h <;> exact ⟨_, _, rfl, rfl⟩
  | parens => exact ⟨_, _, rfl, rfl⟩
  | @unary _ op _ _ _ _ hx =>
    refine ⟨_, _, rfl, ?_⟩
    cases op <;> simp only [UnaryOp.spellings, List.mem_cons, List.not_mem_nil, or_false] at hx
    · rw [hx]
      rfl
    · rcases hx with rfl | rfl <;> rfl
  | noArgs => exact absurd rfl hp
  | primary _ ih | lastArg _ ih | trailed _ ih | whole _ ih => exact ih nofun
  | operand _ ih => exact ih Phrase.operand_ne_args
  | member _ ih | call _ _ ih | moreArgs _ _ ih | binary _ _ _ ih =>
    obtain ⟨t, us, rfl, ho⟩ := ih nofun
    exact ⟨t, _, rfl, ho⟩

theorem Written.length_pos {n : Nat} {p : Phrase} {ts : List Token} (h : Written n p ts)
    (hp : p ≠ .args []) : 0 < ts.length := by
  obtain ⟨t, us, rfl, -⟩ := h.opens hp
  exact Nat.succ_pos _

/-- The tokens write the expression within the limits. -/
structure Expression (e : Expr) (ts : List Token) : Prop where
  written : Written 100 (.whole e) ts
  depth : e.depth ≤ 1000

/-! ## Statements -/

/-- Names with a symbol between them. -/
inductive Names (s : Symbol) : List String → List Token → Prop
  | last {x : String} {p : Place} : Names s [x] [⟨.name x, p⟩]
  | more {x : String} {xs : List String} {ts : List Token} {p q : Place} : Names s xs ts →
    Names s (x :: xs) (⟨.name x, p⟩ :: ⟨.symbol s, q⟩ :: ts)

/-- The parameters of a function. -/
inductive Parameters : List String → List Token → Prop
  | none : Parameters [] []
  | some {xs : List String} {ts : List Token} : Names .comma xs ts → xs.Nodup → Parameters xs ts

/-- How tightly a lexeme binds what stands before it; zero if it does not go on with it. -/
def Lexeme.hold : Lexeme → Nat
  | .symbol .either | .keyword .or => 1
  | .symbol .both | .keyword .and => 2
  | .symbol .greater | .symbol .less | .symbol .atLeast | .symbol .atMost | .symbol .equal
  | .symbol .notEqual => 3
  | .symbol .plus | .symbol .minus => 4
  | .symbol .star | .symbol .slash | .symbol .percent => 5
  | .symbol .dot | .symbol .openParen => 6
  | _ => 0

/-- The token does not go on with the statement: an expression ends before it, or it does not stand
on the line of a `return`. -/
def Statement.Stops : Statement → Token → Prop
  | .assign .., t | .setAttribute .., t | .expr .., t | .raise .., t | .give _ (some _), t =>
    t.lexeme.hold = 0
  | .give line none, t => t.place.line ≠ line
  | _, _ => True

/-- A part of a program. -/
inductive Form where
  | statement (s : Statement)
  /-- What follows the word `if`. -/
  | conditional (s : Statement)
  | block (body : List Statement)
  | statements (ss : List Statement)

/-- The tokens write a part of a program, with at most so many blocks one inside the other. -/
inductive Laid : Nat → Form → List Token → Prop
  | let_ {m : Nat} {x : String} {e : Expr} {ts : List Token} {p q r : Place} : Expression e ts →
    Laid m (.statement (.assign p.line x e))
      (⟨.keyword .let_, p⟩ :: ⟨.name x, q⟩ :: ⟨.symbol .assign, r⟩ :: ts)
  | assign {m : Nat} {x : String} {e : Expr} {t : Token} {ts us : List Token} {q : Place} :
    Expression (.variable x) (t :: ts) → Expression e us →
    Laid m (.statement (.assign t.place.line x e)) (t :: ts ++ ⟨.symbol .assign, q⟩ :: us)
  | setAttribute {m : Nat} {o : Expr} {x : String} {e : Expr} {t : Token} {ts us : List Token}
      {q : Place} : Expression (.attribute o x) (t :: ts) → Expression e us →
    Laid m (.statement (.setAttribute t.place.line o x e)) (t :: ts ++ ⟨.symbol .assign, q⟩ :: us)
  | expr {m : Nat} {e : Expr} {t : Token} {ts : List Token} : Expression e (t :: ts) →
    Laid m (.statement (.expr t.place.line e)) (t :: ts)
  | give {m : Nat} {p : Place} : Laid m (.statement (.give p.line none)) [⟨.keyword .return_, p⟩]
  /-- The value starts on the line of `return`. -/
  | giveValue {m : Nat} {e : Expr} {t : Token} {ts : List Token} {p : Place} :
    Expression e (t :: ts) → t.place.line = p.line →
    Laid m (.statement (.give p.line (some e))) (⟨.keyword .return_, p⟩ :: t :: ts)
  | raise {m : Nat} {e : Expr} {ts : List Token} {p : Place} : Expression e ts →
    Laid m (.statement (.raise p.line e)) (⟨.keyword .raise, p⟩ :: ts)
  | use {m : Nat} {xs : List String} {ts : List Token} {p : Place} : Names .dot xs ts →
    Laid m (.statement (.use p.line (".".intercalate xs) none)) (⟨.keyword .import_, p⟩ :: ts)
  | useAs {m : Nat} {xs : List String} {y : String} {ts : List Token} {p q r : Place} :
    Names .dot xs ts →
    Laid m (.statement (.use p.line (".".intercalate xs) (some y)))
      (⟨.keyword .import_, p⟩ :: (ts ++ [⟨.keyword .as, q⟩, ⟨.name y, r⟩]))
  | loop {m : Nat} {e : Expr} {body : List Statement} {ts us : List Token} {p : Place} :
    Expression e ts → Laid m (.block body) us →
    Laid m (.statement (.loop p.line e body)) (⟨.keyword .while_, p⟩ :: (ts ++ us))
  | function {m : Nat} {f : String} {xs : List String} {body : List Statement} {ts us : List Token}
      {p q r z : Place} : Parameters xs ts → Laid m (.block body) us →
    Laid m (.statement (.function p.line f xs body))
      (⟨.keyword .func, p⟩ :: ⟨.name f, q⟩ :: ⟨.symbol .openParen, r⟩ ::
        (ts ++ ⟨.symbol .closeParen, z⟩ :: us))
  | conditional {m : Nat} {s : Statement} {ts : List Token} {p : Place} :
    Laid m (.conditional s) ts → s.line = p.line →
    Laid m (.statement s) (⟨.keyword .if_, p⟩ :: ts)
  | when {m line : Nat} {e : Expr} {body : List Statement} {ts us : List Token} :
    Expression e ts → Laid m (.block body) us →
    Laid m (.conditional (.when line e body)) (ts ++ us)
  | choose {m line : Nat} {e : Expr} {body other : List Statement} {ts us vs : List Token}
      {p : Place} : Expression e ts → Laid m (.block body) us → Laid m (.block other) vs →
    Laid m (.conditional (.choose line e body other)) (ts ++ (us ++ ⟨.keyword .else_, p⟩ :: vs))
  /-- In place of a block with one `if`. -/
  | elseIf {m line : Nat} {e : Expr} {body : List Statement} {s : Statement}
      {ts us vs : List Token} {p q : Place} : Expression e ts → Laid (m + 1) (.block body) us →
    Laid m (.conditional s) vs → s.line = q.line →
    Laid (m + 1) (.conditional (.choose line e body [s]))
      (ts ++ (us ++ ⟨.keyword .else_, p⟩ :: ⟨.keyword .if_, q⟩ :: vs))
  | block {m : Nat} {body : List Statement} {ts : List Token} {p q : Place} :
    Laid m (.statements body) ts →
    Laid (m + 1) (.block body) (⟨.symbol .openBrace, p⟩ :: (ts ++ [⟨.symbol .closeBrace, q⟩]))
  | nil {m : Nat} : Laid m (.statements []) []
  | followed {m : Nat} {s : Statement} {ss : List Statement} {ts us : List Token} {p : Place} :
    Laid m (.statement s) ts → Laid m (.statements ss) us →
    Laid m (.statements (s :: ss)) (ts ++ ⟨.symbol .semicolon, p⟩ :: us)
  | bare {m : Nat} {s : Statement} {ss : List Statement} {ts us : List Token} :
    Laid m (.statement s) ts → Laid m (.statements ss) us → (∀ t ∈ us.head?, s.Stops t) →
    Laid m (.statements (s :: ss)) (ts ++ us)
  | semicolon {m : Nat} {ss : List Statement} {ts : List Token} {p : Place} :
    Laid m (.statements ss) ts → Laid m (.statements ss) (⟨.symbol .semicolon, p⟩ :: ts)

/-- Can a statement begin with it? -/
def Lexeme.begins : Lexeme → Bool
  | .keyword .let_ | .keyword .func | .keyword .if_ | .keyword .while_ | .keyword .return_
  | .keyword .import_ | .keyword .raise => true
  | x => x.opens

theorem Lexeme.begins_of_opens {x : Lexeme} (h : x.opens) : x.begins := by
  unfold begins
  split <;> trivial

theorem Expression.opens {e : Expr} {t : Token} {ts : List Token} (h : Expression e (t :: ts)) :
    t.lexeme.opens := by
  obtain ⟨_, _, ht, ho⟩ := h.written.opens nofun
  cases ht
  exact ho

theorem Laid.begins {m : Nat} {s : Statement} {ts : List Token} (h : Laid m (.statement s) ts) :
    ∃ t us, ts = t :: us ∧ t.lexeme.begins := by
  cases h with
  | assign h | setAttribute h | expr h => exact ⟨_, _, rfl, Lexeme.begins_of_opens h.opens⟩
  | _ => exact ⟨_, _, rfl, rfl⟩

theorem Laid.length_pos {m : Nat} {s : Statement} {ts : List Token}
    (h : Laid m (.statement s) ts) : 0 < ts.length := by
  obtain ⟨t, us, rfl, -⟩ := h.begins
  exact Nat.succ_pos _

/-- Statements begin with one of them or with a semicolon. -/
theorem Laid.head {m : Nat} {ss : List Statement} {t : Token} {ts us : List Token}
    (h : Laid m (.statements ss) ts) (ht : ts = t :: us) :
    t.lexeme = .symbol .semicolon ∨ t.lexeme.begins := by
  cases h with
  | nil => cases ht
  | followed h | bare h =>
    obtain ⟨_, _, rfl, hb⟩ := h.begins
    cases ht
    exact .inr hb
  | semicolon =>
    cases ht
    exact .inl rfl

/-! ## Programs -/

/-- None of the tokens is an end. -/
def NoEnd (ts : List Token) : Prop := ∀ t ∈ ts, t.lexeme ≠ .finish

@[simp] theorem noEnd_nil : NoEnd [] := nofun

@[simp] theorem noEnd_cons {t : Token} {ts : List Token} :
    NoEnd (t :: ts) ↔ t.lexeme ≠ .finish ∧ NoEnd ts := List.forall_mem_cons

@[simp] theorem noEnd_append {ts us : List Token} : NoEnd (ts ++ us) ↔ NoEnd ts ∧ NoEnd us :=
  List.forall_mem_append

theorem Written.noEnd {n : Nat} {p : Phrase} {ts : List Token} (h : Written n p ts) :
    NoEnd ts := by
  induction h with
  | leaf h => cases h <;> simp
  | unary hx _ ih => simp [UnaryOp.ne_finish hx, ih]
  | binary _ hx _ iha ihb => simp [BinaryOp.ne_finish hx, iha, ihb]
  | noArgs => exact noEnd_nil
  | primary _ ih | lastArg _ ih | trailed _ ih | operand _ ih | whole _ ih => exact ih
  | parens _ ih | member _ ih => simp [ih]
  | call _ _ ih ihs | moreArgs _ _ ih ihs => simp [ih, ihs]

theorem Names.noEnd {s : Symbol} {xs : List String} {ts : List Token} (h : Names s xs ts) :
    NoEnd ts := by
  induction h with
  | last => simp
  | more _ ih => simp [ih]

theorem Parameters.noEnd {xs : List String} {ts : List Token} (h : Parameters xs ts) :
    NoEnd ts := by
  cases h with
  | none => exact noEnd_nil
  | some h => exact h.noEnd

theorem Laid.noEnd {m : Nat} {f : Form} {ts : List Token} (h : Laid m f ts) : NoEnd ts := by
  induction h with
  | let_ he | raise he => simp [he.written.noEnd]
  | assign ht he | setAttribute ht he => exact noEnd_append.2 ⟨ht.written.noEnd, by
      simp [he.written.noEnd]⟩
  | expr he => exact he.written.noEnd
  | giveValue he => exact noEnd_cons.2 ⟨nofun, he.written.noEnd⟩
  | give | nil => simp
  | use hx | useAs hx => simp [hx.noEnd]
  | function hx _ ih => simp [hx.noEnd, ih]
  | loop he _ ih | when he _ ih => simp [he.written.noEnd, ih]
  | choose he _ _ ihb ihs | elseIf he _ _ _ ihb ihs => simp [he.written.noEnd, ihb, ihs]
  | conditional _ _ ih | block _ ih | semicolon _ ih => simp [ih]
  | followed _ _ ihs ih | bare _ _ _ ihs ih => simp [ihs, ih]

/-- The tokens in front of the first end. -/
def beforeEnd : List Token → List Token
  | [] => []
  | ⟨.finish, _⟩ :: _ => []
  | t :: ts => t :: beforeEnd ts

/-- The tokens begin with an end, or there are none. -/
def AtEnd (ts : List Token) : Prop := ∀ t ∈ ts.head?, t.lexeme = .finish

theorem beforeEnd_append {us vs : List Token} (hu : NoEnd us) (hv : AtEnd vs) :
    beforeEnd (us ++ vs) = us := by
  induction us with
  | nil =>
    obtain _ | ⟨⟨x, p⟩, vs⟩ := vs
    · rfl
    · obtain rfl : x = .finish := hv _ rfl
      rfl
  | cons t us ih =>
    obtain ⟨ht, hus⟩ := noEnd_cons.1 hu
    obtain ⟨x, p⟩ := t
    rw [List.cons_append, beforeEnd, ih hus]
    rintro _ ⟨⟩
    exact ht rfl

theorem exists_eq_beforeEnd_append (ts : List Token) :
    ∃ vs, ts = beforeEnd ts ++ vs ∧ AtEnd vs := by
  fun_induction beforeEnd ts with
  | case1 => exact ⟨[], rfl, nofun⟩
  | case2 p ts => exact ⟨_, rfl, by rintro _ ⟨⟩; rfl⟩
  | case3 t ts _ ih =>
    obtain ⟨vs, hvs, hend⟩ := ih
    exact ⟨vs, by rw [List.cons_append, ← hvs], hend⟩

/-- The tokens write the program within the limits. -/
def Renders (p : Program) (ts : List Token) : Prop := Laid 100 (.statements p) ts

end Ember.Source
