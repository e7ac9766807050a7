import Ember.Proofs.Code.Heights

/-!
# Code without loops

The only statement whose code jumps back is the loop. In the code of a program without loops every
instruction goes on behind itself, the functions that it makes have bodies without loops, and its
constants refer to no objects (`straight_blockCode`).
-/

namespace Ember

namespace Source

mutual

/-- Is there a loop in a statement, be it in a function that it defines? -/
def Statement.hasLoop : Statement → Bool
  | .loop .. => true
  | .when _ _ body | .function _ _ _ body => hasLoopIn body
  | .choose _ _ body other => hasLoopIn body || hasLoopIn other
  | .assign .. | .setAttribute .. | .give .. | .expr .. | .use .. | .raise .. => false

def hasLoopIn : List Statement → Bool
  | [] => false
  | st :: rest => st.hasLoop || hasLoopIn rest

end

/-- A source text, if it is a program, is one without loops. -/
def LoopFree (source : String) : Prop :=
  ∀ file program, Program.parse source file = .ok program → hasLoopIn program = false

end Source

namespace Code

open Source (Expr Statement hasLoopIn)

/-- What holds of the instruction at the index `k` of code without loops. -/
structure Straight (k : Nat) (i : Instr) : Prop where
  successors : ∀ next ∈ i.successors (k + 1), k < next
  makeFunction : ∀ name params body, i = .makeFunction name params body →
    ∃ line b, body = bodyCode line b ∧ hasLoopIn b = false
  constant : ∀ v, i = .push v → v.node? = none

/-- What holds of a whole chunk without loops. -/
def Chunk.Straight (code : Chunk) : Prop :=
  ∀ k i line, code[k]? = some (i, line) → Code.Straight k i

/-! ## Expressions -/

section Expressions

variable {k : Nat} {i : Instr}

theorem Straight.of_quiet (hs : ∀ next ∈ i.successors (k + 1), k < next)
    (hm : ∀ name params body, i ≠ .makeFunction name params body) (hp : ∀ v, i ≠ .push v) :
    Straight k i :=
  ⟨hs, fun name params body h => absurd h (hm name params body), fun v h => absurd h (hp v)⟩

theorem Straight.of_next (hs : i.successors (k + 1) ⊆ [k + 1])
    (hm : ∀ name params body, i ≠ .makeFunction name params body) (hp : ∀ v, i ≠ .push v) :
    Straight k i := by
  refine .of_quiet (fun next h => ?_) hm hp
  rw [List.mem_singleton.1 (hs h)]
  exact Nat.lt_succ_self k

theorem straight_push {v : Value} (hv : v.node? = none) : Straight k (.push v) := by
  refine ⟨fun next h => ?_, nofun, fun w h => ?_⟩
  · rw [List.mem_singleton.1 h]
    exact Nat.lt_succ_self k
  · cases h
    exact hv

theorem straight_jump {target : Nat} (h : k < target) : Straight k (.jump target) := by
  refine .of_quiet (fun next hn => ?_) nofun nofun
  rw [List.mem_singleton.1 hn]
  exact h

theorem straight_jumpIfFalse {target : Nat} (h : k < target) :
    Straight k (.jumpIfFalse target) := by
  refine .of_quiet (fun next hn => ?_) nofun nofun
  rcases List.mem_pair.1 hn with rfl | rfl
  · exact Nat.lt_succ_self k
  · exact h

theorem straight_asBool (start : Nat) : EachAt Straight start asBool :=
  .cons (.of_next (by simp [Instr.successors]) nofun nofun)
    (.single (.of_next (by simp [Instr.successors]) nofun nofun))

mutual

/-- The code of expressions jumps forward only. -/
theorem straight_exprCode : ∀ (e : Expr) (start : Nat), EachAt Straight start (exprCode start e)
  | .integer _, _ | .float _, _ | .text _, _ | .bool _, _ | .nil, _ => .single (straight_push rfl)
  | .variable _, _ => .single (.of_next (by simp [Instr.successors]) nofun nofun)
  | .binary (.operator op) l r, start => by
    refine ((straight_exprCode l start).append (straight_exprCode r _)).append (.single ?_)
    exact .of_next (by simp [Instr.successors]) nofun nofun
  | .binary .and l r, start => by
    have hl := straight_exprCode l start
    have hr := straight_exprCode r (start + exprSize l + 1)
    simp only [exprCode, length_exprCode, List.length_append, length_asBool]
    refine ((hl.append (.single ?_)).append (.append ?_ (straight_asBool _))).append
      (.cons ?_ (.single (straight_push rfl)))
    · refine straight_jumpIfFalse ?_
      rw [length_exprCode]
      omega
    · rw [List.length_append, length_exprCode, List.length_singleton, ← Nat.add_assoc]
      exact hr
    · refine straight_jump ?_
      simp only [List.length_append, length_exprCode, List.length_singleton, length_asBool]
      omega
  | .binary .or l r, start => by
    have hl := straight_exprCode l start
    have hr := straight_exprCode r (start + exprSize l + 3)
    simp only [exprCode, length_exprCode, List.length_append, length_asBool]
    refine (hl.append (.cons ?_ (.cons (straight_push rfl) (.single ?_)))).append
      (.append ?_ (straight_asBool _))
    · refine straight_jumpIfFalse ?_
      rw [length_exprCode]
      omega
    · refine straight_jump ?_
      rw [length_exprCode]
      omega
    · rw [List.length_append, length_exprCode, ← Nat.add_assoc]
      exact hr
  | .unary .neg e, start | .unary .not e, start | .attribute e _, start => by
    refine (straight_exprCode e start).append (.single ?_)
    exact .of_next (by simp [Instr.successors]) nofun nofun
  | .call f args, start => by
    refine ((straight_exprCode f start).append (straight_argsCode args _)).append (.single ?_)
    exact .of_next (by simp [Instr.successors]) nofun nofun

theorem straight_argsCode : ∀ (es : List Expr) (start : Nat),
    EachAt Straight start (argsCode start es)
  | [], _ => .nil
  | e :: es, start => (straight_exprCode e start).append (straight_argsCode es _)

end

end Expressions

/-! ## Statements -/

/-- The test of a condition, and a jump forward. -/
theorem straight_test (line : Nat) (condition : Expr) {start target : Nat}
    (h : start + exprSize condition < target) : EachAt (fun k x => Straight k x.1) start
      (lined line (exprCode start condition ++ [.jumpIfFalse target])) := by
  refine EachAt.lined ((straight_exprCode condition start).append (.single ?_))
  refine straight_jumpIfFalse ?_
  rw [length_exprCode]
  exact h

/-- The code of an expression, and an instruction that does not jump. -/
theorem straight_last (line : Nat) (e : Expr) (start : Nat) {i : Instr}
    (hs : ∀ next, i.successors next ⊆ [next])
    (hm : ∀ name params body, i ≠ .makeFunction name params body) (hp : ∀ v, i ≠ .push v) :
    EachAt (fun k x => Straight k x.1) start (lined line (exprCode start e ++ [i])) :=
  EachAt.lined ((straight_exprCode e start).append (.single (.of_next (hs _) hm hp)))

mutual

theorem straight_statementCode : ∀ (st : Statement) (start : Nat), st.hasLoop = false →
    EachAt (fun k x => Straight k x.1) start (statementCode start st)
  | .assign line name e, start, _ =>
    straight_last line e start (by simp [Instr.successors]) nofun nofun
  | .expr line e, start, _ => straight_last line e start (by simp [Instr.successors]) nofun nofun
  | .raise line e, start, _ => straight_last line e start (by simp [Instr.successors]) nofun nofun
  | .give line (some e), start, _ =>
    straight_last line e start (by simp [Instr.successors]) nofun nofun
  | .give line none, start, _ =>
    .cons (straight_push rfl) (.single (.of_next (by simp [Instr.successors]) nofun nofun))
  | .setAttribute line object name e, start, _ => by
    refine EachAt.lined (((straight_exprCode e start).append (straight_exprCode object _)).append
      (.single ?_))
    exact .of_next (by simp [Instr.successors]) nofun nofun
  | .when line condition body, start, h => by
    have hb := straight_blockCode body (start + exprSize condition + 1) h
    simp only [statementCode, length_exprCode, length_blockCode]
    refine (straight_test line condition (by omega)).append ?_
    simp only [length_lined, List.length_append, length_exprCode, List.length_singleton,
      ← Nat.add_assoc]
    exact hb
  | .choose line condition body other, start, h => by
    rw [Statement.hasLoop, Bool.or_eq_false_iff] at h
    have hb := straight_blockCode body (start + exprSize condition + 1) h.1
    have ho := straight_blockCode other (start + exprSize condition + 1 + blockSize body + 1) h.2
    simp only [statementCode, length_exprCode, length_blockCode]
    refine ((straight_test line condition (by omega)).append ?_).append (.cons ?_ ?_)
    · simp only [length_lined, List.length_append, length_exprCode, List.length_singleton,
        ← Nat.add_assoc]
      exact hb
    · refine straight_jump ?_
      simp only [length_lined, List.length_append, length_exprCode, List.length_singleton,
        length_blockCode]
      omega
    · simp only [length_lined, List.length_append, length_exprCode, List.length_singleton,
        length_blockCode, ← Nat.add_assoc]
      exact ho
  | .function line name params body, start, h => by
    refine .cons ⟨fun next hn => ?_, ?_, nofun⟩
      (.single (.of_next (by simp [Instr.successors]) nofun nofun))
    · rw [List.mem_singleton.1 hn]
      exact Nat.lt_succ_self _
    · intro n ps c hc
      cases hc
      exact ⟨line, body, rfl, h⟩
  | .use line module newName, start, _ =>
    .cons (.of_next (by simp [Instr.successors]) nofun nofun)
      (.single (.of_next (by simp [Instr.successors]) nofun nofun))

/-- **The code of statements without loops is straight.** -/
theorem straight_blockCode : ∀ (b : List Statement) (start : Nat), hasLoopIn b = false →
    EachAt (fun k x => Straight k x.1) start (blockCode start b)
  | [], _, _ => .nil
  | st :: rest, start, h => by
    rw [hasLoopIn, Bool.or_eq_false_iff] at h
    exact (straight_statementCode st start h.1).append (straight_blockCode rest _ h.2)

end

/-! ## Whole chunks -/

theorem straight_bodyCode (line : Nat) {b : List Statement} (h : hasLoopIn b = false) :
    (bodyCode line b).Straight := by
  have hend : ∀ start, EachAt (fun k x => Straight k x.1) start
      (lined (closingOfAll line b) [.push .nil, .ret]) := fun start =>
    .cons (straight_push rfl) (.single (.of_next (by simp [Instr.successors]) nofun nofun))
  intro k i l hk
  exact ((straight_blockCode b 0 h).append (hend _)).toArray hk

theorem straight_compile {source file : String} {code : Chunk} (h : Source.LoopFree source)
    (hc : compile source file = .ok code) : code.Straight := by
  unfold compile at hc
  cases hp : Source.Program.parse source file with
  | error e =>
    rw [hp] at hc
    cases hc
  | ok p =>
    rw [hp] at hc
    obtain ⟨-, rfl⟩ := generate_eq_ok hc
    intro k i l hk
    exact (straight_blockCode p 0 (h file p hp)).toArray hk

end Code

end Ember
