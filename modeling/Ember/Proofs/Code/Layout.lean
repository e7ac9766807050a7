import Ember.Heap.Liveness
import Ember.Code.Generate
import Mathlib.Data.List.Basic

/-!
# Where code stands

The code of a compound is the code of its parts one after another. `Has` says that a piece of code
stands at an index of a chunk; it splits along `++` (`Has.append`), and a whole chunk stands at its
own beginning (`Has.toArray`). `EachAt` says something of each instruction of a piece of code and of
the index at which it stands; it is put together along `++` in the same way.

Code that comes from a program holds no functions and no modules among its constants, so that it
keeps nothing alive (`nodesOfAll_blockCode`).

`readProgram` is the program whose code a source text is compiled to (`compile_eq`).
-/

namespace Ember.Code

open Source (Expr Statement Program)

/-- A piece of code, or of what belongs to it, stands at an index. -/
def Has {α : Type} (xs : Array α) (start : Nat) (piece : List α) : Prop :=
  ∀ i x, piece[i]? = some x → xs[start + i]? = some x

namespace Has

variable {α : Type} {xs : Array α} {start : Nat}

theorem toArray (piece : List α) : Has piece.toArray 0 piece := by
  intro i x h
  simpa using h

@[simp] theorem append {p q : List α} :
    Has xs start (p ++ q) ↔ Has xs start p ∧ Has xs (start + p.length) q := by
  constructor
  · intro h
    refine ⟨?_, ?_⟩
    · intro i x hi
      refine h i x ?_
      rw [List.getElem?_append_left (List.getElem?_eq_some_iff.1 hi).1]
      exact hi
    · intro i x hi
      rw [Nat.add_assoc]
      refine h _ x ?_
      rw [List.getElem?_append_right (Nat.le_add_right ..), Nat.add_sub_cancel_left]
      exact hi
  · rintro ⟨hp, hq⟩ i x hi
    by_cases hl : i < p.length
    · exact hp i x (by rwa [List.getElem?_append_left hl] at hi)
    · rw [List.getElem?_append_right (Nat.le_of_not_lt hl)] at hi
      have := hq _ x hi
      rwa [show start + p.length + (i - p.length) = start + i by omega] at this

theorem head {x : α} {rest : List α} (h : Has xs start (x :: rest)) : xs[start]? = some x :=
  h 0 x rfl

theorem tail {x : α} {rest : List α} (h : Has xs start (x :: rest)) :
    Has xs (start + 1) rest := by
  intro i y hi
  rw [Nat.add_assoc, Nat.add_comm 1 i]
  exact h (i + 1) y hi

end Has

/-- Each element of a piece that stands at an index has a property together with its own index. -/
def EachAt {α : Type} (P : Nat → α → Prop) (start : Nat) (piece : List α) : Prop :=
  ∀ i x, piece[i]? = some x → P (start + i) x

namespace EachAt

variable {α : Type} {P Q : Nat → α → Prop} {start : Nat} {p q : List α} {x : α}

theorem of_mem (h : ∀ k, ∀ x ∈ p, P k x) : EachAt P start p := by
  intro i x hi
  exact h _ x (List.mem_of_getElem? hi)

theorem nil : EachAt P start [] := of_mem (by simp)

theorem append (hp : EachAt P start p) (hq : EachAt P (start + p.length) q) :
    EachAt P start (p ++ q) := by
  intro i x hi
  by_cases hl : i < p.length
  · rw [List.getElem?_append_left hl] at hi
    exact hp i x hi
  · rw [List.getElem?_append_right (Nat.le_of_not_lt hl)] at hi
    have hx := hq _ x hi
    rwa [show start + p.length + (i - p.length) = start + i by omega] at hx

theorem cons (hx : P start x) (hp : EachAt P (start + 1) p) : EachAt P start (x :: p) := by
  intro i y hi
  cases i with
  | zero =>
    cases hi
    exact hx
  | succ i =>
    have hy := hp i y hi
    rwa [Nat.add_right_comm] at hy

theorem single (hx : P start x) : EachAt P start [x] := cons hx nil

theorem imp (hp : EachAt P start p)
    (h : ∀ k x, start ≤ k → k < start + p.length → P k x → Q k x) : EachAt Q start p := by
  intro i x hi
  obtain ⟨hlt, -⟩ := List.getElem?_eq_some_iff.1 hi
  exact h _ x (Nat.le_add_right start i) (by omega) (hp i x hi)

theorem toArray (hp : EachAt P 0 p) {k : Nat} (hk : p.toArray[k]? = some x) : P k x := by
  rw [List.getElem?_toArray] at hk
  simpa using hp k x hk

end EachAt

/-! ## Lines -/

section Lines

variable (line : Nat) (p q : List Instr)

@[simp] theorem length_lined : (lined line p).length = p.length := by simp [lined]

@[simp] theorem lined_append : lined line (p ++ q) = lined line p ++ lined line q := by
  simp [lined]

@[simp] theorem lined_cons (i : Instr) : lined line (i :: p) = (i, line) :: lined line p := rfl

@[simp] theorem length_asBool : asBool.length = 2 := rfl

@[simp] theorem lined_nil : lined line [] = [] := rfl

variable {line p}

theorem EachAt.lined {P : Nat → Instr → Prop} {start : Nat} (hp : EachAt P start p) :
    EachAt (fun k x => P k x.1) start (lined line p) := by
  intro i x hi
  obtain ⟨instr, hinstr, rfl⟩ : ∃ instr, p[i]? = some instr ∧ (instr, line) = x := by
    simpa [Code.lined] using hi
  exact hp i instr hinstr

end Lines

/-! ## Constants -/

theorem nodesOfAll_eq (code : List (Instr × Nat)) :
    nodesOfAll code = code.flatMap fun p => p.1.nodes := by
  induction code with
  | nil => rfl
  | cons p rest ih =>
    obtain ⟨i, line⟩ := p
    rw [nodesOfAll, ih, nodesOfLine, List.flatMap_cons]

theorem nodesOfAll_append (p q : List (Instr × Nat)) :
    nodesOfAll (p ++ q) = nodesOfAll p ++ nodesOfAll q := by simp [nodesOfAll_eq]

/-- Instructions that keep nothing alive do not do so in lines. -/
theorem nodesOfAll_lined_eq_nil {line : Nat} {p : List Instr} (h : ∀ i ∈ p, i.nodes = []) :
    nodesOfAll (lined line p) = [] := by
  rw [nodesOfAll_eq, List.flatMap_eq_nil_iff]
  intro x hx
  obtain ⟨i, hi, rfl⟩ := List.mem_map.1 hx
  exact h i hi

mutual

theorem nodes_exprCode : ∀ (e : Expr) (start : Nat), ∀ i ∈ exprCode start e, i.nodes = []
  | .integer _, _ | .float _, _ | .text _, _ | .bool _, _ | .nil, _ | .variable _, _ => by
    simp [exprCode, Instr.nodes, Value.node?]
  | .binary (.operator op) l r, start => by
    have hl := nodes_exprCode l start
    have hr := nodes_exprCode r
    simp only [exprCode, List.mem_append, List.mem_singleton]
    rintro i ((hi | hi) | rfl)
    exacts [hl i hi, hr _ i hi, rfl]
  | .binary .and l r, start => by
    have hl := nodes_exprCode l start
    have hr := nodes_exprCode r
    simp only [exprCode, asBool, List.mem_append, List.mem_cons, List.not_mem_nil, or_false]
    rintro i (((hi | rfl) | (hi | rfl | rfl)) | rfl | rfl)
    exacts [hl i hi, rfl, hr _ i hi, rfl, rfl, rfl, rfl]
  | .binary .or l r, start => by
    have hl := nodes_exprCode l start
    have hr := nodes_exprCode r
    simp only [exprCode, asBool, List.mem_append, List.mem_cons, List.not_mem_nil, or_false]
    rintro i ((hi | rfl | rfl | rfl) | (hi | rfl | rfl))
    exacts [hl i hi, rfl, rfl, rfl, hr _ i hi, rfl, rfl]
  | .unary .neg e, start | .unary .not e, start | .attribute e _, start => by
    have he := nodes_exprCode e start
    simp only [exprCode, List.mem_append, List.mem_singleton]
    rintro i (hi | rfl)
    exacts [he i hi, rfl]
  | .call f args, start => by
    have hf := nodes_exprCode f start
    have ha := nodes_argsCode args
    simp only [exprCode, List.mem_append, List.mem_singleton]
    rintro i ((hi | hi) | rfl)
    exacts [hf i hi, ha _ i hi, rfl]

theorem nodes_argsCode : ∀ (es : List Expr) (start : Nat), ∀ i ∈ argsCode start es, i.nodes = []
  | [], _ => by simp [argsCode]
  | e :: es, start => by
    have he := nodes_exprCode e start
    have hes := nodes_argsCode es
    simp only [argsCode, List.mem_append]
    rintro i (hi | hi)
    exacts [he i hi, hes _ i hi]

end

/-- The instructions of expressions, and some more, keep nothing alive. -/
theorem nodesOfAll_lined_exprCode {line start : Nat} {e : Expr} {more : List Instr}
    (h : ∀ i ∈ more, i.nodes = []) : nodesOfAll (lined line (exprCode start e ++ more)) = [] :=
  nodesOfAll_lined_eq_nil fun i hi =>
    (List.mem_append.1 hi).elim (nodes_exprCode e start i) (h i)

mutual

theorem nodesOfAll_statementCode :
    ∀ (st : Statement) (start : Nat), nodesOfAll (statementCode start st) = []
  | .assign line name e, start | .expr line e, start | .raise line e, start
  | .give line (some e), start => by
    simp only [statementCode]
    exact nodesOfAll_lined_exprCode (by simp [Instr.nodes])
  | .setAttribute line object name e, start => by
    simp only [statementCode, List.append_assoc]
    refine nodesOfAll_lined_exprCode fun i hi => ?_
    rcases List.mem_append.1 hi with hi | hi
    · exact nodes_exprCode object _ i hi
    · rw [List.mem_singleton.1 hi]
      rfl
  | .give line none, start => by simp [statementCode, nodesOfAll_eq, Instr.nodes, Value.node?]
  | .when line condition body, start => by
    have hb := nodesOfAll_blockCode body
    simp only [statementCode, nodesOfAll_append, hb, List.append_nil]
    exact nodesOfAll_lined_exprCode (by simp [Instr.nodes])
  | .choose line condition body other, start => by
    have hb := nodesOfAll_blockCode body
    have ho := nodesOfAll_blockCode other
    simp only [statementCode, nodesOfAll_append, hb, List.append_nil, nodesOfAll, ho, nodesOfLine,
      Instr.nodes]
    exact nodesOfAll_lined_exprCode (by simp [Instr.nodes])
  | .loop line condition body, start => by
    have hb := nodesOfAll_blockCode body
    simp only [statementCode, nodesOfAll_append, hb, List.append_nil, nodesOfAll, nodesOfLine,
      Instr.nodes]
    exact nodesOfAll_lined_exprCode (by simp [Instr.nodes])
  | .function line name params body, start => by
    have hb := nodesOfAll_blockCode body 0
    simp [statementCode, nodesOfAll, nodesOfLine, Instr.nodes, nodesOfAll_append, hb, Value.node?]
  | .use line module newName, start => by
    simp [statementCode, nodesOfAll, nodesOfLine, Instr.nodes]

theorem nodesOfAll_blockCode :
    ∀ (b : List Statement) (start : Nat), nodesOfAll (blockCode start b) = []
  | [], _ => rfl
  | st :: rest, start => by
    simp only [blockCode, nodesOfAll_append, nodesOfAll_statementCode st,
      nodesOfAll_blockCode rest, List.append_nil]

end

/-- The chunk of the body of a function that is defined in a line. -/
def bodyCode (line : Nat) (body : List Statement) : Chunk :=
  (blockCode 0 body ++ lined (closingOfAll line body) [.push .nil, .ret]).toArray

theorem nodes_bodyCode (line : Nat) (body : List Statement) : (bodyCode line body).nodes = [] := by
  simp [bodyCode, Chunk.nodes, nodesOfAll_append, nodesOfAll_blockCode, nodesOfAll, nodesOfLine,
    Instr.nodes, Value.node?]

/-! ## Programs -/

theorem generate_eq_ok {file : String} {p : Program} {code : Chunk}
    (h : generate file p = .ok code) :
    strayReturnIn? p = none ∧ code = (blockCode 0 p).toArray := by
  unfold generate at h
  split at h
  · cases h
  · next hr => exact ⟨hr, (Except.ok.inj h).symm⟩

/-- The program of a source text, if it has no misplaced `return`. -/
def readProgram (source file : String) : Except CompileError Program :=
  match Program.parse source file with
  | .error e => .error (.parse e)
  | .ok p => match strayReturnIn? p with
    | some line => .error (.returnOutsideFunction file line)
    | none => .ok p

theorem compile_eq (source file : String) : compile source file =
    (readProgram source file).map fun p => (blockCode 0 p).toArray := by
  unfold compile readProgram
  cases Program.parse source file with
  | error e => rfl
  | ok p =>
    simp only [generate]
    cases strayReturnIn? p <;> rfl

theorem strayReturnIn?_of_readProgram {source file : String} {p : Program}
    (h : readProgram source file = .ok p) : strayReturnIn? p = none := by
  unfold readProgram at h
  split at h
  · cases h
  · split at h
    · cases h
    · next hr => cases h; exact hr

end Ember.Code
