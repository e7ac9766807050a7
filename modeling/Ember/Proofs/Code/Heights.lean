import Ember.Proofs.Code.Layout

/-!
# Heights of the stack

Each index of compiled code has a height: the number of operands that lie above the floor of the
call or module whose code it is, whenever the code is there. The heights are written down along the
code (`exprHeights`, `blockHeights`), and every instruction fits them: the operands that it takes
are there, and whatever instruction follows finds the height that it expects (`Fitting`).

`Chunk.Leveled` says this of a whole chunk, be it the code of a module, which ends where there are
no operands left, or the code of a function, which only ends by returning. All compiled code is
leveled (`leveled_generate`, `leveled_bodyCode`).
-/

namespace Ember.Code

open Source (Expr Statement Program)

/-! ## What instructions do to the stack -/

namespace Instr

/-- The number of operands that an instruction takes. -/
def takes : Instr → Nat
  | push _ | load _ | jump _ | makeFunction .. | use _ => 0
  | pop | negate | invert | store _ | getAttribute _ | jumpIfFalse _ | ret | raise => 1
  | operate _ | setAttribute _ => 2
  | call count => count + 1

/-- The number of operands that it leaves for the instruction that follows. -/
def gives : Instr → Nat
  | push _ | operate _ | negate | invert | load _ | getAttribute _ | makeFunction .. | call _
  | use _ => 1
  | pop | store _ | setAttribute _ | jump _ | jumpIfFalse _ | ret | raise => 0

/-- Where the code can go on; `next` is the index after the instruction. -/
def successors (next : Nat) : Instr → List Nat
  | jump target => [target]
  | jumpIfFalse target => [next, target]
  | ret | raise => []
  | _ => [next]

/-- Only functions return, and the functions that are made have compiled bodies. -/
def Proper (body : Bool) : Instr → Prop
  | ret => body = true
  | makeFunction _ _ code => ∃ line statements, code = bodyCode line statements
  | _ => True

end Instr

/-! ## Sizes -/

mutual

/-- The number of instructions of an expression. -/
def exprSize : Expr → Nat
  | .integer _ | .float _ | .text _ | .bool _ | .nil | .variable _ => 1
  | .binary (.operator _) l r => exprSize l + exprSize r + 1
  | .binary .and l r => exprSize l + 1 + exprSize r + 2 + 2
  | .binary .or l r => exprSize l + 3 + exprSize r + 2
  | .unary _ e | .attribute e _ => exprSize e + 1
  | .call f args => exprSize f + argsSize args + 1

def argsSize : List Expr → Nat
  | [] => 0
  | e :: es => exprSize e + argsSize es

end

mutual

/-- The number of instructions of a statement. -/
def statementSize : Statement → Nat
  | .assign _ _ e | .expr _ e | .raise _ e | .give _ (some e) => exprSize e + 1
  | .setAttribute _ object _ e => exprSize e + exprSize object + 1
  | .give _ none | .function .. | .use .. => 2
  | .when _ condition body => exprSize condition + 1 + blockSize body
  | .choose _ condition body other =>
    exprSize condition + 1 + blockSize body + 1 + blockSize other
  | .loop _ condition body => exprSize condition + 1 + blockSize body + 1

def blockSize : List Statement → Nat
  | [] => 0
  | s :: ss => statementSize s + blockSize ss

end

/-! ## Heights -/

mutual

/-- The heights along an expression's code that starts with `d` operands. -/
def exprHeights (d : Nat) : Expr → List Nat
  | .integer _ | .float _ | .text _ | .bool _ | .nil | .variable _ => [d]
  | .binary (.operator _) l r => exprHeights d l ++ exprHeights (d + 1) r ++ [d + 2]
  | .binary .and l r => exprHeights d l ++ [d + 1] ++ (exprHeights d r ++ [d + 1, d + 1]) ++
      [d + 1, d]
  | .binary .or l r => exprHeights d l ++ [d + 1, d, d + 1] ++ (exprHeights d r ++ [d + 1, d + 1])
  | .unary _ e | .attribute e _ => exprHeights d e ++ [d + 1]
  | .call f args => exprHeights d f ++ argsHeights (d + 1) args ++ [d + 1 + args.length]

def argsHeights (d : Nat) : List Expr → List Nat
  | [] => []
  | e :: es => exprHeights d e ++ argsHeights (d + 1) es

end

mutual

/-- The heights along a statement's code. -/
def statementHeights : Statement → List Nat
  | .assign _ _ e | .expr _ e | .raise _ e | .give _ (some e) => exprHeights 0 e ++ [1]
  | .setAttribute _ object _ e => exprHeights 0 e ++ exprHeights 1 object ++ [2]
  | .give _ none | .function .. | .use .. => [0, 1]
  | .when _ condition body => exprHeights 0 condition ++ [1] ++ blockHeights body
  | .choose _ condition body other =>
    exprHeights 0 condition ++ [1] ++ blockHeights body ++ 0 :: blockHeights other
  | .loop _ condition body => exprHeights 0 condition ++ [1] ++ blockHeights body ++ [0]

def blockHeights : List Statement → List Nat
  | [] => []
  | s :: ss => statementHeights s ++ blockHeights ss

end

mutual

@[simp] theorem length_exprCode : ∀ (e : Expr) (start : Nat),
    (exprCode start e).length = exprSize e
  | .integer _, _ | .float _, _ | .text _, _ | .bool _, _ | .nil, _ | .variable _, _ => rfl
  | .binary (.operator _) l r, start => by
    simp [exprCode, exprSize, length_exprCode l, length_exprCode r]
    omega
  | .binary .and l r, start => by
    simp [exprCode, exprSize, length_exprCode l, length_exprCode r]
    omega
  | .binary .or l r, start => by
    simp [exprCode, exprSize, length_exprCode l, length_exprCode r]
    omega
  | .unary .neg e, start | .unary .not e, start | .attribute e _, start => by
    simp [exprCode, exprSize, length_exprCode e]
  | .call f args, start => by
    simp [exprCode, exprSize, length_exprCode f, length_argsCode args]
    omega

@[simp] theorem length_argsCode : ∀ (es : List Expr) (start : Nat),
    (argsCode start es).length = argsSize es
  | [], _ => rfl
  | e :: es, start => by simp [argsCode, argsSize, length_exprCode e, length_argsCode es]

end

mutual

@[simp] theorem length_exprHeights : ∀ (e : Expr) (d : Nat),
    (exprHeights d e).length = exprSize e
  | .integer _, _ | .float _, _ | .text _, _ | .bool _, _ | .nil, _ | .variable _, _ => rfl
  | .binary (.operator _) l r, d => by
    simp [exprHeights, exprSize, length_exprHeights l, length_exprHeights r]
    omega
  | .binary .and l r, d => by
    simp [exprHeights, exprSize, length_exprHeights l, length_exprHeights r]
    omega
  | .binary .or l r, d => by
    simp [exprHeights, exprSize, length_exprHeights l, length_exprHeights r]
    omega
  | .unary _ e, d | .attribute e _, d => by
    simp [exprHeights, exprSize, length_exprHeights e]
  | .call f args, d => by
    simp [exprHeights, exprSize, length_exprHeights f, length_argsHeights args]
    omega

@[simp] theorem length_argsHeights : ∀ (es : List Expr) (d : Nat),
    (argsHeights d es).length = argsSize es
  | [], _ => rfl
  | e :: es, d => by simp [argsHeights, argsSize, length_exprHeights e, length_argsHeights es]

end

mutual

@[simp] theorem length_statementCode : ∀ (st : Statement) (start : Nat),
    (statementCode start st).length = statementSize st
  | .assign .., _ | .expr .., _ | .raise .., _ | .give _ (some _), _ => by
    simp [statementCode, statementSize]
  | .setAttribute .., _ => by
    simp [statementCode, statementSize]
    omega
  | .give _ none, _ | .function .., _ | .use .., _ => rfl
  | .when _ _ body, start => by
    simp [statementCode, statementSize, length_blockCode body]
    omega
  | .choose _ _ body other, start => by
    simp [statementCode, statementSize, length_blockCode body, length_blockCode other]
    omega
  | .loop _ _ body, start => by
    simp [statementCode, statementSize, length_blockCode body]
    omega

@[simp] theorem length_blockCode : ∀ (b : List Statement) (start : Nat),
    (blockCode start b).length = blockSize b
  | [], _ => rfl
  | st :: rest, start => by
    simp [blockCode, blockSize, length_statementCode st, length_blockCode rest]

end

mutual

@[simp] theorem length_statementHeights : ∀ (st : Statement),
    (statementHeights st).length = statementSize st
  | .assign .. | .expr .. | .raise .. | .give _ (some _) => by
    simp [statementHeights, statementSize]
  | .setAttribute .. => by
    simp [statementHeights, statementSize]
    omega
  | .give _ none | .function .. | .use .. => rfl
  | .when _ _ body => by
    simp [statementHeights, statementSize, length_blockHeights body]
    omega
  | .choose _ _ body other => by
    simp [statementHeights, statementSize, length_blockHeights body, length_blockHeights other]
    omega
  | .loop _ _ body => by
    simp [statementHeights, statementSize, length_blockHeights body]
    omega

@[simp] theorem length_blockHeights : ∀ (b : List Statement),
    (blockHeights b).length = blockSize b
  | [] => rfl
  | st :: rest => by
    simp [blockHeights, blockSize, length_statementHeights st, length_blockHeights rest]

end

/-! ## Fitting -/

section Fitting

variable {body : Bool} {code : Chunk} {heights : Array Nat}

/-- The instruction at an index fits the heights. -/
def Fitting (body : Bool) (code : Chunk) (heights : Array Nat) (i : Nat) : Prop :=
  ∃ instr line h, code[i]? = some (instr, line) ∧ heights[i]? = some h ∧ instr.Proper body ∧
    instr.takes ≤ h ∧
    ∀ j ∈ instr.successors (i + 1), heights[j]? = some (h - instr.takes + instr.gives)

/-- All instructions from an index on and before another fit the heights. -/
def FittingIn (body : Bool) (code : Chunk) (heights : Array Nat) (i j : Nat) : Prop :=
  ∀ k, i ≤ k → k < j → Fitting body code heights k

theorem FittingIn.nil (i : Nat) : FittingIn body code heights i i := by
  intro k h₁ h₂
  omega

theorem FittingIn.append {i j k : Nat} (h₁ : FittingIn body code heights i j)
    (h₂ : FittingIn body code heights j k) : FittingIn body code heights i k := by
  intro l hi hk
  by_cases hj : l < j
  · exact h₁ l hi hj
  · exact h₂ l (Nat.le_of_not_lt hj) hk

theorem FittingIn.snoc {i j : Nat} (h₁ : FittingIn body code heights i j)
    (h₂ : Fitting body code heights j) : FittingIn body code heights i (j + 1) := by
  intro k hi hj
  by_cases hk : k = j
  · rw [hk]
    exact h₂
  · exact h₁ k hi (by omega)

/-- An expression's code starts with the operands that are there. -/
theorem head_exprHeights {start d : Nat} :
    ∀ {e : Expr}, Has heights start (exprHeights d e) → heights[start]? = some d
  | .integer _, h | .float _, h | .text _, h | .bool _, h | .nil, h | .variable _, h => h.head
  | .binary (.operator _) _ _, h => head_exprHeights (Has.append.1 (Has.append.1 h).1).1
  | .binary .and _ _, h =>
    head_exprHeights (Has.append.1 (Has.append.1 (Has.append.1 h).1).1).1
  | .binary .or _ _, h => head_exprHeights (Has.append.1 (Has.append.1 h).1).1
  | .unary _ _, h | .attribute _ _, h => head_exprHeights (Has.append.1 h).1
  | .call _ _, h => head_exprHeights (Has.append.1 (Has.append.1 h).1).1

theorem head_argsHeights {start d : Nat} : ∀ {es : List Expr},
    Has heights start (argsHeights d es) →
    heights[start + argsSize es]? = some (d + es.length) → heights[start]? = some d
  | [], _, he => he
  | e :: _, hh, _ => head_exprHeights (e := e) (Has.append.1 hh).1

/-- An instruction that only the next one follows. -/
theorem fitting_of_next {i h h' line : Nat} {instr : Instr}
    (hc : code[i]? = some (instr, line)) (hh : heights[i]? = some h)
    (hn : heights[i + 1]? = some h') (hp : instr.Proper body) (ht : instr.takes ≤ h)
    (he : h' = h - instr.takes + instr.gives) (hs : instr.successors (i + 1) = [i + 1]) :
    Fitting body code heights i := by
  refine ⟨instr, line, h, hc, hh, hp, ht, ?_⟩
  intro j hj
  rw [hs, List.mem_singleton] at hj
  rw [hj, ← he]
  exact hn

theorem fitting_jump {i h line target : Nat} (hc : code[i]? = some (.jump target, line))
    (hh : heights[i]? = some h) (ht : heights[target]? = some h) :
    Fitting body code heights i := by
  refine ⟨_, line, h, hc, hh, trivial, Nat.zero_le h, ?_⟩
  intro j hj
  rw [List.mem_singleton.1 hj]
  exact ht

theorem fitting_jumpIfFalse {i h line target : Nat}
    (hc : code[i]? = some (.jumpIfFalse target, line)) (hh : heights[i]? = some (h + 1))
    (hn : heights[i + 1]? = some h) (ht : heights[target]? = some h) :
    Fitting body code heights i := by
  refine ⟨_, line, h + 1, hc, hh, trivial, Nat.le_add_left 1 h, ?_⟩
  intro j hj
  simp only [Instr.successors, List.mem_cons, List.not_mem_nil, or_false] at hj
  rcases hj with rfl | rfl
  · exact hn
  · exact ht

theorem fitting_asBool {i h line : Nat} (hc : Has code i [(.invert, line), (.invert, line)])
    (hh : Has heights i [h + 1, h + 1]) (he : heights[i + 1 + 1]? = some (h + 1)) :
    FittingIn body code heights i (i + 1 + 1) := by
  have h₁ : Fitting body code heights i :=
    fitting_of_next hc.head hh.head hh.tail.head trivial (Nat.le_add_left 1 h) rfl rfl
  have h₂ : Fitting body code heights (i + 1) :=
    fitting_of_next hc.tail.head hh.tail.head he trivial (Nat.le_add_left 1 h) rfl rfl
  exact ((FittingIn.nil i).snoc h₁).snoc h₂

variable (body)

mutual

theorem fitting_expr {line : Nat} : ∀ (e : Expr) {start d : Nat},
    Has code start (lined line (exprCode start e)) → Has heights start (exprHeights d e) →
    heights[start + exprSize e]? = some (d + 1) →
    FittingIn body code heights start (start + exprSize e)
  | .integer _, start, d, hc, hh, he | .float _, start, d, hc, hh, he
  | .text _, start, d, hc, hh, he | .bool _, start, d, hc, hh, he | .nil, start, d, hc, hh, he
  | .variable _, start, d, hc, hh, he =>
    .snoc (.nil start) (fitting_of_next hc.head hh.head he trivial (Nat.zero_le d) rfl rfl)
  | .binary (.operator op) l r, start, d, hc, hh, he => by
    simp only [exprCode, lined_append, Has.append, length_lined, List.length_append,
      length_exprCode, ← Nat.add_assoc] at hc
    simp only [exprHeights, Has.append, List.length_append, length_exprHeights,
      ← Nat.add_assoc] at hh
    simp only [exprSize, ← Nat.add_assoc] at he ⊢
    obtain ⟨⟨hcl, hcr⟩, hco⟩ := hc
    obtain ⟨⟨hhl, hhr⟩, hho⟩ := hh
    have hl := fitting_expr l hcl hhl (head_exprHeights hhr)
    have hr := fitting_expr r hcr hhr hho.head
    have ho : Fitting body code heights (start + exprSize l + exprSize r) :=
      fitting_of_next hco.head hho.head he trivial (Nat.le_add_left 2 d) rfl rfl
    exact (hl.append hr).snoc ho
  | .binary .and l r, start, d, hc, hh, he => by
    simp only [exprCode, asBool, lined_append, lined_cons, lined_nil, Has.append, length_lined,
      List.length_append, List.length_cons, List.length_nil, length_exprCode,
      ← Nat.add_assoc] at hc
    simp only [exprHeights, Has.append, List.length_append, List.length_cons, List.length_nil,
      length_exprHeights, ← Nat.add_assoc] at hh
    simp only [exprSize, ← Nat.add_assoc] at he ⊢
    obtain ⟨⟨⟨hcl, hct⟩, hcr, hcb⟩, hce⟩ := hc
    obtain ⟨⟨⟨hhl, hht⟩, hhr, hhb⟩, hhe⟩ := hh
    have hl := fitting_expr l hcl hhl hht.head
    have ht : Fitting body code heights (start + exprSize l) :=
      fitting_jumpIfFalse hct.head hht.head (head_exprHeights hhr) hhe.tail.head
    have hr := fitting_expr r hcr hhr hhb.head
    have hb : FittingIn body code heights _ _ := fitting_asBool hcb hhb hhe.head
    have hj : Fitting body code heights _ := fitting_jump hce.head hhe.head he
    have hp : Fitting body code heights (start + exprSize l + 1 + exprSize r + 2 + 1) :=
      fitting_of_next hce.tail.head hhe.tail.head he trivial (Nat.zero_le d) rfl rfl
    exact ((((hl.snoc ht).append hr).append hb).snoc hj).snoc hp
  | .binary .or l r, start, d, hc, hh, he => by
    simp only [exprCode, asBool, lined_append, lined_cons, lined_nil, Has.append, length_lined,
      List.length_append, List.length_cons, List.length_nil, length_exprCode,
      ← Nat.add_assoc] at hc
    simp only [exprHeights, Has.append, List.length_append, List.length_cons, List.length_nil,
      length_exprHeights, ← Nat.add_assoc] at hh
    simp only [exprSize, ← Nat.add_assoc] at he ⊢
    obtain ⟨⟨hcl, hct⟩, hcr, hcb⟩ := hc
    obtain ⟨⟨hhl, hht⟩, hhr, hhb⟩ := hh
    have hl := fitting_expr l hcl hhl hht.head
    have ht : Fitting body code heights (start + exprSize l) :=
      fitting_jumpIfFalse hct.head hht.head hht.tail.head (head_exprHeights hhr)
    have hp : Fitting body code heights (start + exprSize l + 1) :=
      fitting_of_next hct.tail.head hht.tail.head hht.tail.tail.head trivial (Nat.zero_le d)
        rfl rfl
    have hj : Fitting body code heights _ := fitting_jump hct.tail.tail.head hht.tail.tail.head he
    have hr := fitting_expr r hcr hhr hhb.head
    have hb : FittingIn body code heights _ _ := fitting_asBool hcb hhb he
    exact ((((hl.snoc ht).snoc hp).snoc hj).append hr).append hb
  | .unary .neg e, start, d, hc, hh, he | .unary .not e, start, d, hc, hh, he
  | .attribute e _, start, d, hc, hh, he => by
    simp only [exprCode, lined_append, Has.append, length_lined, length_exprCode] at hc
    simp only [exprHeights, Has.append, length_exprHeights] at hh
    have hx := fitting_expr e hc.1 hh.1 hh.2.head
    exact hx.snoc (fitting_of_next hc.2.head hh.2.head he trivial (Nat.le_add_left 1 d) rfl rfl)
  | .call f args, start, d, hc, hh, he => by
    simp only [exprCode, lined_append, Has.append, length_lined, List.length_append,
      length_exprCode, length_argsCode, ← Nat.add_assoc] at hc
    simp only [exprHeights, Has.append, List.length_append, length_exprHeights,
      length_argsHeights, ← Nat.add_assoc] at hh
    simp only [exprSize, ← Nat.add_assoc] at he ⊢
    obtain ⟨⟨hcf, hca⟩, hcc⟩ := hc
    obtain ⟨⟨hhf, hha⟩, hhc⟩ := hh
    have hf := fitting_expr f hcf hhf (head_argsHeights hha hhc.head)
    have ha := fitting_args args hca hha hhc.head
    have hcall : Fitting body code heights (start + exprSize f + argsSize args) :=
      fitting_of_next hcc.head hhc.head he trivial (by simp only [Instr.takes]; omega)
        (by simp only [Instr.takes, Instr.gives]; omega) rfl
    exact (hf.append ha).snoc hcall

theorem fitting_args {line : Nat} : ∀ (es : List Expr) {start d : Nat},
    Has code start (lined line (argsCode start es)) → Has heights start (argsHeights d es) →
    heights[start + argsSize es]? = some (d + es.length) →
    FittingIn body code heights start (start + argsSize es)
  | [], start, d, hc, hh, he => .nil _
  | e :: es, start, d, hc, hh, he => by
    simp only [argsCode, lined_append, Has.append, length_lined, length_exprCode] at hc
    simp only [argsHeights, Has.append, length_exprHeights] at hh
    simp only [argsSize, List.length_cons, ← Nat.add_assoc] at he ⊢
    have he : heights[start + exprSize e + argsSize es]? = some (d + 1 + es.length) := by
      rw [he]
      congr 1
      omega
    have hx := fitting_expr e hc.1 hh.1 (head_argsHeights hh.2 he)
    exact hx.append (fitting_args es hc.2 hh.2 he)

end

variable {body}

theorem head_statementHeights {start : Nat} : ∀ {st : Statement},
    Has heights start (statementHeights st) → heights[start]? = some 0
  | .assign .., h | .expr .., h | .raise .., h | .give _ (some _), h =>
    head_exprHeights (Has.append.1 h).1
  | .setAttribute .., h => head_exprHeights (Has.append.1 (Has.append.1 h).1).1
  | .give _ none, h | .function .., h | .use .., h => h.head
  | .when .., h => head_exprHeights (Has.append.1 (Has.append.1 h).1).1
  | .choose .., h | .loop .., h =>
    head_exprHeights (Has.append.1 (Has.append.1 (Has.append.1 h).1).1).1

theorem head_blockHeights {start : Nat} : ∀ {b : List Statement},
    Has heights start (blockHeights b) → heights[start + blockSize b]? = some 0 →
    heights[start]? = some 0
  | [], _, he => he
  | _ :: _, hh, _ => head_statementHeights (Has.append.1 hh).1

/-- An instruction that nothing follows. -/
theorem fitting_last {i h line : Nat} {instr : Instr} (hc : code[i]? = some (instr, line))
    (hh : heights[i]? = some h) (hp : instr.Proper body) (ht : instr.takes ≤ h)
    (hs : instr.successors (i + 1) = []) : Fitting body code heights i := by
  refine ⟨instr, line, h, hc, hh, hp, ht, ?_⟩
  intro j hj
  rw [hs] at hj
  cases hj

variable (body)

mutual

/-- **The code of statements fits its heights.** -/
theorem fitting_statement : ∀ (st : Statement) {start : Nat},
    (body = false → strayReturn? st = none) → Has code start (statementCode start st) →
    Has heights start (statementHeights st) → heights[start + statementSize st]? = some 0 →
    FittingIn body code heights start (start + statementSize st)
  | .assign line name e, start, hr, hc, hh, he | .expr line e, start, hr, hc, hh, he => by
    simp only [statementCode, lined_append, Has.append, length_lined, length_exprCode] at hc
    simp only [statementHeights, Has.append, length_exprHeights] at hh
    have hx := fitting_expr body e hc.1 hh.1 hh.2.head
    exact hx.snoc (fitting_of_next hc.2.head hh.2.head he trivial (Nat.le_refl 1) rfl rfl)
  | .raise line e, start, hr, hc, hh, he => by
    simp only [statementCode, lined_append, Has.append, length_lined, length_exprCode] at hc
    simp only [statementHeights, Has.append, length_exprHeights] at hh
    have hx := fitting_expr body e hc.1 hh.1 hh.2.head
    exact hx.snoc (fitting_last hc.2.head hh.2.head trivial (Nat.le_refl 1) rfl)
  | .give line none, start, hr, hc, hh, he => by
    have hb : body = true := by
      by_contra hb
      cases hr (Bool.eq_false_iff.2 hb)
    have h₁ : Fitting body code heights start :=
      fitting_of_next hc.head hh.head hh.tail.head trivial (Nat.le_refl 0) rfl rfl
    have h₂ : Fitting body code heights (start + 1) :=
      fitting_last hc.tail.head hh.tail.head hb (Nat.le_refl 1) rfl
    exact ((FittingIn.nil start).snoc h₁).snoc h₂
  | .give line (some e), start, hr, hc, hh, he => by
    have hb : body = true := by
      by_contra hb
      cases hr (Bool.eq_false_iff.2 hb)
    simp only [statementCode, lined_append, Has.append, length_lined, length_exprCode] at hc
    simp only [statementHeights, Has.append, length_exprHeights] at hh
    have hx := fitting_expr body e hc.1 hh.1 hh.2.head
    exact hx.snoc (fitting_last hc.2.head hh.2.head hb (Nat.le_refl 1) rfl)
  | .setAttribute line object name e, start, hr, hc, hh, he => by
    simp only [statementCode, lined_append, Has.append, length_lined, List.length_append,
      length_exprCode, ← Nat.add_assoc] at hc
    simp only [statementHeights, Has.append, List.length_append, length_exprHeights,
      ← Nat.add_assoc] at hh
    simp only [statementSize, ← Nat.add_assoc] at he ⊢
    obtain ⟨⟨hce, hco⟩, hcs⟩ := hc
    obtain ⟨⟨hhe, hho⟩, hhs⟩ := hh
    have hx := fitting_expr body e hce hhe (head_exprHeights hho)
    have ho := fitting_expr body object hco hho hhs.head
    have hs : Fitting body code heights (start + exprSize e + exprSize object) :=
      fitting_of_next hcs.head hhs.head he trivial (Nat.le_refl 2) rfl rfl
    exact (hx.append ho).snoc hs
  | .when line condition block, start, hr, hc, hh, he => by
    simp only [statementCode, lined_append, Has.append, length_lined, List.length_append,
      List.length_singleton, length_exprCode, length_blockCode, ← Nat.add_assoc] at hc
    simp only [statementHeights, Has.append, List.length_append, List.length_singleton,
      length_exprHeights, ← Nat.add_assoc] at hh
    simp only [statementSize, ← Nat.add_assoc] at he ⊢
    obtain ⟨⟨hcx, hct⟩, hcb⟩ := hc
    obtain ⟨⟨hhx, hht⟩, hhb⟩ := hh
    have hx := fitting_expr body condition hcx hhx hht.head
    have ht : Fitting body code heights (start + exprSize condition) :=
      fitting_jumpIfFalse hct.head hht.head (head_blockHeights hhb he) he
    have hb := fitting_block block hr hcb hhb he
    exact (hx.snoc ht).append hb
  | .choose line condition block other, start, hr, hc, hh, he => by
    simp only [statementCode, lined_append, Has.append, length_lined, List.length_append,
      List.length_singleton, length_exprCode, length_blockCode, ← Nat.add_assoc] at hc
    simp only [statementHeights, Has.append, List.length_append, List.length_singleton,
      length_exprHeights, length_blockHeights, ← Nat.add_assoc] at hh
    simp only [statementSize, ← Nat.add_assoc] at he ⊢
    have hr : body = false → strayReturnIn? block = none ∧ strayReturnIn? other = none :=
      fun hb => by simpa [strayReturn?] using hr hb
    obtain ⟨⟨⟨hcx, hct⟩, hcb⟩, hco⟩ := hc
    obtain ⟨⟨⟨hhx, hht⟩, hhb⟩, hho⟩ := hh
    have hx := fitting_expr body condition hcx hhx hht.head
    have ht : Fitting body code heights (start + exprSize condition) :=
      fitting_jumpIfFalse hct.head hht.head (head_blockHeights hhb hho.head)
        (head_blockHeights hho.tail he)
    have hb := fitting_block block (fun hn => (hr hn).1) hcb hhb hho.head
    have hj : Fitting body code heights _ := fitting_jump hco.head hho.head he
    have ho := fitting_block other (fun hn => (hr hn).2) hco.tail hho.tail he
    exact (((hx.snoc ht).append hb).snoc hj).append ho
  | .loop line condition block, start, hr, hc, hh, he => by
    simp only [statementCode, lined_append, Has.append, length_lined, List.length_append,
      List.length_singleton, length_exprCode, length_blockCode, ← Nat.add_assoc] at hc
    simp only [statementHeights, Has.append, List.length_append, List.length_singleton,
      length_exprHeights, length_blockHeights, ← Nat.add_assoc] at hh
    simp only [statementSize, ← Nat.add_assoc] at he ⊢
    obtain ⟨⟨⟨hcx, hct⟩, hcb⟩, hcj⟩ := hc
    obtain ⟨⟨⟨hhx, hht⟩, hhb⟩, hhj⟩ := hh
    have hx := fitting_expr body condition hcx hhx hht.head
    have ht : Fitting body code heights (start + exprSize condition) :=
      fitting_jumpIfFalse hct.head hht.head (head_blockHeights hhb hhj.head) he
    have hb := fitting_block block hr hcb hhb hhj.head
    have hj : Fitting body code heights _ :=
      fitting_jump hcj.head hhj.head (head_exprHeights hhx)
    exact ((hx.snoc ht).append hb).snoc hj
  | .function line name params block, start, hr, hc, hh, he => by
    have h₁ : Fitting body code heights start :=
      fitting_of_next hc.head hh.head hh.tail.head ⟨line, block, rfl⟩ (Nat.le_refl 0) rfl rfl
    have h₂ : Fitting body code heights (start + 1) :=
      fitting_of_next hc.tail.head hh.tail.head he trivial (Nat.le_refl 1) rfl rfl
    exact ((FittingIn.nil start).snoc h₁).snoc h₂
  | .use line module newName, start, hr, hc, hh, he => by
    have h₁ : Fitting body code heights start :=
      fitting_of_next hc.head hh.head hh.tail.head trivial (Nat.le_refl 0) rfl rfl
    have h₂ : Fitting body code heights (start + 1) :=
      fitting_of_next hc.tail.head hh.tail.head he trivial (Nat.le_refl 1) rfl rfl
    exact ((FittingIn.nil start).snoc h₁).snoc h₂

theorem fitting_block : ∀ (b : List Statement) {start : Nat},
    (body = false → strayReturnIn? b = none) → Has code start (blockCode start b) →
    Has heights start (blockHeights b) → heights[start + blockSize b]? = some 0 →
    FittingIn body code heights start (start + blockSize b)
  | [], start, hr, hc, hh, he => .nil start
  | st :: rest, start, hr, hc, hh, he => by
    simp only [blockCode, Has.append, length_statementCode] at hc
    simp only [blockHeights, Has.append, length_statementHeights] at hh
    simp only [blockSize, ← Nat.add_assoc] at he ⊢
    have hr : body = false → strayReturn? st = none ∧ strayReturnIn? rest = none :=
      fun hb => by simpa [strayReturnIn?] using hr hb
    have hs := fitting_statement st (fun hn => (hr hn).1) hc.1 hh.1 (head_blockHeights hh.2 he)
    exact hs.append (fitting_block rest (fun hn => (hr hn).2) hc.2 hh.2 he)

end

end Fitting

/-! ## Whole chunks -/

/-- A chunk has these heights. The code of a module ends with height zero, and the code of a
function does not come to an end. -/
structure Chunk.Leveled (code : Chunk) (body : Bool) (heights : Array Nat) : Prop where
  start : heights[0]? = some 0
  fitting : ∀ i, i < code.size → Fitting body code heights i
  finish : ∀ i h, code.size ≤ i → heights[i]? = some h → body = false ∧ h = 0

/-- **The code of a module is leveled.** -/
theorem leveled_generate {file : String} {p : Program} {code : Chunk}
    (h : generate file p = .ok code) : ∃ heights, code.Leveled false heights := by
  obtain ⟨hp, rfl⟩ := generate_eq_ok h
  refine ⟨(blockHeights p ++ [0]).toArray, ?_⟩
  have hh := Has.append.1 (Has.toArray (blockHeights p ++ [0]))
  rw [length_blockHeights] at hh
  have he := hh.2.head
  refine ⟨head_blockHeights hh.1 he, ?_, ?_⟩
  · intro i hi
    refine fitting_block false p (fun _ => hp) (Has.toArray _) hh.1 he i (Nat.zero_le i) ?_
    simpa using hi
  · intro i h hi hh
    obtain ⟨hlt, -⟩ := Array.getElem?_eq_some_iff.1 hh
    simp at hi hlt
    obtain rfl : i = 0 + blockSize p := by omega
    rw [he] at hh
    exact ⟨rfl, (Option.some.inj hh).symm⟩

theorem leveled_compile {source file : String} {code : Chunk}
    (h : compile source file = .ok code) : ∃ heights, code.Leveled false heights := by
  unfold compile at h
  split at h
  · cases h
  · exact leveled_generate h

/-- **The code of a function is leveled.** -/
theorem leveled_bodyCode (line : Nat) (b : List Statement) :
    ∃ heights, Chunk.Leveled (bodyCode line b) true heights := by
  refine ⟨(blockHeights b ++ [0, 1]).toArray, ?_⟩
  have hh := Has.append.1 (Has.toArray (blockHeights b ++ [0, 1]))
  have hc := Has.append.1 (Has.toArray
    (blockCode 0 b ++ lined (closingOfAll line b) [.push .nil, .ret]))
  rw [length_blockHeights] at hh
  rw [length_blockCode] at hc
  have hb := fitting_block true b nofun hc.1 hh.1 hh.2.head
  have hp : Fitting true (bodyCode line b) _ (0 + blockSize b) :=
    fitting_of_next hc.2.head hh.2.head hh.2.tail.head trivial (Nat.le_refl 0) rfl rfl
  have hr : Fitting true (bodyCode line b) _ (0 + blockSize b + 1) :=
    fitting_last hc.2.tail.head hh.2.tail.head rfl (Nat.le_refl 1) rfl
  refine ⟨head_blockHeights hh.1 hh.2.head, ?_, ?_⟩
  · intro i hi
    refine (hb.snoc hp).snoc hr i (Nat.zero_le i) ?_
    simp [bodyCode] at hi
    omega
  · intro i h hi hh
    obtain ⟨hlt, -⟩ := Array.getElem?_eq_some_iff.1 hh
    simp [bodyCode] at hi hlt
    omega

end Ember.Code
