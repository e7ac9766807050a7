import Ember.Proofs.Code.Heights

/-!
# The statement that an instruction belongs to

The code of a statement covers a range of indices, within which the blocks of the statement cover
smaller ones. `ownerIn` finds the innermost statement whose code covers an index. Apart from jumps,
an instruction carries the line of this statement, and what it does is something that this
statement says: only assignments, definitions of functions and imports store, and only definitions
make functions, of their own bodies (`owned_blockCode`).
-/

namespace Ember

open Code (Instr bodyCode)

/-- The name that a statement gives a value. -/
def Source.Statement.binds : Source.Statement → Option String
  | .assign _ name _ | .function _ name .. => some name
  | .use _ module newName => some (newName.getD (Source.lastPart module))
  | _ => none

namespace Code

open Source (Expr Statement)

/-! ## Owners -/

mutual

/-- The innermost statement whose code covers the index `k`, in a statement whose code covers it
and stands at `start`. -/
def ownerOf (start k : Nat) : Statement → Statement
  | .when line condition body =>
    (ownerIn (start + exprSize condition + 1) k body).getD (.when line condition body)
  | .choose line condition body other =>
    ((ownerIn (start + exprSize condition + 1) k body).or
      (ownerIn (start + exprSize condition + 1 + blockSize body + 1) k other)).getD
        (.choose line condition body other)
  | .loop line condition body =>
    (ownerIn (start + exprSize condition + 1) k body).getD (.loop line condition body)
  | st => st

/-- The innermost statement whose code covers the index `k`, in a block whose code stands at
`start`. -/
def ownerIn (start k : Nat) : List Statement → Option Statement
  | [] => none
  | st :: rest =>
    if k < start then none
    else if k < start + statementSize st then some (ownerOf start k st)
    else ownerIn (start + statementSize st) k rest

end

theorem ownerIn_of_lt {start k : Nat} (h : k < start) (b : List Statement) :
    ownerIn start k b = none := by
  cases b with
  | nil => rfl
  | cons st rest => rw [ownerIn, if_pos h]

theorem ownerIn_of_le {k : Nat} : ∀ {b : List Statement} {start : Nat},
    start + blockSize b ≤ k → ownerIn start k b = none
  | [], _, _ => rfl
  | st :: rest, start, h => by
    simp only [blockSize] at h
    rw [ownerIn, if_neg (by omega), if_neg (by omega)]
    exact ownerIn_of_le (by omega)

/-! ## What statements say -/

/-- What is known of an instruction and its line from the statement that it belongs to. -/
structure Owned (st : Statement) (x : Instr × Nat) : Prop where
  line : (∀ target, x.1 ≠ .jump target) → x.2 = st.line
  store : ∀ name, x.1 = .store name → st.binds = some name
  makeFunction : ∀ name params body, x.1 = .makeFunction name params body →
    ∃ b, st = .function st.line name params b ∧ body = bodyCode st.line b

/-- Instructions that can stop the code although they find their operands. -/
def Instr.Fails : Instr → Prop
  | push _ | pop | invert | store _ | jump _ | jumpIfFalse _ | makeFunction .. | ret => False
  | operate _ | negate | load _ | getAttribute _ | setAttribute _ | call _ | use _ | raise => True

/-- Instructions that neither store nor make functions. -/
def Instr.Quiet : Instr → Prop
  | store _ | makeFunction .. => False
  | _ => True

theorem Owned.of_quiet {st : Statement} {i : Instr} {line : Nat} (hi : i.Quiet)
    (hl : (∀ target, i ≠ .jump target) → line = st.line) : Owned st (i, line) := by
  refine ⟨hl, ?_, ?_⟩
  · rintro name rfl
    cases hi
  · rintro name params body rfl
    cases hi

theorem owned_lined {st : Statement} {start : Nat} {p : List Instr}
    (hp : ∀ i ∈ p, Owned st (i, st.line)) : EachAt (fun _ => Owned st) start (lined st.line p) := by
  refine .of_mem fun _ x hx => ?_
  obtain ⟨i, hi, rfl⟩ := List.mem_map.1 hx
  exact hp i hi

mutual

theorem quiet_exprCode : ∀ (e : Expr) (start : Nat), ∀ i ∈ exprCode start e, i.Quiet
  | .integer _, _ | .float _, _ | .text _, _ | .bool _, _ | .nil, _ | .variable _, _ => by
    simp [exprCode, Instr.Quiet]
  | .binary (.operator op) l r, start => by
    have hl := quiet_exprCode l start
    have hr := quiet_exprCode r
    simp only [exprCode, List.mem_append, List.mem_singleton]
    rintro i ((hi | hi) | rfl)
    exacts [hl i hi, hr _ i hi, trivial]
  | .binary .and l r, start => by
    have hl := quiet_exprCode l start
    have hr := quiet_exprCode r
    simp only [exprCode, asBool, List.mem_append, List.mem_cons, List.not_mem_nil, or_false]
    rintro i (((hi | rfl) | (hi | rfl | rfl)) | rfl | rfl)
    exacts [hl i hi, trivial, hr _ i hi, trivial, trivial, trivial, trivial]
  | .binary .or l r, start => by
    have hl := quiet_exprCode l start
    have hr := quiet_exprCode r
    simp only [exprCode, asBool, List.mem_append, List.mem_cons, List.not_mem_nil, or_false]
    rintro i ((hi | rfl | rfl | rfl) | (hi | rfl | rfl))
    exacts [hl i hi, trivial, trivial, trivial, hr _ i hi, trivial, trivial]
  | .unary .neg e, start | .unary .not e, start | .attribute e _, start => by
    have he := quiet_exprCode e start
    simp only [exprCode, List.mem_append, List.mem_singleton]
    rintro i (hi | rfl)
    exacts [he i hi, trivial]
  | .call f args, start => by
    have hf := quiet_exprCode f start
    have ha := quiet_argsCode args
    simp only [exprCode, List.mem_append, List.mem_singleton]
    rintro i ((hi | hi) | rfl)
    exacts [hf i hi, ha _ i hi, trivial]

theorem quiet_argsCode : ∀ (es : List Expr) (start : Nat), ∀ i ∈ argsCode start es, i.Quiet
  | [], _ => by simp [argsCode]
  | e :: es, start => by
    have he := quiet_exprCode e start
    have hes := quiet_argsCode es
    simp only [argsCode, List.mem_append]
    rintro i (hi | hi)
    exacts [he i hi, hes _ i hi]

end

/-- The code of an expression of a statement, and one more instruction. -/
theorem owned_exprCode {st : Statement} {e : Expr} {start : Nat} {last : Instr}
    (hlast : Owned st (last, st.line)) :
    EachAt (fun _ => Owned st) start (lined st.line (exprCode start e ++ [last])) := by
  refine owned_lined fun i hi => ?_
  rcases List.mem_append.1 hi with hi | hi
  · exact .of_quiet (quiet_exprCode e start i hi) fun _ => rfl
  · rw [List.mem_singleton.1 hi]
    exact hlast

/-- The test of a condition, and the jump behind it. -/
theorem owned_test (st : Statement) (condition : Expr) (start target : Nat) :
    EachAt (fun k x => k < start + exprSize condition + 1 ∧ Owned st x) start
      (lined st.line (exprCode start condition ++ [.jumpIfFalse target])) := by
  have hlast : Owned st (.jumpIfFalse target, st.line) := .of_quiet trivial fun _ => rfl
  refine (owned_exprCode hlast).imp fun k x _ hk hx => ⟨?_, hx⟩
  simpa [Nat.add_assoc] using hk

mutual

theorem owned_statementCode : ∀ (st : Statement) (start : Nat),
    EachAt (fun k => Owned (ownerOf start k st)) start (statementCode start st)
  | .assign line name e, start => by
    have hlast : Owned (.assign line name e) (.store name, line) :=
      ⟨fun _ => rfl, fun _ h => by cases h; rfl, nofun⟩
    exact owned_exprCode hlast
  | .expr line e, start => by
    have hlast : Owned (.expr line e) (.pop, line) := .of_quiet trivial fun _ => rfl
    exact owned_exprCode hlast
  | .raise line e, start => by
    have hlast : Owned (.raise line e) (.raise, line) := .of_quiet trivial fun _ => rfl
    exact owned_exprCode hlast
  | .give line (some e), start => by
    have hlast : Owned (.give line (some e)) (.ret, line) := .of_quiet trivial fun _ => rfl
    exact owned_exprCode hlast
  | .give line none, start => by
    have hquiet : ∀ i ∈ [.push .nil, .ret], Owned (.give line none) (i, line) := by
      intro i hi
      refine .of_quiet ?_ fun _ => rfl
      rcases List.mem_pair.1 hi with rfl | rfl <;> trivial
    exact owned_lined hquiet
  | .setAttribute line object name e, start => by
    have hquiet : ∀ i ∈ exprCode start e ++ exprCode (start + (exprCode start e).length) object ++
        [.setAttribute name], Owned (.setAttribute line object name e) (i, line) := by
      intro i hi
      refine .of_quiet ?_ fun _ => rfl
      rcases List.mem_append.1 hi with hi | hi
      · rcases List.mem_append.1 hi with hi | hi
        · exact quiet_exprCode e _ i hi
        · exact quiet_exprCode object _ i hi
      · rw [List.mem_singleton.1 hi]
        trivial
    exact owned_lined hquiet
  | .when line condition body, start => by
    simp only [statementCode, length_exprCode]
    refine ((owned_test (.when line condition body) condition start _).imp ?_).append ?_
    · intro k x _ _ ⟨hk, hx⟩
      rw [ownerOf, ownerIn_of_lt hk]
      exact hx
    · simp only [length_lined, List.length_append, length_exprCode, List.length_singleton,
        ← Nat.add_assoc]
      refine (owned_blockCode body _).imp fun k x _ _ ⟨st, hst, hx⟩ => ?_
      rw [ownerOf, hst]
      exact hx
  | .choose line condition body other, start => by
    simp only [statementCode, length_exprCode, length_blockCode]
    refine (((owned_test (.choose line condition body other) condition start _).imp ?_).append
      ?_).append ?_
    · intro k x _ _ ⟨hk, hx⟩
      rw [ownerOf, ownerIn_of_lt hk, ownerIn_of_lt (by omega)]
      exact hx
    · simp only [length_lined, List.length_append, length_exprCode, List.length_singleton,
        ← Nat.add_assoc]
      refine (owned_blockCode body _).imp fun k x _ _ ⟨st, hst, hx⟩ => ?_
      rw [ownerOf, hst]
      exact hx
    · simp only [length_lined, List.length_append, length_exprCode, List.length_singleton,
        length_blockCode, ← Nat.add_assoc]
      -- The jump over the other branch has a line of its own, and belongs to neither branch.
      refine .cons ?_ ?_
      · rw [ownerOf, ownerIn_of_le (Nat.le_refl _), ownerIn_of_lt (Nat.lt_succ_self _)]
        exact .of_quiet trivial fun h => absurd rfl (h _)
      · refine (owned_blockCode other _).imp fun k x hk _ ⟨st, hst, hx⟩ => ?_
        rw [ownerOf, ownerIn_of_le (Nat.le_of_succ_le hk), hst]
        exact hx
  | .loop line condition body, start => by
    simp only [statementCode, length_exprCode]
    refine (((owned_test (.loop line condition body) condition start _).imp ?_).append
      ?_).append ?_
    · intro k x _ _ ⟨hk, hx⟩
      rw [ownerOf, ownerIn_of_lt hk]
      exact hx
    · simp only [length_lined, List.length_append, length_exprCode, List.length_singleton,
        ← Nat.add_assoc]
      refine (owned_blockCode body _).imp fun k x _ _ ⟨st, hst, hx⟩ => ?_
      rw [ownerOf, hst]
      exact hx
    · simp only [length_lined, List.length_append, length_exprCode, List.length_singleton,
        length_blockCode, ← Nat.add_assoc]
      refine .single ?_
      rw [ownerOf, ownerIn_of_le (Nat.le_refl _)]
      exact .of_quiet trivial fun h => absurd rfl (h _)
  | .function line name params body, start => by
    refine .cons ⟨fun _ => rfl, nofun, ?_⟩ (.single ⟨fun _ => rfl, ?_, nofun⟩)
    · intro n ps c h
      cases h
      exact ⟨body, rfl, rfl⟩
    · intro n h
      cases h
      rfl
  | .use line module newName, start => by
    refine .cons (.of_quiet trivial fun _ => rfl) (.single ⟨fun _ => rfl, ?_, nofun⟩)
    intro n h
    cases h
    rfl

/-- **What is known of the instructions of a block** from the statements that they belong to. -/
theorem owned_blockCode : ∀ (b : List Statement) (start : Nat),
    EachAt (fun k x => ∃ st, ownerIn start k b = some st ∧ Owned st x) start (blockCode start b)
  | [], _ => .nil
  | st :: rest, start => by
    rw [blockCode]
    refine ((owned_statementCode st start).imp fun k x hs hk hx => ?_).append ?_
    · rw [length_statementCode] at hk
      refine ⟨_, ?_, hx⟩
      rw [ownerIn, if_neg (Nat.not_lt.2 hs), if_pos hk]
    · refine (owned_blockCode rest _).imp fun k x hs _ hx => ?_
      rw [length_statementCode] at hs hx
      rw [ownerIn, if_neg (by omega), if_neg (by omega)]
      exact hx

end

/-! ## Programs -/

/-- The blocks that are compiled to chunks: the program itself, and the bodies of the functions that
are defined in such a block. -/
inductive Block (program : Source.Program) : List Statement → Prop
  | program : Block program program
  | body {b body : List Statement} {k line : Nat} {name : String} {params : List String} :
    Block program b → ownerIn 0 k b = some (.function line name params body) → Block program body

/-- The chunk of a block, as a program or as the body of a function. -/
def Chunk.IsOf (code : Chunk) (b : List Statement) : Prop :=
  code = (blockCode 0 b).toArray ∨ ∃ line, code = bodyCode line b

section Chunks

variable {code : Chunk} {b : List Statement} {k line : Nat}

/-- An instruction of a chunk belongs to a statement of the block, unless it is one of the two at
the end of the body of a function. -/
theorem Chunk.IsOf.owned {x : Instr × Nat} (hc : code.IsOf b) (hk : code[k]? = some x) :
    (∃ st, ownerIn 0 k b = some st ∧ Owned st x) ∨ x.1 = .push .nil ∨ x.1 = .ret := by
  rcases hc with rfl | ⟨l, rfl⟩
  · exact .inl ((owned_blockCode b 0).toArray hk)
  · have hend : ∀ start, EachAt (fun k x => (∃ st, ownerIn 0 k b = some st ∧ Owned st x) ∨
        x.1 = .push .nil ∨ x.1 = .ret) start (lined (closingOfAll l b) [.push .nil, .ret]) :=
      fun start => .cons (.inr (.inl rfl)) (.single (.inr (.inr rfl)))
    have hblock := (owned_blockCode b 0).imp (Q := fun k x => (∃ st, ownerIn 0 k b = some st ∧
      Owned st x) ∨ x.1 = .push .nil ∨ x.1 = .ret) fun k x _ _ h => .inl h
    exact (hblock.append (hend _)).toArray hk

/-- **An instruction that fails carries the line of the statement that it belongs to.** -/
theorem Chunk.IsOf.owner {i : Instr} (hc : code.IsOf b) (hk : code[k]? = some (i, line))
    (hi : i.Fails) : ∃ st, ownerIn 0 k b = some st ∧ st.line = line := by
  rcases hc.owned hk with ⟨st, hst, howned⟩ | hpush | hret
  · refine ⟨st, hst, (howned.line ?_).symm⟩
    rintro target rfl
    exact hi
  · cases hpush
    exact hi.elim
  · cases hret
    exact hi.elim

/-- A chunk makes the functions that its block defines. -/
theorem Chunk.IsOf.makeFunction {name : String} {params : List String} {body : Chunk}
    (hc : code.IsOf b) (hk : code[k]? = some (.makeFunction name params body, line)) :
    ∃ l b', ownerIn 0 k b = some (.function l name params b') ∧ body = bodyCode l b' := by
  rcases hc.owned hk with ⟨st, hst, howned⟩ | hpush | hret
  · obtain ⟨b', hst', hbody⟩ := howned.makeFunction name params body rfl
    exact ⟨st.line, b', hst' ▸ hst, hbody⟩
  · cases hpush
  · cases hret

end Chunks

end Code

end Ember
