import Ember.Proofs.Code.Owners
import Ember.Proofs.Samples
import Mathlib.Logic.Relation

/-!
# Well-formed chunks

**Theorem (`wellFormed_generate`).** A program is refused exactly if a `return` stands outside of
all functions, and the first such `return` in the order of the text is the one that is reported. In
the chunk of any other program, and in the chunks of the functions in it, jumps lead forward or to
the end of the chunk at most, except that the last instruction of a loop leads back to the first
one of its condition; and apart from jumps every instruction has the line of its statement.

Code is generated for the index at which it will stand, so the claim on jumps is an induction on the
statement with this index in the hypothesis (`aimed_blockCode`). That a loop's code is there to be
led back to is said of the whole chunk (`Has`), of which the code of a block is a part.
-/

namespace Ember

namespace Source

/-! ## Statements outside of functions -/

def Statement.returns : Statement → Bool
  | .give .. => true
  | _ => false

mutual

/-- A statement and the statements in it that are in no function, in the order of the text. -/
def Statement.outer : Statement → List Statement
  | .when line condition body => .when line condition body :: outerIn body
  | .choose line condition body other =>
    .choose line condition body other :: (outerIn body ++ outerIn other)
  | .loop line condition body => .loop line condition body :: outerIn body
  | st => [st]

/-- The statements of a block that are in no function of it, in the order of the text. -/
def outerIn : List Statement → List Statement
  | [] => []
  | st :: rest => st.outer ++ outerIn rest

end

end Source

namespace Code

open Source (Expr Statement Program outerIn)

mutual

theorem strayReturn?_eq : ∀ st : Statement,
    strayReturn? st = (st.outer.find? Statement.returns).map Statement.line
  | .give .. => rfl
  | .when _ _ body | .loop _ _ body => strayReturnIn?_eq body
  | .choose _ _ body other => by
    have hb := strayReturnIn?_eq body
    have ho := strayReturnIn?_eq other
    simp only [strayReturn?, Statement.outer, List.find?_cons, Statement.returns,
      List.find?_append, hb, ho]
    rw [Option.map_or]
  | .assign .. | .setAttribute .. | .expr .. | .function .. | .use .. | .raise .. => rfl

/-- The `return` that is reported is the first one that is in no function. -/
theorem strayReturnIn?_eq : ∀ b : List Statement,
    strayReturnIn? b = ((outerIn b).find? Statement.returns).map Statement.line
  | [] => rfl
  | st :: rest => by
    rw [strayReturnIn?, outerIn, List.find?_append, Option.map_or, strayReturn?_eq st,
      strayReturnIn?_eq rest]

end

theorem generate_eq_error_iff {file : String} {p : Program} {e : CompileError} :
    generate file p = .error e ↔ ∃ st, (outerIn p).find? Statement.returns = some st ∧
      e = .returnOutsideFunction file st.line := by
  unfold generate
  rw [strayReturnIn?_eq]
  cases (outerIn p).find? Statement.returns with
  | none => simp
  | some st => simp [eq_comm]

/-! ## Jumps -/

/-- The indices to which an instruction may jump. -/
def Instr.targets : Instr → List Nat
  | jump target | jumpIfFalse target => [target]
  | _ => []

/-- An instruction at an index leads forward, but not beyond another index. -/
def Forward (stop k : Nat) (i : Instr) : Prop := ∀ target ∈ i.targets, k < target ∧ target ≤ stop

section Forward

variable {stop stop' start k target : Nat} {i : Instr}

theorem Forward.of_targets (h : i.targets = []) : Forward stop k i := by
  intro target ht
  rw [h] at ht
  cases ht

theorem forward_jump (hk : k < target) (hs : target ≤ stop) : Forward stop k (.jump target) := by
  intro t ht
  rw [List.mem_singleton.1 ht]
  exact ⟨hk, hs⟩

theorem forward_jumpIfFalse (hk : k < target) (hs : target ≤ stop) :
    Forward stop k (.jumpIfFalse target) := by
  intro t ht
  rw [List.mem_singleton.1 ht]
  exact ⟨hk, hs⟩

theorem EachAt.forward {p : List Instr} (hp : EachAt (Forward stop) start p)
    (hs : stop ≤ stop') : EachAt (Forward stop') start p :=
  hp.imp fun _ _ _ _ h t ht => ⟨(h t ht).1, Nat.le_trans (h t ht).2 hs⟩

theorem forward_asBool (stop start : Nat) : EachAt (Forward stop) start asBool :=
  .cons (.of_targets rfl) (.single (.of_targets rfl))

mutual

/-- The code of an expression leads to its end at most. -/
theorem forward_exprCode : ∀ (e : Expr) (start : Nat),
    EachAt (Forward (start + exprSize e)) start (exprCode start e)
  | .integer _, _ | .float _, _ | .text _, _ | .bool _, _ | .nil, _ | .variable _, _ =>
    .single (.of_targets rfl)
  | .binary (.operator op) l r, start => by
    have hl := forward_exprCode l start
    have hr := forward_exprCode r (start + exprSize l)
    simp only [exprCode, exprSize, length_exprCode]
    refine ((hl.forward (by omega)).append ?_).append (.single (.of_targets rfl))
    rw [length_exprCode]
    exact hr.forward (by omega)
  | .binary .and l r, start => by
    have hl := forward_exprCode l start
    have hr := forward_exprCode r (start + exprSize l + 1)
    simp only [exprCode, exprSize, length_exprCode, List.length_append, length_asBool]
    refine (((hl.forward (by omega)).append (.single ?_)).append
      (.append ?_ (forward_asBool _ _))).append (.cons ?_ (.single (.of_targets rfl)))
    · rw [length_exprCode]
      exact forward_jumpIfFalse (by omega) (by omega)
    · rw [List.length_append, length_exprCode, List.length_singleton, ← Nat.add_assoc]
      exact hr.forward (by omega)
    · simp only [List.length_append, length_exprCode, List.length_singleton, length_asBool]
      exact forward_jump (by omega) (by omega)
  | .binary .or l r, start => by
    have hl := forward_exprCode l start
    have hr := forward_exprCode r (start + exprSize l + 3)
    simp only [exprCode, exprSize, length_exprCode, List.length_append, length_asBool]
    refine ((hl.forward (by omega)).append (.cons ?_ (.cons (.of_targets rfl) (.single ?_)))).append
      (.append ?_ (forward_asBool _ _))
    · rw [length_exprCode]
      exact forward_jumpIfFalse (by omega) (by omega)
    · rw [length_exprCode]
      exact forward_jump (by omega) (by omega)
    · rw [List.length_append, length_exprCode, ← Nat.add_assoc]
      exact hr.forward (by omega)
  | .unary .neg e, start | .unary .not e, start | .attribute e _, start => by
    have he := forward_exprCode e start
    simp only [exprCode, exprSize]
    exact (he.forward (by omega)).append (.single (.of_targets rfl))
  | .call f args, start => by
    have hf := forward_exprCode f start
    have ha := forward_argsCode args (start + exprSize f)
    simp only [exprCode, exprSize, length_exprCode]
    refine ((hf.forward (by omega)).append ?_).append (.single (.of_targets rfl))
    rw [length_exprCode]
    exact ha.forward (by omega)

theorem forward_argsCode : ∀ (es : List Expr) (start : Nat),
    EachAt (Forward (start + argsSize es)) start (argsCode start es)
  | [], _ => .nil
  | e :: es, start => by
    have he := forward_exprCode e start
    have hes := forward_argsCode es (start + exprSize e)
    simp only [argsCode, argsSize, length_exprCode]
    refine (he.forward (by omega)).append ?_
    rw [length_exprCode]
    exact hes.forward (by omega)

end

end Forward

/-- The instruction at `k` belongs to a loop, of which it is the last one, and the code of the
loop's condition stands at `target`. -/
def ClosesLoop (code : Chunk) (owner : Option Statement) (k target : Nat) : Prop :=
  ∃ line condition body, owner = some (.loop line condition body) ∧
    k + 1 = target + statementSize (.loop line condition body) ∧
    Has code target (lined line (exprCode target condition))

/-- Where the jumps of an instruction at `k` lead: forward, but not beyond `stop`, or from the end
of a loop to its beginning. -/
def Aimed (code : Chunk) (owner : Option Statement) (stop k : Nat) (i : Instr) : Prop :=
  ∀ target ∈ i.targets,
    k < target ∧ target ≤ stop ∨ i = .jump target ∧ ClosesLoop code owner k target

section Aimed

variable {code : Chunk} {owner owner' : Option Statement} {start stop stop' k : Nat} {i : Instr}

theorem Forward.aimed (h : Forward stop k i) : Aimed code owner stop k i :=
  fun target ht => .inl (h target ht)

/-- What holds of a part of the code of a block, or of a statement, holds of the whole. -/
theorem Aimed.imp (h : Aimed code owner stop k i) (ho : ∀ st, owner = some st → owner' = some st)
    (hs : stop ≤ stop') : Aimed code owner' stop' k i := by
  intro target ht
  rcases h target ht with ⟨hk, ht⟩ | ⟨hi, line, condition, body, hst, hrest⟩
  · exact .inl ⟨hk, Nat.le_trans ht hs⟩
  · exact .inr ⟨hi, line, condition, body, ho _ hst, hrest⟩

theorem aimed_lined {line : Nat} {owner : Nat → Option Statement} {p : List Instr}
    (hp : EachAt (Forward stop) start p) :
    EachAt (fun k x => Aimed code (owner k) stop k x.1) start (lined line p) :=
  (EachAt.lined hp).imp fun _ _ _ _ h => h.aimed

/-- The code of an expression, and an instruction that does not jump. -/
theorem aimed_last {line : Nat} {owner : Nat → Option Statement} (e : Expr) (hi : i.targets = [])
    (hs : start + exprSize e ≤ stop) : EachAt (fun k x => Aimed code (owner k) stop k x.1) start
      (lined line (exprCode start e ++ [i])) :=
  aimed_lined (((forward_exprCode e start).forward hs).append (.single (.of_targets hi)))

/-- The test of a condition, and the jump behind it. -/
theorem aimed_test {line target : Nat} {owner : Nat → Option Statement} (condition : Expr)
    (ht : start + exprSize condition < target) (hs : target ≤ stop) :
    EachAt (fun k x => Aimed code (owner k) stop k x.1) start
      (lined line (exprCode start condition ++ [.jumpIfFalse target])) := by
  refine aimed_lined (((forward_exprCode condition start).forward (by omega)).append (.single ?_))
  rw [length_exprCode]
  exact forward_jumpIfFalse ht hs

mutual

theorem aimed_statementCode : ∀ (st : Statement) {start : Nat},
    Has code start (statementCode start st) →
    EachAt (fun k x => Aimed code (some (ownerOf start k st)) (start + statementSize st) k x.1)
      start (statementCode start st)
  | .assign _ _ e, _, _ | .expr _ e, _, _ | .raise _ e, _, _ | .give _ (some e), _, _ =>
    aimed_last e rfl (by simp only [statementSize]; omega)
  | .give _ none, _, _ | .function .., _, _ | .use .., _, _ =>
    .cons (Forward.of_targets rfl).aimed (.single (Forward.of_targets rfl).aimed)
  | .setAttribute line object name e, start, _ => by
    have he := forward_exprCode e start
    have ho := forward_exprCode object (start + exprSize e)
    simp only [statementCode, statementSize, length_exprCode]
    refine aimed_lined (((he.forward (by omega)).append ?_).append (.single (.of_targets rfl)))
    rw [length_exprCode]
    exact ho.forward (by omega)
  | .when line condition body, start, h => by
    simp only [statementCode, length_exprCode, length_blockCode, Has.append, length_lined,
      List.length_append, List.length_singleton, ← Nat.add_assoc] at h
    have hb := aimed_blockCode body h.2
    simp only [statementCode, statementSize, length_exprCode, length_blockCode]
    refine (aimed_test condition (by omega) (by omega)).append ?_
    simp only [length_lined, List.length_append, length_exprCode, List.length_singleton,
      ← Nat.add_assoc]
    refine hb.imp fun k x _ _ hx => hx.imp (fun st hst => ?_) (by omega)
    rw [ownerOf, hst]
    rfl
  | .choose line condition body other, start, h => by
    simp only [statementCode, length_exprCode, length_blockCode, Has.append, length_lined,
      List.length_append, List.length_singleton, ← Nat.add_assoc] at h
    have hb := aimed_blockCode body h.1.2
    have ho := aimed_blockCode other h.2.tail
    simp only [statementCode, statementSize, length_exprCode, length_blockCode]
    refine ((aimed_test condition (by omega) (by omega)).append ?_).append (.cons ?_ ?_)
    · simp only [length_lined, List.length_append, length_exprCode, List.length_singleton,
        ← Nat.add_assoc]
      refine hb.imp fun k x _ _ hx => hx.imp (fun st hst => ?_) (by omega)
      rw [ownerOf, hst]
      rfl
    · simp only [length_lined, List.length_append, length_exprCode, List.length_singleton,
        length_blockCode]
      exact (forward_jump (by omega) (by omega)).aimed
    · simp only [length_lined, List.length_append, length_exprCode, List.length_singleton,
        length_blockCode, ← Nat.add_assoc]
      refine ho.imp fun k x hk _ hx => hx.imp (fun st hst => ?_) (by omega)
      rw [ownerOf, ownerIn_of_le (Nat.le_of_succ_le hk), hst]
      rfl
  | .loop line condition body, start, h => by
    simp only [statementCode, length_exprCode, length_blockCode, lined_append, Has.append,
      length_lined, List.length_append, List.length_singleton, ← Nat.add_assoc] at h
    have hb := aimed_blockCode body h.1.2
    simp only [statementCode, statementSize, length_exprCode, length_blockCode]
    refine ((aimed_test condition (by omega) (by omega)).append ?_).append (.single ?_)
    · simp only [length_lined, List.length_append, length_exprCode, List.length_singleton,
        ← Nat.add_assoc]
      refine hb.imp fun k x _ _ hx => hx.imp (fun st hst => ?_) (by omega)
      rw [ownerOf, hst]
      rfl
    · simp only [length_lined, List.length_append, length_exprCode, List.length_singleton,
        length_blockCode, ← Nat.add_assoc]
      intro target ht
      rw [List.mem_singleton.1 ht]
      refine .inr ⟨rfl, line, condition, body, ?_, ?_, h.1.1.1⟩
      · rw [ownerOf, ownerIn_of_le (Nat.le_refl _)]
        rfl
      · simp only [statementSize, Nat.add_assoc]

/-- **The jumps of a block** stay in it, and those that lead back end loops. -/
theorem aimed_blockCode : ∀ (b : List Statement) {start : Nat},
    Has code start (blockCode start b) →
    EachAt (fun k x => Aimed code (ownerIn start k b) (start + blockSize b) k x.1)
      start (blockCode start b)
  | [], _, _ => .nil
  | st :: rest, start, h => by
    simp only [blockCode, Has.append, length_statementCode] at h
    have hs := aimed_statementCode st h.1
    have hr := aimed_blockCode rest h.2
    simp only [blockCode, blockSize, length_statementCode]
    refine (hs.imp fun k x hk hlt hx => hx.imp (fun s hst => ?_) (by omega)).append ?_
    · rw [length_statementCode] at hlt
      rw [ownerIn, if_neg (Nat.not_lt.2 hk), if_pos hlt, hst]
    · rw [length_statementCode]
      refine hr.imp fun k x hk _ hx => hx.imp (fun s hst => ?_) (by omega)
      rw [ownerIn, if_neg (by omega), if_neg (by omega), hst]

end

end Aimed

/-! ## Chunks -/

/-- How the chunk of a block is put together, be it that of a program or of a function's body. -/
structure Chunk.WellFormed (code : Chunk) (b : List Statement) : Prop where
  /-- There are as many lines as instructions. -/
  lines : (code.map Prod.snd).size = (code.map Prod.fst).size
  /-- Jumps lead into the chunk or to its end. -/
  target : ∀ (k : Nat) (i : Instr) (line : Nat), code[k]? = some (i, line) →
    ∀ target ∈ i.targets, target ≤ code.size
  /-- Only from the end of a loop to its beginning does the code lead back. -/
  back : ∀ (k : Nat) (i : Instr) (line : Nat), code[k]? = some (i, line) →
    ∀ target ∈ i.targets, target ≤ k → i = .jump target ∧ ClosesLoop code (ownerIn 0 k b) k target
  /-- Apart from jumps, the instructions of the block have the lines of their statements. -/
  line : ∀ (k : Nat) (i : Instr) (line : Nat), code[k]? = some (i, line) → k < blockSize b →
    (∀ target, i ≠ .jump target) → ∃ st, ownerIn 0 k b = some st ∧ st.line = line

/-- A chunk makes functions with this body. -/
def Chunk.Makes (code body : Chunk) : Prop :=
  ∃ (k : Nat) (name : String) (params : List String) (line : Nat),
    code[k]? = some (.makeFunction name params body, line)

/-- Only the jumps of the block jump, whatever stands behind it. -/
theorem aimed_append {b : List Statement} {tail : List (Instr × Nat)} {code : Chunk}
    (hc : code = (blockCode 0 b ++ tail).toArray) (ht : ∀ x ∈ tail, x.1.targets = []) :
    EachAt (fun k x => Aimed code (ownerIn 0 k b) code.size k x.1) 0 (blockCode 0 b ++ tail) := by
  have hsize : 0 + blockSize b ≤ code.size := by simp [hc]
  have hhas : Has code 0 (blockCode 0 b) := by
    rw [hc]
    exact (Has.append.1 (Has.toArray _)).1
  have hb := (aimed_blockCode b hhas).imp fun k x _ _ hx => hx.imp (fun _ => id) hsize
  exact hb.append (.of_mem fun k x hx => (Forward.of_targets (ht x hx)).aimed)

/-- The instructions of the block have the lines of their statements, whatever stands behind it. -/
theorem line_append (b : List Statement) (tail : List (Instr × Nat)) :
    EachAt (fun k x => k < blockSize b → (∀ target, x.1 ≠ .jump target) →
      ∃ st, ownerIn 0 k b = some st ∧ st.line = x.2) 0 (blockCode 0 b ++ tail) := by
  refine ((owned_blockCode b 0).imp ?_).append ?_
  · rintro k x _ _ ⟨st, hst, howned⟩ _ hx
    exact ⟨st, hst, (howned.line hx).symm⟩
  · have htail : EachAt (fun _ _ => True) (0 + (blockCode 0 b).length) tail :=
      .of_mem fun _ _ _ => trivial
    refine htail.imp fun k x hk _ _ hlt => absurd hlt ?_
    rw [length_blockCode] at hk
    omega

theorem wellFormed_append {b : List Statement} {tail : List (Instr × Nat)}
    (ht : ∀ x ∈ tail, x.1.targets = []) :
    Chunk.WellFormed (blockCode 0 b ++ tail).toArray b where
  lines := by rw [Array.size_map, Array.size_map]
  target k i line hk target hi := by
    rcases (aimed_append rfl ht).toArray hk target hi with ⟨-, hle⟩ | ⟨-, _, _, _, -, hend, -⟩
    · exact hle
    · obtain ⟨hlt, -⟩ := Array.getElem?_eq_some_iff.1 hk
      omega
  back k i line hk target hi hle := by
    rcases (aimed_append rfl ht).toArray hk target hi with ⟨hlt, -⟩ | hback
    · exact absurd hlt (Nat.not_lt.2 hle)
    · exact hback
  line k i line hk := (line_append b tail).toArray hk

/-- The bodies of the functions that are made in a program's chunk, or in one another, are those of
the program's functions. -/
theorem exists_bodyCode {p : Program} {body : Chunk}
    (h : Relation.TransGen Chunk.Makes (blockCode 0 p).toArray body) :
    ∃ line b, Block p b ∧ body = bodyCode line b := by
  induction h with
  | single h =>
    obtain ⟨k, name, params, line, hk⟩ := h
    obtain ⟨l, b, hb, hbody⟩ := Chunk.IsOf.makeFunction (.inl rfl) hk
    exact ⟨l, b, .body .program hb, hbody⟩
  | tail _ h ih =>
    obtain ⟨line, b, hb, rfl⟩ := ih
    obtain ⟨k, name, params, line, hk⟩ := h
    obtain ⟨l, b', hb', hbody⟩ := Chunk.IsOf.makeFunction (.inr ⟨_, rfl⟩) hk
    exact ⟨l, b', .body hb hb', hbody⟩

theorem ne_ret_of_generate {file : String} {p : Program} {code : Chunk}
    (h : generate file p = .ok code) : ∀ x ∈ code, x.1 ≠ .ret := by
  obtain ⟨heights, hleveled⟩ := leveled_generate h
  intro x hx hret
  obtain ⟨k, hk⟩ := Array.mem_iff_getElem?.1 hx
  obtain ⟨hlt, -⟩ := Array.getElem?_eq_some_iff.1 hk
  obtain ⟨i, line, _, hi, -, hproper, -⟩ := hleveled.fitting k hlt
  rw [hk] at hi
  cases hi
  rw [show i = .ret from hret] at hproper
  cases hproper

/-- **Only misplaced returns are refused, and what is compiled is well formed.** -/
theorem wellFormed_generate (file : String) (p : Program) :
    (∀ e, generate file p = .error e ↔ ∃ st, (outerIn p).find? Statement.returns = some st ∧
      e = .returnOutsideFunction file st.line) ∧
    ∀ code, generate file p = .ok code →
      (code.WellFormed p ∧ code.size = blockSize p ∧ ∀ x ∈ code, x.1 ≠ .ret) ∧
      ∀ body, Relation.TransGen Chunk.Makes code body → ∃ b front line, Block p b ∧
        body.WellFormed b ∧ front.length = blockSize b ∧
        body.toList = front ++ lined line [.push .nil, .ret] := by
  refine ⟨fun e => generate_eq_error_iff, fun code h => ?_⟩
  have hret := ne_ret_of_generate h
  obtain ⟨-, rfl⟩ := generate_eq_ok h
  refine ⟨⟨?_, by simp, hret⟩, fun body hbody => ?_⟩
  · have hp : Chunk.WellFormed (blockCode 0 p ++ []).toArray p := wellFormed_append nofun
    rwa [List.append_nil] at hp
  · obtain ⟨line, b, hb, rfl⟩ := exists_bodyCode hbody
    have hend : ∀ x ∈ lined (closingOfAll line b) [.push .nil, .ret], x.1.targets = [] := by
      intro x hx
      rcases List.mem_pair.1 hx with rfl | rfl <;> rfl
    exact ⟨b, blockCode 0 b, _, hb, wellFormed_append hend, length_blockCode b 0, rfl⟩

/-- The loop of the sample is compiled to the indices 2 to 8. -/
theorem wellFormed_sampleProgram : ∃ code, generate "" Interpreter.sampleProgram = .ok code ∧
    code.WellFormed Interpreter.sampleProgram ∧
    ClosesLoop code (ownerIn 0 8 Interpreter.sampleProgram) 8 2 := by
  have h := ((wellFormed_generate "" Interpreter.sampleProgram).2 _ rfl).1.1
  exact ⟨_, rfl, h, (h.back 8 (.jump 2) 3 rfl 2 (List.mem_singleton_self 2) (by decide)).2⟩

end Code

end Ember
