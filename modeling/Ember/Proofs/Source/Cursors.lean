import Ember.Proofs.Source.Grammar

/-!
# Cursors and lexemes in the parser

What the small steps of the parser do, as equivalences that serve both directions: a step succeeds
with such and such a result exactly if the next lexeme, or a count, is so and so. The place of a
cursor is said by what it stands in front of: `c.before ts` is the cursor from which the tokens `ts`
lead to `c`. The tables of operators agree with those of the grammar, and a level's operators bind
as tightly as the level's rank says.
-/

namespace Ember.Source.Parser

/-- What two steps in sequence return. -/
theorem bind_eq_ok {α β : Type} {x : Except Stop α} {f : α → Except Stop β} {b : β} :
    x >>= f = .ok b ↔ ∃ a, x = .ok a ∧ f a = .ok b := by
  cases x with
  | error s => exact ⟨nofun, nofun⟩
  | ok a => exact ⟨fun h => ⟨a, rfl, h⟩, fun ⟨_, ha, h⟩ => Except.ok.inj ha ▸ h⟩

namespace Cursor

variable {c c' c'' : Cursor} {t : Token} {ts us : List Token} {s : Symbol} {k : Keyword}

/-- The cursor in front of some tokens that stand before its own. -/
def before (c : Cursor) (ts : List Token) : Cursor := { c with rest := ts ++ c.rest }

@[simp] theorem before_nil : c.before [] = c := rfl

theorem before_append : c.before (ts ++ us) = (c.before us).before ts := by
  simp only [before, List.append_assoc]

@[simp] theorem lexeme_before_cons : (c.before (t :: ts)).lexeme = t.lexeme := rfl

theorem before_trans (h : c = c'.before ts) (h' : c' = c''.before us) :
    c = c''.before (ts ++ us) := by
  rw [h, h', before_append]

/-- A cursor that is not at the end stands in front of a token. -/
theorem before_token {x : Lexeme} (h : c.lexeme = x) (hx : x ≠ .finish) :
    c = c.advance.before [⟨x, c.token.place⟩] := by
  subst h
  obtain ⟨_ | ⟨t, ts⟩, levels, blocks⟩ := c
  · exact absurd rfl hx
  · rfl

theorem sees_iff : c.sees s ↔ c.lexeme = .symbol s := by
  unfold sees
  cases c.lexeme <;> simp

theorem sees_before {p : Place} : (c.before (⟨.symbol s, p⟩ :: ts)).sees s := sees_iff.2 rfl

theorem seesKeyword_iff : c.seesKeyword k ↔ c.lexeme = .keyword k := by
  unfold seesKeyword
  cases c.lexeme <;> simp

theorem atEnd_iff : c.atEnd ↔ c.lexeme = .finish := by
  unfold atEnd
  cases c.lexeme <;> simp

/-! Questions are answered by the next lexeme. -/

theorem sees_congr (h : c'.lexeme = c.lexeme) (s : Symbol) : c'.sees s = c.sees s := by
  rw [sees, sees, h]

theorem seesKeyword_congr (h : c'.lexeme = c.lexeme) (k : Keyword) :
    c'.seesKeyword k = c.seesKeyword k := by
  rw [seesKeyword, seesKeyword, h]

theorem atEnd_congr (h : c'.lexeme = c.lexeme) : c'.atEnd = c.atEnd := by
  rw [atEnd, atEnd, h]

theorem expect_eq_ok : c.expect s = .ok c' ↔ c.lexeme = .symbol s ∧ c.advance = c' := by
  unfold expect
  rw [← sees_iff]
  by_cases hs : c.sees s
  · simp [hs]
  · by_cases he : c.atEnd <;> simp [hs, he]

theorem expectName_eq_ok {role : NameRole} {x : String} :
    c.expectName role = .ok (x, c') ↔ c.lexeme = .name x ∧ c.advance = c' := by
  unfold expectName
  cases c.lexeme <;> simp

theorem deeper_eq_ok {d d' : Nat} : c.deeper d = .ok d' ↔ d < maxDepth ∧ d + 1 = d' := by
  unfold deeper
  by_cases h : maxDepth ≤ d
  · simp [h, Nat.not_lt_of_le h]
  · simp [h, Nat.lt_of_not_le h]

theorem enterLevel_eq_ok :
    c.enterLevel = .ok c' ↔ c.levels < maxLevels ∧ { c with levels := c.levels + 1 } = c' := by
  unfold enterLevel
  by_cases h : maxLevels ≤ c.levels
  · simp [h, Nat.not_lt_of_le h]
  · simp [h, Nat.lt_of_not_le h]

/-- A level that is opened and left again. -/
theorem before_leaveLevel (he : c.enterLevel = .ok c') (h : c' = c''.before ts) :
    c = c''.leaveLevel.before ts ∧ maxLevels - c.levels = maxLevels - c'.levels + 1 := by
  obtain ⟨hl, rfl⟩ := enterLevel_eq_ok.1 he
  obtain ⟨rest, levels, blocks⟩ := c''
  simp only [before, mk.injEq] at h
  obtain ⟨hrest, rfl, rfl⟩ := h
  refine ⟨?_, ?_⟩
  · show c = ⟨ts ++ rest, c.levels, c.blocks⟩
    rw [← hrest]
  · show maxLevels - c.levels = maxLevels - (c.levels + 1) + 1
    omega

theorem enterBlock_eq_ok :
    c.enterBlock = .ok c' ↔ c.blocks < maxBlocks ∧ { c with blocks := c.blocks + 1 } = c' := by
  unfold enterBlock
  by_cases h : maxBlocks ≤ c.blocks
  · simp [h, Nat.not_lt_of_le h]
  · simp [h, Nat.lt_of_not_le h]

/-- A block that is opened and left again. -/
theorem before_leaveBlock (he : c.enterBlock = .ok c') (h : c' = c''.before ts) :
    c = c''.leaveBlock.before ts ∧ maxBlocks - c.blocks = maxBlocks - c'.blocks + 1 := by
  obtain ⟨hl, rfl⟩ := enterBlock_eq_ok.1 he
  obtain ⟨rest, levels, blocks⟩ := c''
  simp only [before, mk.injEq] at h
  obtain ⟨hrest, rfl, rfl⟩ := h
  refine ⟨?_, ?_⟩
  · show c = ⟨ts ++ rest, c.levels, c.blocks⟩
    rw [← hrest]
  · show maxBlocks - c.blocks = maxBlocks - (c.blocks + 1) + 1
    omega

end Cursor

/-! ## Operators -/

/-- The levels in order, the loosest first. -/
def Level.rank : Level → Nat
  | either => 1
  | both => 2
  | comparison => 3
  | sum => 4
  | product => 5

theorem Level.rank_le_five (l : Level) : l.rank ≤ 5 := by
  cases l <;> decide

theorem leaf?_eq_some_iff {x : Lexeme} {e : Expr} : leaf? x = some e ↔ Leaf e x := by
  constructor
  · intro h
    unfold leaf? at h
    split at h <;> cases h <;> constructor
  · intro h
    cases h <;> rfl

theorem unaryOp?_eq_some_iff {x : Lexeme} {op : UnaryOp} :
    unaryOp? x = some op ↔ x ∈ op.spellings := by
  constructor
  · intro h
    unfold unaryOp? at h
    split at h <;> cases h <;> simp [UnaryOp.spellings]
  · intro h
    cases op <;> simp only [UnaryOp.spellings, List.mem_cons, List.not_mem_nil, or_false] at h
    · rw [h, unaryOp?]
    · rcases h with rfl | rfl <;> rfl

theorem op?_eq_some_iff {l : Level} {x : Lexeme} {op : BinaryOp} :
    l.op? x = some op ↔ op.level = l ∧ x ∈ op.spellings := by
  constructor
  · intro h
    unfold Level.op? at h
    split at h <;> cases h <;> simp [BinaryOp.level, BinaryOp.spellings]
  · rintro ⟨rfl, h⟩
    rcases op with ⟨_ | _⟩ | _ | _ <;>
      simp only [BinaryOp.spellings, List.mem_cons, List.not_mem_nil, or_false] at h <;>
      first | (subst h; rfl) | (rcases h with rfl | rfl <;> rfl)

theorem isSome_op? (l : Level) (x : Lexeme) : (l.op? x).isSome = decide (x.hold = l.rank) := by
  cases x with
  | symbol s => cases l <;> cases s <;> rfl
  | keyword k => cases l <;> cases k <;> rfl
  | _ => cases l <;> rfl

theorem op?_eq_none_iff {l : Level} {x : Lexeme} : l.op? x = none ↔ x.hold ≠ l.rank := by
  rw [← Option.not_isSome_iff_eq_none, isSome_op?, decide_eq_true_iff]

theorem hold_of_op? {l : Level} {x : Lexeme} {op : BinaryOp} (h : l.op? x = some op) :
    x.hold = l.rank := by
  have := isSome_op? l x
  rw [h] at this
  exact of_decide_eq_true this.symm

theorem hold_le_five_iff {x : Lexeme} :
    x.hold ≤ 5 ↔ x ≠ .symbol .dot ∧ x ≠ .symbol .openParen := by
  cases x with
  | symbol s => cases s <;> simp [Lexeme.hold]
  | keyword k => cases k <;> simp [Lexeme.hold]
  | _ => simp [Lexeme.hold]

end Ember.Source.Parser
