import Ember.Proofs.Machine.Effects
import Ember.Proofs.Machine.Runs

/-!
# Operands of compiled code

When compiled code runs, the number of operands above the floor of the innermost call or load is the
height that the code has at that place, and each call or load that is suspended awaits one operand
more than lie below the one above it (`Stacked`). Every step keeps this (`moves_step`): it leaves
the levels as they are, begins one, or ends some, and then it leaves exactly one operand in the
place of what the outermost of these began with.
-/

namespace Ember.Machine

open Code (Instr bodyCode)

variable {H : Type}

/-- An activation is at a place of compiled code where `height` operands are expected, of which
`floor` lie below its innermost call. -/
def Standing (a : Activation) (floor height : Nat) : Prop :=
  ∃ heights h, a.code.Leveled (!a.frames.isEmpty) heights ∧ heights[a.ip]? = some h ∧
    height = floor + h

/-- An activation awaits one more operand than the `height` ones that are there. -/
def Awaiting (a : Activation) (floor height : Nat) : Prop :=
  ∃ heights h, a.code.Leveled (!a.frames.isEmpty) heights ∧ heights[a.ip]? = some (h + 1) ∧
    height = floor + h

/-- What goes on after each level awaits its result. -/
def Suspended (start : Nat) : List Level → Prop
  | [] => True
  | l :: ls => Awaiting l.back (floorOf start ls) l.floor ∧ Suspended start ls

/-- If code that a load belongs to is the outermost, then `start` operands lie below the load. -/
def Based (start : Nat) (base : Option Nat) : List Activation → Prop
  | [] => ∀ n, base = some n → n = start
  | a :: below => base = none ∨ Based start (a.load.map Load.base) below

/-- The operands of a machine are as its code expects them; `start` lie below all of it. -/
structure Stacked (start : Nat) (m : Machine H) : Prop where
  compiled : m.state.heap.Compiled
  standing : Standing m.top (floorOf start m.levels) m.state.stack.length
  suspended : Suspended start m.levels
  based : Based start (m.top.load.map Load.base) m.below

/-! ## Floors -/

section Floors

variable {start : Nat}

theorem Awaiting.standing {a : Activation} {floor height : Nat} (h : Awaiting a floor height) :
    Standing a floor (height + 1) := by
  obtain ⟨heights, n, hl, hn, rfl⟩ := h
  exact ⟨heights, n + 1, hl, hn, Nat.add_assoc floor n 1⟩

theorem Awaiting.le {a : Activation} {floor height : Nat} (h : Awaiting a floor height) :
    floor ≤ height := by
  obtain ⟨heights, n, hl, hn, rfl⟩ := h
  exact Nat.le_add_right floor n

theorem Standing.le {a : Activation} {floor height : Nat} (h : Standing a floor height) :
    floor ≤ height := by
  obtain ⟨heights, n, hl, hn, rfl⟩ := h
  exact Nat.le_add_right floor n

/-- The floors fall from the inner levels to the outer ones. -/
theorem Suspended.floor_le (pre : List Level) {post : List Level}
    (h : Suspended start (pre ++ post)) : floorOf start post ≤ floorOf start (pre ++ post) := by
  induction pre with
  | nil => exact Nat.le_refl _
  | cons l pre ih => exact (ih h.2).trans h.1.le

theorem Suspended.of_append {pre post : List Level} (h : Suspended start (pre ++ post)) :
    Suspended start post := by
  induction pre with
  | nil => exact h
  | cons l pre ih => exact ih h.2

theorem Suspended.start_le {ls : List Level} (h : Suspended start ls) :
    start ≤ floorOf start ls := by
  rw [← List.append_nil ls] at h ⊢
  exact Suspended.floor_le ls h

theorem Suspended.start_le_of_mem {ls : List Level} (h : Suspended start ls) {l : Level}
    (hl : l ∈ ls) : start ≤ l.floor := by
  obtain ⟨pre, post, rfl⟩ := List.append_of_mem hl
  exact h.of_append.start_le

theorem Suspended.floor_le_of_mem {inner ls : List Level} {l k : Level}
    (h : Suspended start (inner ++ l :: ls)) (hk : k ∈ inner) : l.floor ≤ k.floor := by
  obtain ⟨pre, post, rfl⟩ := List.append_of_mem hk
  rw [List.append_assoc] at h
  exact Suspended.floor_le (k :: post) h.of_append

/-- The base of a load is the floor of its code. -/
theorem Based.floorOf {base : Nat} : ∀ {below : List Activation}, Based start (some base) below →
    floorOf start (loadLevels (some base) below) = base
  | [], h => (h base rfl).symm
  | _ :: _, _ => rfl

end Floors

/-! ## The end of levels -/

/-- The levels `ls` have ended, or some of them from the innermost on; `xs` are the operands. -/
def Ends (start : Nat) (ls : List Level) (xs : List Value) : Progress H → Prop
  | .running m => Stacked start m ∧ ∃ ended l v, ls = ended ++ l :: m.levels ∧ m.top = l.back ∧
      m.below = l.below ∧ m.state.stack = v :: xs.rtake l.floor
  | .done s (.ran (.error _)) => xs.rtake start <:+ s.stack
  | .done s _ => s.stack = xs.rtake start

theorem Ends.append {start n : Nat} {ls : List Level} (pre : List Level) {xs ys : List Value}
    {p : Progress H} (h : Ends start ls xs p) (hs : Suspended start ls) (hn : floorOf start ls ≤ n)
    (hxs : ∀ k ≤ n, xs.rtake k = ys.rtake k) : Ends start (pre ++ ls) ys p := by
  cases p with
  | running m =>
    obtain ⟨hm, ended, l, v, hl, ht, hb, hv⟩ := h
    refine ⟨hm, pre ++ ended, l, v, ?_, ht, hb, ?_⟩
    · rw [hl, List.append_assoc]
    · have hle : l.floor ≤ floorOf start ls := by
        rw [hl] at hs ⊢
        exact Suspended.floor_le ended hs
      rw [hv, hxs l.floor (hle.trans hn)]
  | done s a =>
    have hstart := hxs start (hs.start_le.trans hn)
    rcases a with r | (e | u)
    · exact Eq.trans h hstart
    · show ys.rtake start <:+ s.stack
      rw [← hstart]
      exact h
    · exact Eq.trans h hstart

variable [Host H]

/-- However a load ends, its operands are gone. -/
theorem stack_endLoad_eq {s : Interpreter H} {l : Load} {o : Except LoadError Unit}
    (hl : l.base ≤ s.stack.length) (ho : o = .ok () → s.stack.length = l.base) :
    (s.endLoad l o).2.stack = s.stack.rtake l.base := by
  refine Interpreter.stack_endLoad (length_rtake hl).symm (rtake_suffix _ _) ?_
  intro h
  rw [rtake_eq_self (Nat.le_of_eq (ho h))]

/-- A load has ended whose outcome is handed on. -/
theorem ends_deliver {start : Nat} {name : String} : ∀ {below : List Activation}
    {s : Interpreter H} {base : Nat} {origin : Origin} {r : Except LoadError ModuleId},
    s.heap.Compiled → Suspended start (loadLevels (some base) below) →
    Based start (some base) below → s.stack.length = base →
    Ends start (loadLevels (some base) below) s.stack (deliver s origin name r below)
  | [], s, base, origin, r, hc, hs, hb, hl => by
    show s.stack = s.stack.rtake start
    rw [rtake_eq_self]
    rw [hl, hb base rfl]
  | a :: below, s, base, origin, r, hc, hs, hb, hl => by
    rw [loadLevels_cons] at hs ⊢
    have hb : Based start (a.load.map Load.base) below := hb.resolve_left nofun
    have hgo : ∀ (t : Interpreter H) (v : Value), t.heap.Compiled → t.stack = v :: s.stack →
        Ends start (⟨base, a, below⟩ :: levelsOf a below) s.stack (.running ⟨t, a, below⟩) := by
      intro t v ht hv
      refine ⟨⟨ht, ?_, hs.2, hb⟩, [], ⟨base, a, below⟩, v, rfl, rfl, rfl, ?_⟩
      · rw [hv, List.length_cons, hl]
        exact hs.1.standing
      · rw [hv, rtake_eq_self (Nat.le_of_eq hl)]
    cases origin with
    | host => cases r <;> exact hgo _ _ hc rfl
    | call => cases r <;> exact hgo _ _ hc rfl
    | use =>
      cases r with
      | ok m => exact hgo _ _ hc rfl
      | error cause =>
        -- The code that imports fails, and with it the load that it belongs to.
        have hout : Suspended start (loadLevels (a.load.map Load.base) below) := hs.2.of_append
        have hle : floorOf start (loadLevels (a.load.map Load.base) below) ≤ base :=
          Suspended.floor_le (⟨base, a, below⟩ :: a.callLevels below a.frames) hs
        unfold deliver
        cases hload : a.load with
        | none => exact rtake_suffix _ _
        | some l =>
          rw [hload] at hout hle hb
          have hbase : floorOf start (loadLevels (some l.base) below) = l.base := hb.floorOf
          have hn : l.base ≤ s.stack.length := by
            rw [hl, ← hbase]
            exact hle
          show Ends start _ _ (deliver
            (s.endLoad l (.error (a.exception (.importFailed name cause)))).2 l.origin l.name
            (s.endLoad l (.error (a.exception (.importFailed name cause)))).1 below)
          generalize a.exception (.importFailed name cause) = e
          have hstack : (s.endLoad l (.error e)).2.stack = s.stack.rtake l.base :=
            stack_endLoad_eq hn nofun
          have hend : Ends start (loadLevels (some l.base) below) _ (deliver
              (s.endLoad l (.error e)).2 l.origin l.name (s.endLoad l (.error e)).1 below) :=
            ends_deliver (by rw [Interpreter.heap_endLoad]; exact hc) hout hb
              (by rw [hstack, length_rtake hn])
          have hlevels : (⟨base, a, below⟩ :: levelsOf a below : List Level) =
              (⟨base, a, below⟩ :: a.callLevels below a.frames) ++
                loadLevels (some l.base) below := by
            rw [levelsOf, hload]
            rfl
          rw [hlevels]
          refine hend.append _ hout (Nat.le_of_eq hbase) ?_
          intro k hk
          rw [hstack, rtake_rtake hk]

/-- The code of an activation has come to its end or has stopped. -/
theorem ends_finish {start : Nat} {s : Interpreter H} {a : Activation} {below : List Activation}
    {o : Except LoadError Unit} (hc : s.heap.Compiled)
    (hs : Suspended start (loadLevels (a.load.map Load.base) below))
    (hb : Based start (a.load.map Load.base) below)
    (hl : floorOf start (loadLevels (a.load.map Load.base) below) ≤ s.stack.length)
    (ho : o = .ok () → s.stack.length = floorOf start (loadLevels (a.load.map Load.base) below)) :
    Ends start (levelsOf a below) s.stack (finish s a below o) := by
  unfold finish
  cases hload : a.load with
  | none =>
    rw [hload] at ho
    cases o with
    | error e => exact rtake_suffix _ _
    | ok u =>
      have hlen := ho rfl
      cases below <;> exact (rtake_eq_self (Nat.le_of_eq hlen)).symm
  | some l =>
    rw [hload] at hs hb hl ho
    have hbase : floorOf start (loadLevels (some l.base) below) = l.base := hb.floorOf
    have hstack : (s.endLoad l o).2.stack = s.stack.rtake l.base :=
      stack_endLoad_eq (hbase ▸ hl) fun h => hbase ▸ ho h
    have hend : Ends start (loadLevels (some l.base) below) _
        (deliver (s.endLoad l o).2 l.origin l.name (s.endLoad l o).1 below) :=
      ends_deliver (by rw [Interpreter.heap_endLoad]; exact hc) hs hb
        (by rw [hstack, length_rtake (hbase ▸ hl)])
    rw [levelsOf, hload]
    refine hend.append _ hs (Nat.le_of_eq hbase) ?_
    intro k hk
    rw [hstack, rtake_rtake hk]

/-! ## The beginning of levels -/

/-- A load begins above an activation, or is over at once. -/
theorem begins_load {start : Nat} {s : Interpreter H} {a : Activation} {below : List Activation}
    (source name : String) (origin : Origin) (hc : s.heap.Compiled)
    (hs : Suspended start (⟨s.stack.length, a, below⟩ :: levelsOf a below))
    (hb : Based start (a.load.map Load.base) below) :
    Ends start (⟨s.stack.length, a, below⟩ :: levelsOf a below) s.stack
        (load s source name origin (a :: below)) ∨
      ∃ m, load s source name origin (a :: below) = .running m ∧ Stacked start m ∧
        m.levels = ⟨s.stack.length, a, below⟩ :: levelsOf a below ∧ m.state.stack = s.stack := by
  have hb' : Based start (some s.stack.length) (a :: below) := .inr hb
  unfold load
  cases s.refusal? name with
  | some r => exact .inl (ends_deliver hc hs hb' rfl)
  | none =>
    have hf := s.functions_beginLoad source name origin
    have hst := s.stack_beginLoad source name origin
    have hbase := s.base_beginLoad source name origin
    generalize s.beginLoad source name origin = begun at hf hst hbase
    obtain ⟨l, i⟩ := begun
    have hi : i.heap.Compiled := by
      intro f hm
      rw [show i.heap.functions = _ from hf] at hm
      exact hc f hm
    dsimp only at hst hbase ⊢
    cases hp : Code.compile source (displayName name) with
    | error e =>
      have hstack : (i.endLoad l (.error (.compile e))).2.stack = s.stack :=
        Interpreter.stack_endLoad hbase (hst ▸ List.suffix_refl _) nofun
      have hend : Ends start (loadLevels (some s.stack.length) (a :: below)) _ (deliver
          (i.endLoad l (.error (.compile e))).2 origin name (i.endLoad l (.error (.compile e))).1
          (a :: below)) :=
        ends_deliver (by rw [Interpreter.heap_endLoad]; exact hi) hs hb' (by rw [hstack])
      rw [hstack] at hend
      exact .inl hend
    | ok code =>
      obtain ⟨heights, hlevel⟩ := Code.leveled_compile hp
      have hlevels : levelsOf (Activation.start (displayName name) code l.module (some l))
          (a :: below) = ⟨s.stack.length, a, below⟩ :: levelsOf a below := by
        rw [levelsOf_start, hbase]
      refine .inr ⟨_, rfl, ⟨hi, ?_, ?_, ?_⟩, hlevels, hst⟩
      · show Standing _ (floorOf start (levelsOf _ _)) i.stack.length
        rw [hlevels, hst]
        exact ⟨heights, 0, hlevel, hlevel.start, rfl⟩
      · show Suspended start (levelsOf _ _)
        rw [hlevels]
        exact hs
      · exact .inr hb

/-! ## Steps -/

/-- What a step does to the levels, if the instruction leaves `rest` below the operands that it
takes and the activation is then at `a`. -/
inductive Moves (start : Nat) (m : Machine H) (i : Instr) (a : Activation) (rest : List Value) :
    Progress H → Prop
  /-- The code goes on. -/
  | on {m' : Machine H} {ys : List Value} : (∀ n, i ≠ .call n) → Stacked start m' →
    m'.levels = m.levels → m'.state.stack = ys ++ rest → Moves start m i a rest (.running m')
  /-- A call or load begins. -/
  | begins {m' : Machine H} : Stacked start m' →
    m'.levels = ⟨rest.length, a, m.below⟩ :: m.levels → m'.state.stack = rest →
    Moves start m i a rest (.running m')
  /-- A call or load ends, perhaps one that the same step has begun. -/
  | ends {p : Progress H} : Ends start (⟨rest.length, a, m.below⟩ :: m.levels) rest p →
    Moves start m i a rest p

section Instruction

variable {start : Nat} {m : Machine H} (h : Stacked start m) {i : Instr} {line : Nat}
  (hi : m.top.code[m.top.ip]? = some (i, line))
include h hi

omit [Host H]

/-- The next instruction finds its operands above the floor, and it fits the heights. -/
theorem Stacked.fits : floorOf start m.levels + i.takes ≤ m.state.stack.length ∧
    ∃ heights r, m.top.code.Leveled (!m.top.frames.isEmpty) heights ∧
      i.Proper (!m.top.frames.isEmpty) ∧
      (m.state.stack.drop i.takes).length = floorOf start m.levels + r ∧
      ∀ k ∈ i.successors (m.top.ip + 1), heights[k]? = some (r + i.gives) := by
  obtain ⟨heights, n, hlevel, hn, hl⟩ := h.standing
  obtain ⟨hlt, -⟩ := Array.getElem?_eq_some_iff.1 hi
  obtain ⟨i', line', n', hi', hn', hproper, htakes, hnext⟩ := hlevel.fitting _ hlt
  rw [hi] at hi'
  rw [hn] at hn'
  cases hi'
  cases hn'
  refine ⟨by omega, heights, n - i.takes, hlevel, hproper, ?_, hnext⟩
  rw [List.length_drop]
  omega

theorem Stacked.takes_le : floorOf start m.levels + i.takes ≤ m.state.stack.length :=
  (h.fits hi).1

/-- What lies below the floor also lies below the operands that an instruction takes. -/
theorem Stacked.rtake_drop {k : Nat} (hk : k ≤ floorOf start m.levels) :
    k ≤ (m.state.stack.drop i.takes).length ∧
      (m.state.stack.drop i.takes).rtake k = m.state.stack.rtake k := by
  have htakes := h.takes_le hi
  have hlen : k ≤ (m.state.stack.drop i.takes).length := by
    rw [List.length_drop]
    omega
  exact ⟨hlen, (rtake_of_suffix (List.drop_suffix _ _) hlen).symm⟩

/-- The code after the instruction waits for the operand that it gives. -/
theorem Stacked.suspends (hg : i.gives = 1)
    (hs : i.successors (m.top.ip + 1) = [m.top.ip + 1]) :
    Suspended start (⟨(m.state.stack.drop i.takes).length, jumpTo m.top (m.top.ip + 1),
      m.below⟩ :: m.levels) := by
  obtain ⟨-, heights, r, hlevel, -, hrest, hnext⟩ := h.fits hi
  have hnext := hnext (m.top.ip + 1) (by rw [hs]; exact List.mem_singleton_self _)
  rw [hg] at hnext
  exact ⟨⟨heights, r, hlevel, hnext, hrest⟩, h.suspended⟩

theorem Stacked.compiled_of_leftBy {t : Interpreter H} (hl : LeftBy i m.state t) :
    t.heap.Compiled := by
  obtain ⟨-, heights, r, -, hproper, -⟩ := h.fits hi
  exact hl.compiled hproper h.compiled

/-! What the effects of the instruction do to the levels: -/

theorem moves_on {t : Interpreter H} {ys : List Value} {locals : Option Fields} {ip : Nat}
    (hl : LeftBy i m.state t) (hc : ∀ n, i ≠ .call n) (hip : ip ∈ i.successors (m.top.ip + 1))
    (ht : t.stack = ys ++ m.state.stack.drop i.takes) (hg : ys.length = i.gives) :
    Moves start m i (jumpTo m.top (m.top.ip + 1)) (m.state.stack.drop i.takes)
      (.running ⟨t, (jumpTo m.top (m.top.ip + 1)).place locals ip, m.below⟩) := by
  obtain ⟨-, heights, r, hlevel, -, hrest, hnext⟩ := h.fits hi
  have hlevels : levelsOf ((jumpTo m.top (m.top.ip + 1)).place locals ip) m.below = m.levels := by
    rw [levelsOf_place, levelsOf_jumpTo]
    rfl
  have hempty : ((jumpTo m.top (m.top.ip + 1)).framesWith locals).isEmpty =
      m.top.frames.isEmpty := by
    unfold Activation.framesWith jumpTo
    cases m.top.frames <;> rfl
  refine .on hc ⟨h.compiled_of_leftBy hi hl, ?_, ?_, h.based⟩ hlevels ht
  · show Standing _ (floorOf start (levelsOf _ _)) t.stack.length
    rw [hlevels]
    refine ⟨heights, r + i.gives, ?_, hnext ip hip, ?_⟩
    · show m.top.code.Leveled
        (!((jumpTo m.top (m.top.ip + 1)).framesWith locals).isEmpty) heights
      rw [hempty]
      exact hlevel
    · rw [ht, List.length_append, hrest, hg]
      omega
  · show Suspended start (levelsOf _ _)
    rw [hlevels]
    exact h.suspended

theorem moves_given {n : Nat} {t : Interpreter H} {v : Value} (hl : LeftBy i m.state t)
    (hc : i = .call n) (ht : t.stack = v :: m.state.stack.drop i.takes) :
    Moves start m i (jumpTo m.top (m.top.ip + 1)) (m.state.stack.drop i.takes)
      (.running ⟨t, jumpTo m.top (m.top.ip + 1), m.below⟩) := by
  obtain ⟨hawait, hs⟩ := h.suspends hi (by rw [hc]; rfl) (by rw [hc]; rfl)
  have hlevels : levelsOf (jumpTo m.top (m.top.ip + 1)) m.below = m.levels := levelsOf_jumpTo ..
  refine .ends ⟨⟨h.compiled_of_leftBy hi hl, ?_, ?_, h.based⟩, [],
    ⟨(m.state.stack.drop i.takes).length, jumpTo m.top (m.top.ip + 1), m.below⟩, v, ?_, rfl, rfl,
    ?_⟩
  · show Standing _ (floorOf start (levelsOf _ _)) t.stack.length
    rw [ht, hlevels]
    exact hawait.standing
  · show Suspended start (levelsOf _ _)
    rw [hlevels]
    exact hs
  · show _ = [] ++ _ :: levelsOf _ _
    rw [hlevels]
    rfl
  · rw [rtake_eq_self (Nat.le_refl _)]
    exact ht

theorem moves_enter {n : Nat} {t : Interpreter H} {f : Function} {args : List Value}
    (hl : LeftBy i m.state t) (hc : i = .call n) (hf : f ∈ m.state.heap.functions)
    (ht : t.stack = m.state.stack.drop i.takes) :
    Moves start m i (jumpTo m.top (m.top.ip + 1)) (m.state.stack.drop i.takes)
      (.running ⟨t, enter t (jumpTo m.top (m.top.ip + 1)) f args, m.below⟩) := by
  obtain ⟨line, b, hb⟩ := h.compiled f hf
  obtain ⟨heights, hbody⟩ := Code.leveled_bodyCode line b
  rw [← hb] at hbody
  have hlevels := levelsOf_enter t (jumpTo m.top (m.top.ip + 1)) m.below f args
  rw [levelsOf_jumpTo, ht] at hlevels
  refine .begins ⟨h.compiled_of_leftBy hi hl, ?_, ?_, h.based⟩ hlevels ht
  · show Standing _ (floorOf start (levelsOf _ _)) t.stack.length
    rw [hlevels, ht]
    exact ⟨heights, 0, hbody, hbody.start, rfl⟩
  · show Suspended start (levelsOf _ _)
    rw [hlevels]
    exact h.suspends hi (by rw [hc]; rfl) (by rw [hc]; rfl)

theorem moves_ret {t : Interpreter H} {v : Value} {f : Frame} {frames : List Frame}
    (hl : LeftBy i m.state t) (hf : m.top.frames = f :: frames)
    (ht : t.stack = v :: (m.state.stack.drop i.takes).rtake f.base) :
    Moves start m i (jumpTo m.top (m.top.ip + 1)) (m.state.stack.drop i.takes)
      (.running ⟨t, (jumpTo m.top (m.top.ip + 1)).back f frames, m.below⟩) := by
  have hback : m.levels = ⟨f.base, (jumpTo m.top (m.top.ip + 1)).back f frames, m.below⟩ ::
      levelsOf ((jumpTo m.top (m.top.ip + 1)).back f frames) m.below := by
    rw [← levelsOf_back m.below (a := jumpTo m.top (m.top.ip + 1)) hf, levelsOf_jumpTo]
    rfl
  have hfloor : f.base ≤ (m.state.stack.drop i.takes).length := by
    refine (h.rtake_drop hi ?_).1
    rw [hback]
    exact Nat.le_refl _
  have hs := h.suspended
  rw [hback] at hs
  refine .ends ⟨⟨h.compiled_of_leftBy hi hl, ?_, hs.2, h.based⟩,
    [⟨(m.state.stack.drop i.takes).length, jumpTo m.top (m.top.ip + 1), m.below⟩],
    ⟨f.base, (jumpTo m.top (m.top.ip + 1)).back f frames, m.below⟩, v, ?_, rfl, rfl, ht⟩
  · show Standing _ _ t.stack.length
    rw [ht, List.length_cons, length_rtake hfloor]
    exact hs.1.standing
  · rw [hback]
    rfl

variable [Host H]

theorem moves_stop {t : Interpreter H} {e : LoadError} (hl : LeftBy i m.state t)
    (ht : m.state.stack.drop i.takes <:+ t.stack) :
    Moves start m i (jumpTo m.top (m.top.ip + 1)) (m.state.stack.drop i.takes)
      (finish t m.top m.below (.error e)) := by
  have hs := h.suspended
  obtain ⟨hfloor, -⟩ := h.rtake_drop hi (Nat.le_refl _)
  have hle : floorOf start (loadLevels (m.top.load.map Load.base) m.below) ≤
      floorOf start m.levels := Suspended.floor_le (m.top.callLevels m.below m.top.frames) hs
  have hend : Ends start m.levels t.stack (finish t m.top m.below (.error e)) :=
    ends_finish (h.compiled_of_leftBy hi hl) hs.of_append h.based
      (hle.trans (hfloor.trans ht.length_le)) nofun
  refine .ends (hend.append [_] hs (Nat.le_refl _) ?_)
  intro k hk
  exact rtake_of_suffix ht (hk.trans hfloor)

theorem moves_load {t : Interpreter H} {source name : String} {origin : Origin}
    (hl : LeftBy i m.state t) (ht : t.stack = m.state.stack.drop i.takes) (hg : i.gives = 1)
    (hs : i.successors (m.top.ip + 1) = [m.top.ip + 1]) :
    Moves start m i (jumpTo m.top (m.top.ip + 1)) (m.state.stack.drop i.takes)
      (load t source name origin (jumpTo m.top (m.top.ip + 1) :: m.below)) := by
  have hlevels : levelsOf (jumpTo m.top (m.top.ip + 1)) m.below = m.levels := levelsOf_jumpTo ..
  have hsuspended := h.suspends hi hg hs
  rw [← ht, ← hlevels] at hsuspended
  have hload := begins_load source name origin (h.compiled_of_leftBy hi hl) hsuspended h.based
  rw [hlevels, ht] at hload
  rcases hload with hend | ⟨m', hm, hst, hlev, hstack⟩
  · exact .ends hend
  · rw [hm]
    exact .begins hst hlev hstack

theorem Stacked.does :
    Does i m.state (jumpTo m.top (m.top.ip + 1)) (m.state.stack.drop i.takes)
      (execute m.state (jumpTo m.top (m.top.ip + 1)) m.below i) := by
  have htakes := h.takes_le hi
  obtain ⟨-, heights, r, -, hproper, -⟩ := h.fits hi
  refine execute_cases (List.take_append_drop i.takes m.state.stack).symm ?_ ?_
  · rw [List.length_take]
    omega
  · rintro rfl
    simpa [Instr.Proper, jumpTo] using hproper

/-- **A step that executes an instruction keeps the operands in order.** -/
theorem moves_step : Moves start m i (jumpTo m.top (m.top.ip + 1)) (m.state.stack.drop i.takes)
    m.step := by
  have hdoes := h.does hi
  have hleft := leftBy_execute m.state (jumpTo m.top (m.top.ip + 1)) m.below i
  rw [step_eq hi]
  generalize execute m.state (jumpTo m.top (m.top.ip + 1)) m.below i = effect at hdoes hleft ⊢
  cases hdoes with
  | next ys hc hip ht hg => exact moves_on h hi hleft hc hip ht hg
  | given hc ht => exact moves_given h hi hleft hc ht
  | enter hc hf ht => exact moves_enter h hi hleft hc hf ht
  | ret _ hf ht => exact moves_ret h hi hleft hf ht
  | stop ht _ => exact moves_stop h hi hleft ht
  | load ht hg hs => exact moves_load h hi hleft ht hg hs

end Instruction

/-- A step at the end of the code. -/
theorem ends_step {start : Nat} {m : Machine H} (h : Stacked start m)
    (hi : m.top.code[m.top.ip]? = none) : Ends start m.levels m.state.stack m.step := by
  obtain ⟨heights, n, hlevel, hn, hl⟩ := h.standing
  obtain ⟨hframes, rfl⟩ := hlevel.finish m.top.ip n (Array.getElem?_eq_none_iff.1 hi) hn
  have hf : m.top.frames = [] := by simpa using hframes
  have hlevels : m.levels = loadLevels (m.top.load.map Load.base) m.below := by
    rw [levels, levelsOf, hf]
    rfl
  have hs := h.suspended
  rw [hlevels] at hs hl
  rw [step_eq_finish hi]
  exact ends_finish h.compiled hs h.based (Nat.le_of_eq hl.symm) fun _ => hl

end Ember.Machine
