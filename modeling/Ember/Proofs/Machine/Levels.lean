import Ember.Machine.Run
import Mathlib.Data.List.DropRight

/-!
# Calls and loads in progress

The calls and loads in progress in a machine lie one above the other. `Machine.levels` lists them,
the innermost first, each with the number of operands below it and with where the machine goes on
after it. An instruction leaves the levels alone, or it begins a level or ends one; an error ends
many.
-/

namespace Ember

namespace Activation

/-- The frames when the innermost call has some variables. -/
def framesWith (a : Activation) (locals : Option Fields) : List Frame :=
  match a.frames with
  | [] => []
  | f :: frames => { f with locals := locals.getD f.locals } :: frames

/-- The activation when it is at an index and its innermost call has some variables. -/
def place (a : Activation) (locals : Option Fields) (ip : Nat) : Activation :=
  { a with ip := ip, frames := a.framesWith locals }

/-- The activation after a return from its innermost call. -/
def back (a : Activation) (f : Frame) (frames : List Frame) : Activation :=
  { a with code := f.code, ip := f.ip, globals := f.globals, frames := frames }

theorem place_none (a : Activation) (ip : Nat) : a.place none ip = Machine.jumpTo a ip := by
  unfold place framesWith Machine.jumpTo
  cases a.frames <;> rfl

end Activation

/-- A call or load in progress. -/
structure Level where
  /-- The number of operands below it. -/
  floor : Nat
  /-- The activation that goes on after it. -/
  back : Activation
  /-- The activations below that one. -/
  below : List Activation

namespace Activation

/-- The calls in progress in an activation, of which `frames` are the outer ones. -/
def callLevels (a : Activation) (below : List Activation) : List Frame → List Level
  | [] => []
  | f :: frames => ⟨f.base, a.back f frames, below⟩ :: callLevels a below frames

theorem callLevels_congr {a b : Activation} {below : List Activation} {frames : List Frame}
    (h : ∀ f frames, a.back f frames = b.back f frames) :
    a.callLevels below frames = b.callLevels below frames := by
  induction frames with
  | nil => rfl
  | cons f frames ih => rw [callLevels, callLevels, h, ih]

theorem callLevels_place (a : Activation) (below : List Activation) (locals : Option Fields)
    (ip : Nat) : (a.place locals ip).callLevels below (a.place locals ip).frames =
      a.callLevels below a.frames := by
  rw [callLevels_congr (a := a.place locals ip) (b := a) fun _ _ => rfl]
  show a.callLevels below (a.framesWith locals) = _
  unfold framesWith
  cases a.frames <;> rfl

end Activation

namespace Machine

variable {H : Type}

/-- The calls and loads in progress below a load with `base` operands below it. Nothing goes on
after code that no load belongs to. -/
def loadLevels (base : Option Nat) : List Activation → List Level
  | [] => []
  | a :: below => match base with
    | none => []
    | some n =>
      ⟨n, a, below⟩ :: (a.callLevels below a.frames ++ loadLevels (a.load.map Load.base) below)

/-- The calls and loads in progress in an activation and below it. -/
def levelsOf (a : Activation) (below : List Activation) : List Level :=
  a.callLevels below a.frames ++ loadLevels (a.load.map Load.base) below

/-- The calls and loads in progress, the innermost first. -/
def levels (m : Machine H) : List Level := levelsOf m.top m.below

theorem loadLevels_cons (n : Nat) (a : Activation) (below : List Activation) :
    loadLevels (some n) (a :: below) = ⟨n, a, below⟩ :: levelsOf a below := rfl

theorem levelsOf_place (a : Activation) (below : List Activation) (locals : Option Fields)
    (ip : Nat) : levelsOf (a.place locals ip) below = levelsOf a below := by
  rw [levelsOf, a.callLevels_place]
  rfl

theorem levelsOf_jumpTo (a : Activation) (below : List Activation) (ip : Nat) :
    levelsOf (jumpTo a ip) below = levelsOf a below := by
  rw [← a.place_none, levelsOf_place]

/-- A call begins a level. -/
theorem levelsOf_enter (s : Interpreter H) (a : Activation) (below : List Activation)
    (f : Function) (args : List Value) :
    levelsOf (enter s a f args) below = ⟨s.stack.length, a, below⟩ :: levelsOf a below := by
  rw [levelsOf, levelsOf, ← List.cons_append,
    Activation.callLevels_congr (a := enter s a f args) (b := a) fun _ _ => rfl]
  rfl

/-- A load begins a level. -/
theorem levelsOf_start (file : String) (code : Code.Chunk) (l : Load) (a : Activation)
    (below : List Activation) :
    levelsOf (Activation.start file code l.module (some l)) (a :: below) =
      ⟨l.base, a, below⟩ :: levelsOf a below := rfl

/-- A return ends a level. -/
theorem levelsOf_back {a : Activation} (below : List Activation) {f : Frame} {frames : List Frame}
    (hf : a.frames = f :: frames) : levelsOf a below =
      ⟨f.base, a.back f frames, below⟩ :: levelsOf (a.back f frames) below := by
  rw [levelsOf, hf, levelsOf, Activation.callLevels,
    Activation.callLevels_congr (a := a.back f frames) (b := a) fun _ _ => rfl]
  rfl

/-- The number of operands below the innermost level, or `start` if there is none. -/
def floorOf (start : Nat) : List Level → Nat
  | [] => start
  | l :: _ => l.floor

end Machine

/-! ## The lowest operands -/

section Lowest

variable {k n : Nat} {xs ys : List Value}

theorem length_rtake (h : n ≤ xs.length) : (xs.rtake n).length = n := by
  rw [List.rtake, List.length_drop]
  omega

theorem length_le_of_rtake_eq (h : xs.rtake ys.length = ys) : ys.length ≤ xs.length := by
  have hl := congrArg List.length h
  rw [List.rtake, List.length_drop] at hl
  omega

theorem rtake_suffix (n : Nat) (xs : List Value) : xs.rtake n <:+ xs := List.drop_suffix _ _

theorem rtake_eq_self (h : xs.length ≤ n) : xs.rtake n = xs := by
  rw [List.rtake, Nat.sub_eq_zero_of_le h, List.drop_zero]

theorem rtake_append (h : n ≤ xs.length) : (ys ++ xs).rtake n = xs.rtake n := by
  rw [List.rtake_eq_reverse_take_reverse, List.rtake_eq_reverse_take_reverse, List.reverse_append,
    List.take_append_of_le_length (by rwa [List.length_reverse])]

theorem rtake_of_suffix (hs : ys <:+ xs) (h : n ≤ ys.length) : xs.rtake n = ys.rtake n := by
  obtain ⟨zs, rfl⟩ := hs
  exact rtake_append h

theorem rtake_rtake (h : k ≤ n) : (xs.rtake n).rtake k = xs.rtake k := by
  simp only [List.rtake_eq_reverse_take_reverse, List.reverse_reverse, List.take_take,
    Nat.min_eq_left h]

theorem rtake_append_rtake (h : k ≤ n) (hk : k ≤ xs.length) :
    (ys ++ xs.rtake n).rtake k = xs.rtake k := by
  rw [rtake_append, rtake_rtake h]
  rw [List.rtake, List.length_drop]
  omega

end Lowest

end Ember
