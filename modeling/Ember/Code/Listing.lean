import Ember.Value.Text

/-!
# Listings

The text of a chunk: a heading, a line for each instruction with its index and its source line,
and then the listings of the functions made in it, in the order in which they are made.
-/

namespace Ember.Code

/-- A number filled up to four places. -/
def padded (fill : Char) (n : Nat) : String :=
  let s := toString n
  String.ofList (List.replicate (4 - s.length) fill) ++ s

def Instr.shown (h : Heap) : Instr → String
  | push v => s!"Push({v.shown h})"
  | pop => "Pop"
  | operate op => op.label
  | negate => "Neg"
  | invert => "Not"
  | load s => s!"Load({Text.quote s})"
  | store s => s!"Store({Text.quote s})"
  | getAttribute s => s!"GetAttr({Text.quote s})"
  | setAttribute s => s!"SetAttr({Text.quote s})"
  | jump n => s!"Jmp({n})"
  | jumpIfFalse n => s!"JmpIfFalse({n})"
  | makeFunction name .. => s!"MakeFunction({name})"
  | call n => s!"Call({n})"
  | ret => "Ret"
  | use s => s!"Import({Text.quote s})"
  | raise => "Raise"

/-- The lines of a listing from an index on. -/
def instructionLines (h : Heap) (index : Nat) : List (Instr × Nat) → List String
  | [] => []
  | (i, line) :: rest =>
    (padded '0' index ++ " " ++ padded ' ' line ++ " " ++ i.shown h) ::
      instructionLines h (index + 1) rest

def heading (name : String) : String := s!"== {name} =="

mutual

/-- The lines that an instruction adds behind the chunk that holds it. -/
def innerLines (h : Heap) : Instr → List String
  | .makeFunction name _ ⟨body⟩ =>
    heading name :: (instructionLines h 0 body ++ innerLinesOfAll h body)
  | _ => []

def innerLinesOfAll (h : Heap) : List (Instr × Nat) → List String
  | [] => []
  | p :: rest => innerLinesOfLine h p ++ innerLinesOfAll h rest

def innerLinesOfLine (h : Heap) : Instr × Nat → List String
  | (i, _) => innerLines h i

end

def listing (h : Heap) (name : String) (c : Chunk) : String :=
  let lines := heading name :: (instructionLines h 0 c.toList ++ innerLinesOfAll h c.toList)
  String.join (lines.map (· ++ "\n"))

end Ember.Code
