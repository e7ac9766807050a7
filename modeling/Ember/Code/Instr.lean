import Ember.Source.Program
import Ember.Value

/-!
# Bytecode

A chunk is a sequence of instructions, each with the line of the statement it comes from.
Instructions work on one stack of operands. Jumps go to an index in the chunk; the chunk of a
function's body is part of the instruction that makes the function.
-/

namespace Ember.Code

inductive Instr where
  | push (value : Value)
  | pop
  | operate (op : Source.Operator)
  | negate
  | invert
  | load (name : String)
  | store (name : String)
  | getAttribute (name : String)
  | setAttribute (name : String)
  | jump (target : Nat)
  | jumpIfFalse (target : Nat)
  | makeFunction (name : String) (params : List String) (body : Array (Instr × Nat))
  | call (count : Nat)
  | ret
  | use (module : String)
  | raise

instance : Inhabited Instr := ⟨.pop⟩

abbrev Chunk := Array (Instr × Nat)

/-- The line of the instruction at an index; zero where there is none. -/
def Chunk.lineAt (code : Chunk) (i : Nat) : Nat :=
  match code[i]? with
  | some (_, line) => line
  | none => 0

end Ember.Code
