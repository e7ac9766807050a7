import Ember.Heap

/-!
# Which modules are alive

Objects are counted references: a module stays while something refers to it. What refers to
modules are the roots, which the running machine names, the fields of modules, and the constants
in the code of functions. A cycle of references keeps itself, and all that it refers to. So a
module is alive if it can be reached from a root or from an object on a cycle. A function does not
refer to the module that defined it.
-/

namespace Ember

/-- An object that can refer to others. -/
inductive Node where
  | module (m : ModuleId)
  | function (f : FunctionId)
deriving DecidableEq, Repr

def Value.node? : Value → Option Node
  | module m => some (.module m)
  | function f => some (.function f)
  | _ => none

mutual

/-- The objects that an instruction refers to. -/
def Code.Instr.nodes : Code.Instr → List Node
  | .push v => v.node?.toList
  | .makeFunction _ _ ⟨body⟩ => Code.nodesOfAll body
  | _ => []

def Code.nodesOfAll : List (Code.Instr × Nat) → List Node
  | [] => []
  | p :: rest => Code.nodesOfLine p ++ Code.nodesOfAll rest

def Code.nodesOfLine : Code.Instr × Nat → List Node
  | (i, _) => i.nodes

end

def Code.Chunk.nodes (c : Code.Chunk) : List Node := Code.nodesOfAll c.toList

namespace Heap

/-- What an object refers to. -/
def references (h : Heap) : Node → List Node
  | .module m => (h.fields m).values.filterMap Value.node?
  | .function f => match h.function? f with
    | some f => f.code.nodes
    | none => []

/-- All objects. -/
def nodes (h : Heap) : List Node :=
  (List.range h.modules.size).map (fun i => .module ⟨i⟩) ++
    (List.range h.functions.size).map fun i => .function ⟨i⟩

/-- Adds what `frontier` refers to, and so on; `fuel` bounds the number of rounds. -/
def spread (h : Heap) : Nat → List Node → List Node → List Node
  | 0, seen, _ => seen
  | fuel + 1, seen, frontier =>
    let new := ((frontier.flatMap h.references).filter fun n => !seen.contains n).eraseDups
    if new.isEmpty then seen else spread h fuel (seen ++ new) new

/-- All objects that can be reached from some, these included. -/
def reached (h : Heap) (start : List Node) : List Node :=
  let start := start.eraseDups
  h.spread (h.modules.size + h.functions.size) start start

/-- Does an object refer to itself, directly or through others? -/
def onCycle (h : Heap) (n : Node) : Bool := (h.reached (h.references n)).contains n

def alive (h : Heap) (roots : List Node) (m : ModuleId) : Bool :=
  (h.reached roots).contains (.module m) ||
    h.nodes.any fun n => (h.reached [n]).contains (.module m) && h.onCycle n

end Heap

end Ember
