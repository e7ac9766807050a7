import Ember.Code.Instr
import Ember.Table

/-!
# The heap

Modules and functions, by their numbers. A module is its fields. A function is its code and the
module that defined it, whose fields its code sees; it does not keep that module alive. Nothing is
ever taken off the heap: which modules are alive is a question about references
(`Ember.Heap.Liveness`).
-/

namespace Ember

/-- The fields of a module. -/
abbrev Fields := Table Value

structure Function where
  name : String
  params : List String
  code : Code.Chunk
  /-- The module that defined the function. -/
  home : ModuleId

structure Heap where
  modules : Array Fields
  functions : Array Function

namespace Heap

def empty : Heap := ⟨#[], #[]⟩

def fields (h : Heap) (m : ModuleId) : Fields := h.modules[m.index]?.getD Table.empty

def field? (h : Heap) (m : ModuleId) (name : String) : Option Value := (h.fields m).get? name

def setField (h : Heap) (m : ModuleId) (name : String) (v : Value) : Heap :=
  { h with modules := h.modules.modify m.index fun t => t.set name v }

/-- A new module without fields. -/
def newModule (h : Heap) : ModuleId × Heap :=
  (⟨h.modules.size⟩, { h with modules := h.modules.push Table.empty })

def newFunction (h : Heap) (f : Function) : FunctionId × Heap :=
  (⟨h.functions.size⟩, { h with functions := h.functions.push f })

def function? (h : Heap) (f : FunctionId) : Option Function := h.functions[f.index]?

/-- A module's name is its field `__name__`, if that is a text. -/
def moduleName (h : Heap) (m : ModuleId) : String :=
  match h.field? m "__name__" with
  | some (.text s) => s
  | _ => "?"

/-- The file that a module comes from; modules of the library have none. -/
def moduleFile? (h : Heap) (m : ModuleId) : Option String :=
  match h.field? m "__file__" with
  | some (.text s) => some s
  | _ => none

def functionName (h : Heap) (f : FunctionId) : String :=
  match h.function? f with
  | some f => f.name
  | none => "?"

end Heap

end Ember
