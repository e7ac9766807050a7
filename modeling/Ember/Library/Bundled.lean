import Ember.Interpreter

/-!
# The bundled modules

Twelve modules that an interpreter has from the start unless it is configured otherwise. A bundled
module is its name and its fields. Registering one gives it its name once more as a field, and
`nil` for its file, because it has no source.
-/

namespace Ember.Library

structure Bundled where
  name : String
  fields : List (String × Value)

/-- A function under its own name. -/
def native (f : Native) : String × Value := (f.name, .native f)

def fileKind : Int64 := 0o170000

def directoryKind : Int64 := 0o040000

def regularKind : Int64 := 0o100000

def bundled : List Bundled :=
  [⟨"_pheap", [("__doc__", .text "Pairing heap primitives"), native .isLess]⟩,
   ⟨"dis", [native .disassemble]⟩,
   ⟨"fileio", [native .readFile, native .fileExists]⟩,
   ⟨"gc", [native .collect, native .collectorEnabled]⟩,
   ⟨"locale", [native .locale]⟩,
   ⟨"math", [("pi", .float 3.141592653589793), ("e", .float 2.718281828459045),
     native .sqrt, native .pow, native .floor, native .ceil, native .abs, native .sin,
     native .cos]⟩,
   ⟨"os", [("name", .text "posix"), ("sep", .text "/"), native .environmentVariable,
     native .directory]⟩,
   ⟨"random", [native .random, native .randomInteger]⟩,
   ⟨"stat", [("S_IFMT", .integer fileKind), ("S_IFDIR", .integer directoryKind),
     ("S_IFREG", .integer regularKind), native .isDirectory, native .isRegular]⟩,
   ⟨"time", [native .time, native .timeNanos, native .formatTime]⟩,
   ⟨"timeit", [native .timer]⟩,
   ⟨"wcwidth", [native .width, native .textWidth]⟩]

variable {H : Type} [Host H]

/-- Makes a module from a table entry and registers it. -/
def register (s : Interpreter H) (b : Bundled) : Interpreter H :=
  let (m, s) := s.newModule
  let s := s.setFields m b.fields
  let s := s.register b.name m
  let s := s.setFields m [("__name__", .text b.name), ("__file__", .nil)]
  s.trace (.registered b.name)

def registerAll (s : Interpreter H) (table : List Bundled) : Interpreter H :=
  table.foldl register s

end Ember.Library

namespace Ember.Interpreter

variable {H : Type} [Host H]

/-- An interpreter at the start, with no modules. -/
def bare (config : Config) (host : H) (resolver : Option Resolver) (surroundings : Surroundings) :
    Interpreter H where
  heap := Heap.empty
  registry := Table.empty
  active := none
  pending := none
  stack := []
  loadDepth := 0
  host := host
  config := config
  resolver := resolver
  lastError := none
  surroundings := surroundings
  seed := 0x9e3779b97f4a7c15

/-- A new interpreter, with the bundled modules if the settings want them. -/
def new (config : Config) (host : H) (resolver : Option Resolver) (surroundings : Surroundings) :
    Interpreter H :=
  let s := bare config host resolver surroundings
  if config.bundleBuiltins then Library.registerAll s Library.bundled else s

end Ember.Interpreter
