/-!
# Configuration

Four settings, each with a default. A limit of zero would forbid everything and is refused.
-/

namespace Ember

structure Config where
  /-- Are the bundled modules registered at the start? -/
  bundleBuiltins : Bool
  /-- Are loads reported on the error stream? -/
  traceLoads : Bool
  /-- The greatest number of loads in progress at once. -/
  maxLoadDepth : Nat
  /-- The greatest number of calls in progress at once in one run. -/
  maxCallDepth : Nat
deriving DecidableEq, Repr

namespace Config

def default : Config := ⟨true, false, 200, 1000⟩

instance : Inhabited Config := ⟨default⟩

/-- The settings, by the names that documents use. -/
inductive Field where
  | bundleBuiltins | traceLoads | maxLoadDepth | maxCallDepth
deriving DecidableEq, Repr

namespace Field

/-- The fields in the order in which a list gives them. -/
def all : List Field := [bundleBuiltins, traceLoads, maxLoadDepth, maxCallDepth]

def name : Field → String
  | bundleBuiltins => "bundle_builtins"
  | traceLoads => "trace_loads"
  | maxLoadDepth => "max_load_depth"
  | maxCallDepth => "max_call_depth"

end Field

/-- The first limit that is zero. -/
def zeroLimit? (c : Config) : Option Field :=
  if c.maxLoadDepth = 0 then some .maxLoadDepth
  else if c.maxCallDepth = 0 then some .maxCallDepth
  else none

end Config

end Ember
