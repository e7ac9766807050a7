/-!
# Native functions

The functions that the library supplies: six builtins, known everywhere, and the functions of the
bundled modules. What they do is in `Ember.Library`; here they only have names.
-/

namespace Ember

inductive Native where
  | print | str | len | type | execModule | hasModule
  | isLess | disassemble | readFile | fileExists | collect | collectorEnabled | locale
  | sqrt | pow | floor | ceil | abs | sin | cos
  | environmentVariable | directory | random | randomInteger | isDirectory | isRegular
  | time | timeNanos | formatTime | timer | width | textWidth
deriving DecidableEq, Repr

namespace Native

def name : Native → String
  | print => "print" | str => "str" | len => "len" | type => "type"
  | execModule => "exec_module" | hasModule => "has_module"
  | isLess => "lt" | disassemble => "dis" | readFile => "read" | fileExists => "exists"
  | collect => "collect" | collectorEnabled => "isenabled" | locale => "getlocale"
  | sqrt => "sqrt" | pow => "pow" | floor => "floor" | ceil => "ceil" | abs => "fabs"
  | sin => "sin" | cos => "cos"
  | environmentVariable => "getenv" | directory => "getcwd"
  | random => "random" | randomInteger => "randint"
  | isDirectory => "S_ISDIR" | isRegular => "S_ISREG"
  | time => "time" | timeNanos => "time_ns" | formatTime => "strftime" | timer => "default_timer"
  | width => "wcwidth" | textWidth => "wcswidth"

/-- The functions that every module sees without an import. -/
def builtins : List Native := [print, str, len, type, execModule, hasModule]

/-- The builtin of a name. -/
def builtin? (s : String) : Option Native := builtins.find? (·.name = s)

end Native

end Ember
