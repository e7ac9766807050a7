import Ember.Library.Bundled
import Ember.Output.Capture

/-!
# Samples

Interpreters and a program on which the hypotheses of theorems are shown to be met.
-/

namespace Ember

open Source (Program)

namespace Interpreter

/-- A new interpreter with the modules of the library. -/
def stocked : Interpreter Capture :=
  new Config.default Capture.unlimited none (Surroundings.ofLists [] [] "/" 0)

/-- A new interpreter, with one module that is not registered. -/
def sample : Interpreter Capture :=
  (bare Config.default Capture.unlimited none (Surroundings.ofLists [] [] "/" 0)).newModule.2

/-- A new interpreter without modules, which knows an empty source for every module. -/
def importing : Interpreter Capture :=
  bare Config.default Capture.unlimited (some fun _ => some "") (Surroundings.ofLists [] [] "/" 0)

/-- A new interpreter with the modules of the library, which knows a source for the module `lib`. -/
def lending : Interpreter Capture :=
  new Config.default Capture.unlimited
    (some fun name =>
      if name = "lib" then some "\n\nfunc f() \x7b\n raise \"deep\"\n\x7d" else none)
    (Surroundings.ofLists [] [] "/" 0)

/-- `x = 2`, a loop that counts down to zero, and a call of a function with an `or`. -/
def sampleProgram : Program :=
  [.assign 1 "x" (.integer 2),
   .loop 2 (.variable "x")
    [.assign 3 "x" (.binary (.operator .sub) (.variable "x") (.integer 1))],
   .function 5 "f" ["y"] [.give 6 (some (.binary .or (.variable "y") (.bool true)))],
   .expr 8 (.call (.variable "f") [.variable "x"])]

end Interpreter

/-- The empty source text. -/
theorem Code.compile_empty (file : String) : compile "" file = .ok #[] := by
  have htokens : Source.tokens "" = .ok [⟨.finish, Source.Place.start⟩] := by
    unfold Source.tokens Source.tokensFrom
    rfl
  unfold compile Source.Program.parse
  rw [htokens]
  rfl

end Ember
