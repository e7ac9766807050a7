import Ember.Decimal.Layout
import Ember.Heap
import Ember.Text.Quoted

/-!
# The texts of values

A value has two texts: the one that programs see (`display`), and the one that messages and
listings use (`shown`), on which its type can be read. Functions and modules appear by name.
-/

namespace Ember.Value

/-- The text of a number or a boolean, the same wherever it is written. -/
def scalarText? : Value → Option String
  | bool b => some (toString b)
  | integer n => some (toString n.toInt)
  | float x => some (Decimal.showFloat x)
  | _ => none

def display (h : Heap) : Value → String
  | nil => "nil"
  | bool b => toString b
  | integer n => toString n.toInt
  | float x => Decimal.showFloat x
  | text s => s
  | function f => s!"<function {h.functionName f}>"
  | native n => s!"<native {n.name}>"
  | module m => s!"<module '{h.moduleName m}'>"

def shown (h : Heap) : Value → String
  | nil => "None"
  | bool b => s!"Boolean({b})"
  | integer n => s!"Integer({n.toInt})"
  | float x => s!"Float({Decimal.showFloat x})"
  | text s => s!"String({Text.quote s})"
  | function f => s!"Function({h.functionName f})"
  | native n => s!"NativeFunction({n.name})"
  | module m => s!"Module({h.moduleName m})"

theorem display_of_scalarText? {v : Value} {s : String} (hs : v.scalarText? = some s) (h : Heap) :
    v.display h = s := by
  cases v <;> simp_all [scalarText?, display]

end Ember.Value
