import Ember.Decimal.Shortest

/-!
# Written doubles

A `Layout` holds the decisions of a decimal format: which way ties go, which decimal exponents
are written positionally, and whether a positive exponent has a sign. `render` writes a finite
double by a layout. Two layouts are used: `plain`, in which values are shown, and `document`,
which data documents use.
-/

namespace Ember.Decimal

structure Layout where
  tie : Tie
  /-- The least exponent of the first digit that is written positionally. -/
  lowest : Int
  /-- The greatest one. -/
  highest : Int
  /-- Is a positive exponent written with a sign? -/
  signedExponent : Bool

/-- Values: ties go away from zero, and from `1e-4` up to below `1e16` no exponent is written. -/
def Layout.plain : Layout := ⟨.away, -4, 15, false⟩

/-- Documents: ties go to the even digit, and from `1e-5` up to below `1e16` no exponent is
written. -/
def Layout.document : Layout := ⟨.toEven, -5, 15, true⟩

def zeros (n : Nat) : String := String.ofList (List.replicate n '0')

/-- `0.00ddd`, `dd.d` or `ddd00.0`: the point stands after `point` digits. -/
def positional (text : String) (point : Int) : String :=
  let n := text.length
  if point ≤ 0 then "0." ++ zeros (-point).toNat ++ text
  else if (n : Int) ≤ point then text ++ zeros (point.toNat - n) ++ ".0"
  else (text.take point.toNat).toString ++ "." ++ (text.drop point.toNat).toString

/-- `d.ddde-7`. -/
def scientific (text : String) (exponent : Int) (signed : Bool) : String :=
  let lead := (text.take 1).toString
  let rest := (text.drop 1).toString
  let sign := if 0 ≤ exponent ∧ signed then "+" else ""
  lead ++ (if rest.isEmpty then "" else "." ++ rest) ++ "e" ++ sign ++ toString exponent

def Layout.renderDigits (layout : Layout) (d : Digits) : String :=
  let text := toString d.digits
  let first : Int := d.exponent + text.length - 1
  if layout.lowest ≤ first ∧ first ≤ layout.highest then positional text (first + 1)
  else scientific text first layout.signedExponent

/-- The written form of a finite magnitude. -/
def Layout.renderFinite (layout : Layout) (m : Nat) (e : Int) : String :=
  if m = 0 then "0.0" else layout.renderDigits (shortest layout.tie m e)

/-- The text of a double among values. -/
def showFloat (x : Float) : String :=
  match decode x with
  | ⟨_, .notANumber⟩ => "NaN"
  | ⟨s, .infinite⟩ => if s then "-inf" else "inf"
  | ⟨s, .finite m e⟩ => (if s then "-" else "") ++ Layout.plain.renderFinite m e

/-- The text of a double in a document, which has no word for what is not finite. -/
def documentFloat (x : Float) : String :=
  match decode x with
  | ⟨s, .finite m e⟩ => (if s then "-" else "") ++ Layout.document.renderFinite m e
  | _ => "null"

end Ember.Decimal
