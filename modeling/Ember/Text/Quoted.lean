import Ember.Text.Shown

/-!
# Quoted text

A text between double quotes on which nothing stays ambiguous: the quote, the backslash and the
common controls have short escapes, and a character that would not be seen, or would merge with
its neighbour, is given by its code point. `\u{7f}` is one of these; a single quote needs none.
-/

namespace Ember.Text

def hexDigits (n : Nat) : List Char := Nat.toDigits 16 n

def escapeChar (c : Char) : List Char :=
  match c with
  | '"' => ['\\', '"']
  | '\\' => ['\\', '\\']
  | '\n' => ['\\', 'n']
  | '\r' => ['\\', 'r']
  | '\t' => ['\\', 't']
  | '\x00' => ['\\', '0']
  | c => if isShown c then [c] else ['\\', 'u', '\x7b'] ++ hexDigits c.toNat ++ ['\x7d']

def quote (s : String) : String :=
  String.ofList ('"' :: (s.toList.flatMap escapeChar ++ ['"']))

end Ember.Text
