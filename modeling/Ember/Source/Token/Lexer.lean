import Ember.Decimal.Reading
import Ember.Source.Fault
import Ember.Text.Blank

/-!
# From characters to tokens

A text is a gap, a piece, a gap, …, a piece, a gap. A gap is a run of blanks and comments; a piece
spells a lexeme. `gap` and `lexeme` split one off the front of a list of characters and return
its characters, its meaning and the rest, so places need no care of their own: a place moves over
the characters that were split off. Nothing is lost (`append_of_gap`, `append_of_lexeme`), and a
piece is never empty, so `tokensFrom` ends.
-/

namespace Ember.Source

/-! ## Gaps -/

/-- Where in a gap a character stands: outside comments, in a line comment, or inside `depth + 1`
block comments. -/
inductive GapMode where
  | code
  | line
  | block (depth : Nat)

/-- Puts characters in front of the first of two lists. -/
def before (cs : List Char) (r : List Char × List Char) : List Char × List Char := (cs ++ r.1, r.2)

/-- The longest gap and what follows it; `none` if a block comment is not closed. -/
def gap : GapMode → List Char → Option (List Char × List Char)
  | .code, '/' :: '/' :: cs => (gap .line cs).map (before ['/', '/'])
  | .code, '/' :: '*' :: cs => (gap (.block 0) cs).map (before ['/', '*'])
  | .code, c :: cs => if Text.isBlank c then (gap .code cs).map (before [c]) else some ([], c :: cs)
  | .code, [] => some ([], [])
  | .line, '\n' :: cs => (gap .code cs).map (before ['\n'])
  | .line, c :: cs => (gap .line cs).map (before [c])
  | .line, [] => some ([], [])
  | .block 0, '*' :: '/' :: cs => (gap .code cs).map (before ['*', '/'])
  | .block (d + 1), '*' :: '/' :: cs => (gap (.block d) cs).map (before ['*', '/'])
  | .block d, '/' :: '*' :: cs => (gap (.block (d + 1)) cs).map (before ['/', '*'])
  | .block d, c :: cs => (gap (.block d) cs).map (before [c])
  | .block _, [] => none

theorem append_of_map_before {p cs g rest : List Char} {r : Option (List Char × List Char)}
    (ih : ∀ g rest, r = some (g, rest) → g ++ rest = cs)
    (h : r.map (before p) = some (g, rest)) : g ++ rest = p ++ cs := by
  obtain ⟨⟨g', rest'⟩, hr, he⟩ := Option.map_eq_some_iff.1 h
  cases he
  rw [← ih g' rest' hr, List.append_assoc]

/-- **A gap and the rest make up the text.** -/
theorem append_of_gap {mode : GapMode} {cs g rest : List Char}
    (h : gap mode cs = some (g, rest)) : g ++ rest = cs := by
  fun_induction gap mode cs generalizing g rest with
  | case3 c cs _ _ hc ih =>
    have := append_of_map_before (fun _ _ => ih) h
    exact this
  | case4 => cases h; rfl
  | case5 => cases h; rfl
  | case8 => cases h; rfl
  | case13 => cases h
  | _ => rename_i ih; exact append_of_map_before (fun _ _ => ih) h

/-! ## Pieces -/

/-- What a backslash and a character stand for in a quoted text. An unknown escape stands for
itself. -/
def unescape : Char → List Char
  | 'n' => ['\n']
  | 't' => ['\t']
  | 'r' => ['\r']
  | '\\' => ['\\']
  | '"' => ['"']
  | c => ['\\', c]

/-- A quoted text after its opening quote: what it stands for, its characters with the closing
quote, and the rest; `none` if it is not closed. -/
def quoted : List Char → Option (List Char × List Char × List Char)
  | [] => none
  | '"' :: cs => some ([], ['"'], cs)
  | '\\' :: c :: cs => (quoted cs).map fun r => (unescape c ++ r.1, '\\' :: c :: r.2.1, r.2.2)
  | '\\' :: [] => none
  | c :: cs => (quoted cs).map fun r => (c :: r.1, c :: r.2.1, r.2.2)

/-- The characters of a number: digits, and points with a digit after them. -/
def number : List Char → List Char × List Char
  | [] => ([], [])
  | c :: cs =>
    if c.isDigit || (c = '.' && (cs.head?.any Char.isDigit)) then before [c] (number cs)
    else ([], c :: cs)

/-- The lexeme that a number's characters spell. -/
def numberLexeme (cs : List Char) : Except Flaw Lexeme :=
  if '.' ∈ cs then
    match Decimal.readPlain cs with
    | some x => .ok (.float x)
    | none => .error (.floatLiteral (String.ofList cs))
  else
    let n := Decimal.natOfDigits cs
    if n < Decimal.pow2 63 then .ok (.integer (Int64.ofNat n))
    else .error (.integerRange (String.ofList cs))

def isNameStart (c : Char) : Bool := c.isAlpha || c = '_'

def isNameChar (c : Char) : Bool := c.isAlphanum || c = '_'

/-- The lexeme that the characters of a word spell. -/
def wordLexeme (cs : List Char) : Lexeme :=
  let word := String.ofList cs
  match Keyword.ofSpelling? word with
  | some k => .keyword k
  | none => .name word

/-- The symbol spelled by two characters. -/
def Symbol.pair? : Char → Char → Option Symbol
  | '!', '=' => some .notEqual
  | ':', '=' => some .assign
  | '=', '=' => some .equal
  | '<', '=' => some .atMost
  | '>', '=' => some .atLeast
  | '&', '&' => some .both
  | '|', '|' => some .either
  | _, _ => none

/-- The symbol spelled by one character. -/
def Symbol.single? : Char → Option Symbol
  | '+' => some .plus
  | '-' => some .minus
  | '*' => some .star
  | '/' => some .slash
  | '%' => some .percent
  | '!' => some .bang
  | '<' => some .less
  | '>' => some .greater
  | '(' => some .openParen
  | ')' => some .closeParen
  | '\x7b' => some .openBrace
  | '\x7d' => some .closeBrace
  | ',' => some .comma
  | '.' => some .dot
  | ';' => some .semicolon
  | _ => none

/-- Why a character starts no lexeme. -/
def strayFlaw : Char → Flaw
  | ':' => .loneColon
  | '=' => .loneEquals
  | c => .unknownCharacter c

/-- The symbol at the front, the longer of two. -/
def symbol (c : Char) (cs : List Char) : Except Flaw (Symbol × List Char × List Char) :=
  match cs.head?.bind (Symbol.pair? c) with
  | some s => .ok (s, c :: cs.take 1, cs.drop 1)
  | none => match Symbol.single? c with
    | some s => .ok (s, [c], cs)
    | none => .error (strayFlaw c)

/-- The lexeme at the front of `c :: cs`, its characters and the rest. `p` is the place of `c`. -/
def lexeme (p : Place) (c : Char) (cs : List Char) :
    Except Fault (Lexeme × List Char × List Char) :=
  if c = '"' then
    match quoted cs with
    | some (value, piece, rest) => .ok (.text (String.ofList value), c :: piece, rest)
    | none => .error .ended
  else if c.isDigit then
    let (piece, rest) := number (c :: cs)
    match numberLexeme piece with
    | .ok l => .ok (l, piece, rest)
    | .error f => .error (.flaw f p)
  else if isNameStart c then
    let piece := c :: cs.takeWhile isNameChar
    .ok (wordLexeme piece, piece, cs.dropWhile isNameChar)
  else
    match symbol c cs with
    | .ok (s, piece, rest) => .ok (.symbol s, piece, rest)
    | .error f => .error (.flaw f p)

theorem append_of_quoted {cs value piece rest : List Char}
    (h : quoted cs = some (value, piece, rest)) : piece ++ rest = cs := by
  fun_induction quoted cs generalizing value piece rest with
  | case1 => cases h
  | case2 => cases h; rfl
  | case3 c cs ih =>
    obtain ⟨⟨v, p, r⟩, hr, he⟩ := Option.map_eq_some_iff.1 h
    cases he
    simp [← ih hr]
  | case4 => cases h
  | case5 c cs _ _ _ ih =>
    obtain ⟨⟨v, p, r⟩, hr, he⟩ := Option.map_eq_some_iff.1 h
    cases he
    simp [← ih hr]

theorem number_append (cs : List Char) : (number cs).1 ++ (number cs).2 = cs := by
  fun_induction number cs with
  | case1 => rfl
  | case2 c cs _ ih => simp [before, ih]
  | case3 => rfl

theorem number_ne_nil {c : Char} (cs : List Char) (h : c.isDigit) : (number (c :: cs)).1 ≠ [] := by
  simp [number, h, before]

theorem append_of_symbol {c : Char} {cs piece rest : List Char} {s : Symbol}
    (h : symbol c cs = .ok (s, piece, rest)) : piece ++ rest = c :: cs ∧ piece ≠ [] := by
  unfold symbol at h
  split at h
  · cases h
    exact ⟨by rw [List.cons_append, List.take_append_drop], by simp⟩
  · split at h
    · cases h
      exact ⟨rfl, by simp⟩
    · cases h

/-- **A piece and the rest make up the text**, and a piece is not empty. -/
theorem append_of_lexeme {p : Place} {c : Char} {cs piece rest : List Char} {l : Lexeme}
    (h : lexeme p c cs = .ok (l, piece, rest)) : piece ++ rest = c :: cs ∧ piece ≠ [] := by
  unfold lexeme at h
  split at h
  · split at h
    · cases h
      next hq => exact ⟨by rw [List.cons_append, append_of_quoted hq], by simp⟩
    · cases h
  · split at h
    · next hd =>
      dsimp only at h
      split at h
      · cases h
        exact ⟨number_append _, number_ne_nil _ hd⟩
      · cases h
    · split at h
      · cases h
        exact ⟨by simp, by simp⟩
      · split at h
        · next hs =>
          cases h
          exact append_of_symbol hs
        · cases h

theorem length_lt_of_lexeme {p : Place} {c : Char} {cs piece rest : List Char} {l : Lexeme}
    (h : lexeme p c cs = .ok (l, piece, rest)) : rest.length < (c :: cs).length := by
  obtain ⟨ha, hn⟩ := append_of_lexeme h
  have := List.length_pos_iff.2 hn
  rw [← ha, List.length_append]
  omega

/-! ## Whole texts -/

/-- The tokens of `cs`, whose first character stands at `p`. -/
def tokensFrom (p : Place) (cs : List Char) : Except Fault (List Token) :=
  match _hg : gap .code cs with
  | none => .error .ended
  | some (g, []) => .ok [⟨.finish, p.afterAll g⟩]
  | some (g, c :: rest) =>
    let start := p.afterAll g
    match _hl : lexeme start c rest with
    | .error e => .error e
    | .ok (l, piece, tail) => (tokensFrom (start.afterAll piece) tail).map (⟨l, start⟩ :: ·)
termination_by cs.length
decreasing_by
  have h₁ := length_lt_of_lexeme _hl
  have h₂ := congrArg List.length (append_of_gap _hg)
  rw [List.length_append] at h₂
  omega

/-- The tokens of a text, the last of which is its end. -/
def tokens (source : String) : Except Fault (List Token) := tokensFrom Place.start source.toList

end Ember.Source
