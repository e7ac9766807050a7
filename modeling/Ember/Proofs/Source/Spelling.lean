import Ember.Source.Token.Lexer
import Mathlib

/-!
# Spelled texts

**Theorem (`tokens_of_spelled`).** Spell some lexemes one after the other, with gaps between them
that begin with a blank. The tokens of the text are these lexemes, each at the place of its first
character, and the end.

What a text is, is said without the lexer. A gap is made of blanks, lines of comment and block
comments, which nest (`Gap`). A piece spells a lexeme (`Spells`). A text is pieces and gaps
(`Spelled`). The proof follows these relations: a gap in front is split off whole
(`gap_append`), and so is a piece with a blank or nothing behind it (`lexeme_append`).
-/

namespace Ember.Source

/-! ## Places -/

namespace Place

/-- The place behind some characters: the newlines among them, and the characters since the last
of these. -/
def behind (cs : List Char) : Place :=
  ⟨cs.count '\n' + 1, (cs.reverse.takeWhile (· ≠ '\n')).length + 1⟩

theorem after_behind (cs : List Char) (c : Char) : (behind cs).after c = behind (cs ++ [c]) := by
  unfold behind after
  by_cases hc : c = '\n' <;> simp [hc]

theorem afterAll_behind (cs ds : List Char) : (behind cs).afterAll ds = behind (cs ++ ds) := by
  induction ds generalizing cs with
  | nil => rw [List.append_nil]; rfl
  | cons d ds ih =>
    show ((behind cs).after d).afterAll ds = _
    rw [after_behind, ih, List.append_assoc, List.singleton_append]

end Place

/-! ## Gaps -/

/-- A block comment behind its opening, up to its end. Comments nest. -/
inductive CommentRest : List Char → Prop
  | close : CommentRest ['*', '/']
  | char {c : Char} {cs : List Char} : ¬ ['*', '/'] <+: c :: cs → ¬ ['/', '*'] <+: c :: cs →
    CommentRest cs → CommentRest (c :: cs)
  | nested {inner cs : List Char} : CommentRest inner → CommentRest cs →
    CommentRest ('/' :: '*' :: (inner ++ cs))

/-- Blanks, comments up to the end of a line, and block comments. -/
inductive Gap : List Char → Prop
  | nil : Gap []
  | blank {c : Char} {g : List Char} : Text.isBlank c → Gap g → Gap (c :: g)
  | line {text g : List Char} : '\n' ∉ text → Gap g → Gap ('/' :: '/' :: (text ++ '\n' :: g))
  | block {inner g : List Char} : CommentRest inner → Gap g → Gap ('/' :: '*' :: (inner ++ g))

/-- The last gap of a text may end in a comment without the end of its line. -/
inductive LastGap : List Char → Prop
  | gap {g : List Char} : Gap g → LastGap g
  | line {g text : List Char} : Gap g → '\n' ∉ text → LastGap (g ++ '/' :: '/' :: text)

/-- What follows is nothing or begins with a blank. -/
def Separated (rest : List Char) : Prop := ∀ c ∈ rest.head?, Text.isBlank c

theorem separated_cons {c : Char} (hc : Text.isBlank c) (cs : List Char) : Separated (c :: cs) := by
  intro d hd
  cases hd
  exact hc

/-! ## Pieces -/

/-- The escapes in quoted texts and what they stand for. -/
def escapes : List (Char × Char) :=
  [('n', '\n'), ('t', '\t'), ('r', '\r'), ('\\', '\\'), ('"', '"')]

/-- Characters between quotes and the text that they stand for. -/
inductive Quotes : List Char → List Char → Prop
  | nil : Quotes [] []
  | raw {c : Char} {value cs : List Char} : c ≠ '"' → c ≠ '\\' → Quotes value cs →
    Quotes (c :: value) (c :: cs)
  | escape {c d : Char} {value cs : List Char} : (c, d) ∈ escapes → Quotes value cs →
    Quotes (d :: value) ('\\' :: c :: cs)
  /-- An unknown escape stands for itself. -/
  | unknown {c : Char} {value cs : List Char} : c ∉ escapes.map Prod.fst → Quotes value cs →
    Quotes ('\\' :: c :: value) ('\\' :: c :: cs)

/-- Decimal digits, at least one. -/
def Digits (cs : List Char) : Prop := cs ≠ [] ∧ ∀ c ∈ cs, c.isDigit

/-- The characters spell the lexeme. -/
inductive Spells : Lexeme → List Char → Prop
  | integer {ds : List Char} : Digits ds → Decimal.natOfDigits ds < 2 ^ 63 →
    Spells (.integer (Int64.ofNat (Decimal.natOfDigits ds))) ds
  /-- The double nearest to the decimal number. -/
  | float {ds es : List Char} : Digits ds → Digits es →
    Spells (.float (Decimal.ofDecimal false (Decimal.natOfDigits (ds ++ es)) (-es.length)))
      (ds ++ '.' :: es)
  | text {value cs : List Char} : Quotes value cs →
    Spells (.text (String.ofList value)) ('"' :: (cs ++ ['"']))
  | name {c : Char} {cs : List Char} : isNameStart c → (∀ d ∈ cs, isNameChar d) →
    (∀ k : Keyword, k.spelling.toList ≠ c :: cs) →
    Spells (.name (String.ofList (c :: cs))) (c :: cs)
  | keyword (k : Keyword) : Spells (.keyword k) k.spelling.toList
  | symbol (s : Symbol) : Spells (.symbol s) s.spelling.toList

/-- Behind some characters, gaps and pieces that have a blank or nothing behind them, with the
tokens that they make up. -/
inductive Spelled : List Char → List Token → List Char → Prop
  | finish {front g : List Char} : LastGap g →
    Spelled front [⟨.finish, Place.behind (front ++ g)⟩] g
  | piece {front g piece rest : List Char} {l : Lexeme} {ts : List Token} : Gap g →
    Spells l piece → Separated rest → Spelled (front ++ g ++ piece) ts rest →
    Spelled front (⟨l, Place.behind (front ++ g)⟩ :: ts) (g ++ (piece ++ rest))

/-! ## Gaps are split off -/

/-- Where a character stands behind the end of the innermost of `d + 1` comments. -/
def GapMode.outside : Nat → GapMode
  | 0 => .code
  | d + 1 => .block d

section Gaps

variable {c : Char} {cs g rest : List Char} {d : Nat}

theorem map_before_append (p q : List Char) (o : Option (List Char × List Char)) :
    o.map (before (p ++ q)) = (o.map (before q)).map (before p) := by
  cases o <;> simp [before]

theorem gap_close (d : Nat) (cs : List Char) :
    gap (.block d) ('*' :: '/' :: cs) = (gap (.outside d) cs).map (before ['*', '/']) := by
  cases d <;> rfl

theorem gap_open (d : Nat) (cs : List Char) :
    gap (.block d) ('/' :: '*' :: cs) = (gap (.block (d + 1)) cs).map (before ['/', '*']) := by
  cases d <;> rfl

theorem gap_startLine (cs : List Char) :
    gap .code ('/' :: '/' :: cs) = (gap .line cs).map (before ['/', '/']) := rfl

theorem gap_startBlock (cs : List Char) :
    gap .code ('/' :: '*' :: cs) = (gap (.block 0) cs).map (before ['/', '*']) := rfl

/-- In front of a character that begins no comment, a gap goes on if it is blank. -/
theorem gap_codeChar (hstart : c = '/' → ∀ d ds, cs = d :: ds → d ≠ '/' ∧ d ≠ '*') :
    gap .code (c :: cs) =
      if Text.isBlank c then (gap .code cs).map (before [c]) else some ([], c :: cs) := by
  rw [gap]
  · exact fun ds hc hcs => (hstart hc '/' ds hcs).1 rfl
  · exact fun ds hc hcs => (hstart hc '*' ds hcs).2 rfl

/-- In a line comment. -/
theorem gap_lineChar (hc : c ≠ '\n') (cs : List Char) :
    gap .line (c :: cs) = (gap .line cs).map (before [c]) := by
  rw [gap]
  exact hc

theorem gap_char (hclose : ¬ ['*', '/'] <+: c :: cs) (hopen : ¬ ['/', '*'] <+: c :: cs) :
    gap (.block d) (c :: cs) = (gap (.block d) cs).map (before [c]) := by
  have hends : ∀ cs', c = '*' → cs = '/' :: cs' → False := by
    rintro cs' rfl rfl
    exact hclose ⟨cs', rfl⟩
  have hbegins : ∀ cs', c = '/' → cs = '*' :: cs' → False := by
    rintro cs' rfl rfl
    exact hopen ⟨cs', rfl⟩
  rw [gap]
  · exact fun cs' _ => hends cs'
  · exact fun _ cs' _ => hends cs'
  · exact hbegins

theorem CommentRest.length (h : CommentRest cs) : 2 ≤ cs.length := by
  induction h with
  | close => exact Nat.le_refl _
  | char _ _ _ ih => exact Nat.le_succ_of_le ih
  | nested => simp

/-- A block comment is split off whole. -/
theorem gap_comment (h : CommentRest cs) :
    gap (.block d) (cs ++ rest) = (gap (.outside d) rest).map (before cs) := by
  induction h generalizing d rest with
  | close => exact gap_close d rest
  | @char c cs hclose hopen h ih =>
    -- The two characters that are looked at lie in the comment.
    have hpair : ∀ p q : Char, [p, q] <+: c :: (cs ++ rest) → [p, q] <+: c :: cs := by
      intro p q hp
      have hlength := h.length
      exact List.prefix_of_prefix_length_le hp (List.prefix_append (c :: cs) rest)
        (by simp only [List.length_cons, List.length_nil]; omega)
    rw [List.cons_append, gap_char (mt (hpair _ _) hclose) (mt (hpair _ _) hopen), ih,
      ← map_before_append]
    rfl
  | @nested inner cs _ _ ihinner ih =>
    rw [List.cons_append, List.cons_append, List.append_assoc, gap_open, ihinner]
    show ((gap (.block d) (cs ++ rest)).map (before inner)).map (before ['/', '*']) = _
    rw [ih, ← map_before_append, ← map_before_append]
    rfl

theorem gap_line (hn : '\n' ∉ cs) :
    gap .line (cs ++ '\n' :: rest) = (gap .code rest).map (before (cs ++ ['\n'])) := by
  induction cs with
  | nil => rfl
  | cons c cs ih =>
    have hc : c ≠ '\n' := fun hc => hn (hc ▸ List.mem_cons_self ..)
    rw [List.cons_append, gap_lineChar hc, ih fun h => hn (List.mem_cons_of_mem c h),
      ← map_before_append]
    rfl

theorem gap_lastLine (hn : '\n' ∉ cs) : gap .line cs = some (cs, []) := by
  induction cs with
  | nil => rfl
  | cons c cs ih =>
    have hc : c ≠ '\n' := fun hc => hn (hc ▸ List.mem_cons_self ..)
    rw [gap_lineChar hc, ih fun h => hn (List.mem_cons_of_mem c h)]
    rfl

theorem ne_slash_of_isBlank (h : Text.isBlank c) : c ≠ '/' := by
  rintro rfl
  revert h
  decide

theorem gap_blank (hc : Text.isBlank c) : gap .code (c :: cs) = (gap .code cs).map (before [c]) := by
  rw [gap_codeChar fun hs => absurd hs (ne_slash_of_isBlank hc), if_pos hc]

/-- A gap is split off whole. -/
theorem gap_append (h : Gap g) :
    gap .code (g ++ rest) = (gap .code rest).map (before g) := by
  induction h with
  | nil =>
    rw [List.nil_append]
    cases gap .code rest <;> rfl
  | blank hc _ ih =>
    rw [List.cons_append, gap_blank hc, ih, ← map_before_append]
    rfl
  | line hn _ ih =>
    rw [List.cons_append, List.cons_append, List.append_assoc, List.cons_append,
      gap_startLine, gap_line hn, ih, ← map_before_append, ← map_before_append]
    simp
  | block hc _ ih =>
    rw [List.cons_append, List.cons_append, List.append_assoc, gap_startBlock, gap_comment hc]
    show ((gap .code (_ ++ rest)).map _).map _ = _
    rw [ih, ← map_before_append, ← map_before_append]
    rfl

theorem gap_last (h : LastGap g) : gap .code g = some (g, []) := by
  cases h with
  | gap h =>
    rw [← List.append_nil g, gap_append h]
    rfl
  | line h hn =>
    rw [gap_append h, gap_startLine, gap_lastLine hn]
    rfl

end Gaps

/-! ## Pieces are split off -/

section Pieces

variable {rest : List Char}

/-- Blanks lie outside of the range of the characters that spell pieces. -/
theorem toNat_of_isBlank {c : Char} (h : Text.isBlank c) : c.toNat ≤ 32 ∨ 127 ≤ c.toNat := by
  simp [Text.isBlank, Text.blankRanges] at h
  omega

theorem toNat_of_isNameChar {c : Char} (h : isNameChar c) : 32 < c.toNat ∧ c.toNat < 127 := by
  simp [isNameChar, Char.isAlphanum, Char.isAlpha, Char.isUpper, Char.isLower, Char.isDigit,
    UInt32.le_iff_toNat_le] at h
  rcases h with ((h | h) | h) | rfl
  · omega
  · omega
  · omega
  · decide

theorem isNameChar_of_isDigit {c : Char} (h : c.isDigit) : isNameChar c := by
  simp [isNameChar, Char.isAlphanum, h]

theorem isNameChar_of_isNameStart {c : Char} (h : isNameStart c) : isNameChar c := by
  unfold isNameStart at h
  unfold isNameChar Char.isAlphanum
  rcases Bool.or_eq_true_iff.1 h with h | h <;> simp [h]

/-- Where a piece is separated from what follows, no character of a class continues it. -/
theorem Separated.takeWhile {p : Char → Bool} (hr : Separated rest)
    (hp : ∀ c, p c → 32 < c.toNat ∧ c.toNat < 127) :
    rest.takeWhile p = [] ∧ rest.dropWhile p = rest := by
  cases rest with
  | nil => exact ⟨rfl, rfl⟩
  | cons c cs =>
    have hblank := toNat_of_isBlank (hr c rfl)
    have hc : ¬ p c := fun h => by
      have := hp c h
      omega
    exact ⟨List.takeWhile_cons_of_neg hc, List.dropWhile_cons_of_neg hc⟩

/-! ### Numbers -/

theorem number_digits {ds : List Char} (hd : ∀ c ∈ ds, c.isDigit) (tail : List Char) :
    number (ds ++ tail) = before ds (number tail) := by
  induction ds with
  | nil => rfl
  | cons d ds ih =>
    have hdigit := hd d (List.mem_cons_self ..)
    have ih := ih fun c hc => hd c (List.mem_cons_of_mem d hc)
    simp [number, hdigit, ih, before]

theorem number_separated (hr : Separated rest) : number rest = ([], rest) := by
  cases rest with
  | nil => rfl
  | cons c cs =>
    have hblank := toNat_of_isBlank (hr c rfl)
    have hdigit : ¬ c.isDigit := fun h => by
      have := toNat_of_isNameChar (isNameChar_of_isDigit h)
      omega
    have hdot : c ≠ '.' := by
      rintro rfl
      revert hblank
      decide
    simp [number, hdigit, hdot]

theorem numberLexeme_digits {ds : List Char} (hd : Digits ds)
    (hn : Decimal.natOfDigits ds < 2 ^ 63) :
    numberLexeme ds = .ok (.integer (Int64.ofNat (Decimal.natOfDigits ds))) := by
  have hdot : '.' ∉ ds := fun h => by
    have := hd.2 '.' h
    revert this
    decide
  have hsmall : Decimal.natOfDigits ds < Decimal.pow2 63 := hn
  simp only [numberLexeme, hdot, if_false, hsmall, if_true]

theorem spanDigits_append {ds tail : List Char} (hd : Digits ds)
    (ht : ∀ c ∈ tail.head?, c.isDigit = false) : Decimal.spanDigits (ds ++ tail) = (ds, tail) := by
  have htail : tail.takeWhile Char.isDigit = [] ∧ tail.dropWhile Char.isDigit = tail := by
    cases tail with
    | nil => exact ⟨rfl, rfl⟩
    | cons c cs => simp [ht c rfl]
  unfold Decimal.spanDigits
  rw [List.takeWhile_append_of_pos hd.2, List.dropWhile_append_of_pos hd.2, htail.1, htail.2,
    List.append_nil]

theorem numberLexeme_point {ds es : List Char} (hd : Digits ds) (he : Digits es) :
    numberLexeme (ds ++ '.' :: es) = .ok (.float (Decimal.ofDecimal false
      (Decimal.natOfDigits (ds ++ es)) (-es.length))) := by
  have hdot : '.' ∈ ds ++ '.' :: es := by simp
  have hwhole : Decimal.spanDigits (ds ++ '.' :: es) = (ds, '.' :: es) :=
    spanDigits_append hd (by simp)
  have hfraction : Decimal.spanDigits es = (es, []) := by
    have hspan : Decimal.spanDigits (es ++ []) = (es, []) := spanDigits_append he (by simp)
    rwa [List.append_nil] at hspan
  have hread : Decimal.readPlain (ds ++ '.' :: es) = some (Decimal.ofDecimal false
      (Decimal.natOfDigits (ds ++ es)) (-es.length)) := by
    simp [Decimal.readPlain, hwhole, hfraction, hd.1, he.1]
  simp only [numberLexeme, hdot, if_true, hread]

theorem number_decimal {ds es : List Char} (hd : Digits ds) (he : Digits es) (tail : List Char) :
    number (ds ++ '.' :: es ++ tail) = before (ds ++ '.' :: es) (number tail) := by
  obtain ⟨e, es, rfl⟩ := List.exists_cons_of_ne_nil he.1
  have hdigit := he.2 e (List.mem_cons_self ..)
  have hpoint : number ('.' :: (e :: es ++ tail)) = before ('.' :: e :: es) (number tail) := by
    rw [number, number_digits he.2]
    simp [hdigit, before]
  rw [List.append_assoc, List.cons_append, number_digits hd.2, hpoint]
  simp only [before, List.append_assoc]

theorem number_point {ds es : List Char} (hd : Digits ds) (he : Digits es) (hr : Separated rest) :
    number (ds ++ '.' :: es ++ rest) = (ds ++ '.' :: es, rest) := by
  rw [number_decimal hd he, number_separated hr, before, List.append_nil]

/-! ### Quoted texts -/

theorem unescape_of_mem {c d : Char} (h : (c, d) ∈ escapes) : unescape c = [d] := by
  simp only [escapes, List.mem_cons, Prod.mk.injEq, List.not_mem_nil, or_false] at h
  rcases h with ⟨rfl, rfl⟩ | ⟨rfl, rfl⟩ | ⟨rfl, rfl⟩ | ⟨rfl, rfl⟩ | ⟨rfl, rfl⟩ <;> rfl

theorem unescape_of_not_mem {c : Char} (h : c ∉ escapes.map Prod.fst) :
    unescape c = ['\\', c] := by
  unfold unescape
  split <;> simp [escapes] at h ⊢

theorem quoted_append {value cs : List Char} (h : Quotes value cs) :
    quoted (cs ++ '"' :: rest) = some (value, cs ++ ['"'], rest) := by
  induction h with
  | nil => rfl
  | raw hquote hslash _ ih => simp [quoted, hslash, ih]
  | escape hc _ ih => simp [quoted, ih, unescape_of_mem hc]
  | unknown hc _ ih => simp [quoted, ih, unescape_of_not_mem hc]

/-! ### Words -/

theorem ofSpelling?_spelling (k : Keyword) : Keyword.ofSpelling? k.spelling = some k := by
  cases k <;> decide

theorem wordLexeme_spelling (k : Keyword) : wordLexeme k.spelling.toList = .keyword k := by
  simp only [wordLexeme, String.ofList_toList, ofSpelling?_spelling]

theorem wordLexeme_name {cs : List Char} (h : ∀ k : Keyword, k.spelling.toList ≠ cs) :
    wordLexeme cs = .name (String.ofList cs) := by
  have hnone : Keyword.ofSpelling? (String.ofList cs) = none := by
    unfold Keyword.ofSpelling?
    rw [List.find?_eq_none]
    intro k _ hk
    refine h k ?_
    rw [of_decide_eq_true hk, String.toList_ofList]
  simp only [wordLexeme, hnone]

/-! ### Symbols -/

theorem pair?_of_isBlank {c d : Char} (h : Text.isBlank d) : Symbol.pair? c d = none := by
  have hblank := toNat_of_isBlank h
  unfold Symbol.pair?
  split <;> first | rfl | (revert hblank; decide)

/-- A symbol's first character begins no other kind of piece. -/
theorem symbol_append (s : Symbol) (hr : Separated rest) : ∃ c cs, s.spelling.toList = c :: cs ∧
    symbol c (cs ++ rest) = .ok (s, c :: cs, rest) ∧
    (c ≠ '"' ∧ c.isDigit = false ∧ isNameStart c = false) ∧
    (32 < c.toNat ∧ c.toNat < 127) ∧ (c = '/' → cs = []) := by
  have hsingle : ∀ c, Symbol.single? c = some s → symbol c rest = .ok (s, [c], rest) := by
    intro c hc
    have hpair : rest.head?.bind (Symbol.pair? c) = none := by
      cases rest with
      | nil => rfl
      | cons d ds => exact pair?_of_isBlank (hr d rfl)
    simp only [symbol, hpair, hc]
  cases s with
  | assign | equal | notEqual | atMost | atLeast | both | either =>
    exact ⟨_, _, rfl, rfl, by decide, by decide, by decide⟩
  | _ => exact ⟨_, [], rfl, hsingle _ rfl, by decide, by decide, fun _ => rfl⟩

/-! ### All pieces -/

/-- A character that begins a piece begins no gap, unless what follows makes it a comment. -/
theorem gap_piece {c : Char} {cs : List Char} (hc : 32 < c.toNat ∧ c.toNat < 127)
    (hs : c = '/' → Separated cs) : gap .code (c :: cs) = some ([], c :: cs) := by
  have hblank : ¬ Text.isBlank c := fun h => by
    have := toNat_of_isBlank h
    omega
  have hstart : c = '/' → ∀ d ds, cs = d :: ds → d ≠ '/' ∧ d ≠ '*' := by
    rintro rfl d ds rfl
    have hd := toNat_of_isBlank (hs rfl d rfl)
    constructor <;> rintro rfl <;> revert hd <;> decide
  rw [gap_codeChar hstart, if_neg hblank]

/-- No comment begins with a number or a word. -/
theorem gap_nameChar {c : Char} {cs : List Char} (hc : isNameChar c) :
    gap .code (c :: cs) = some ([], c :: cs) := by
  refine gap_piece (toNat_of_isNameChar hc) fun hs => ?_
  rw [hs] at hc
  exact absurd hc (by decide)

theorem lexeme_number {l : Lexeme} {c : Char} {cs : List Char} (hc : c.isDigit)
    (hn : number (c :: (cs ++ rest)) = (c :: cs, rest)) (hl : numberLexeme (c :: cs) = .ok l)
    (p : Place) : lexeme p c (cs ++ rest) = .ok (l, c :: cs, rest) := by
  have hquote : c ≠ '"' := fun h => by
    rw [h] at hc
    exact absurd hc (by decide)
  simp only [lexeme, hquote, if_false, hc, if_true, hn, hl]

theorem lexeme_word {c : Char} {cs : List Char} (hc : isNameStart c)
    (hcs : ∀ d ∈ cs, isNameChar d) (hr : Separated rest) (p : Place) :
    lexeme p c (cs ++ rest) = .ok (wordLexeme (c :: cs), c :: cs, rest) := by
  have hquote : c ≠ '"' := fun h => by
    rw [h] at hc
    exact absurd hc (by decide)
  have hdigit : c.isDigit = false := by
    simp [isNameStart, Char.isAlpha, Char.isUpper, Char.isLower, UInt32.le_iff_toNat_le] at hc
    simp [Char.isDigit, UInt32.le_iff_toNat_le]
    rcases hc with (hc | hc) | rfl
    · omega
    · omega
    · decide
  obtain ⟨htake, hdrop⟩ := hr.takeWhile fun d => toNat_of_isNameChar
  have htakes : (cs ++ rest).takeWhile isNameChar = cs := by
    rw [List.takeWhile_append_of_pos hcs, htake, List.append_nil]
  have hdrops : (cs ++ rest).dropWhile isNameChar = rest := by
    rw [List.dropWhile_append_of_pos hcs, hdrop]
  simp [lexeme, hquote, hdigit, hc, htakes, hdrops]

theorem Keyword.exists_cons (k : Keyword) : ∃ c cs, k.spelling.toList = c :: cs ∧
    isNameStart c ∧ ∀ d ∈ cs, isNameChar d := by
  obtain ⟨c, cs, hk, hc, hcs⟩ : ∃ c cs, k.spelling.toList = c :: cs ∧ isNameStart c ∧
      cs.all isNameChar := by
    cases k <;> exact ⟨_, _, rfl, rfl, rfl⟩
  exact ⟨c, cs, hk, hc, List.all_eq_true.1 hcs⟩

/-- **A piece with a blank or nothing behind it is split off whole**, and it begins no gap. -/
theorem lexeme_append {l : Lexeme} {piece : List Char} (h : Spells l piece) (hr : Separated rest)
    (p : Place) : ∃ c cs, piece = c :: cs ∧ lexeme p c (cs ++ rest) = .ok (l, piece, rest) ∧
      gap .code (c :: (cs ++ rest)) = some ([], c :: (cs ++ rest)) := by
  cases h with
  | @integer ds hd hn =>
    obtain ⟨c, cs, rfl⟩ := List.exists_cons_of_ne_nil hd.1
    have hc := hd.2 c (List.mem_cons_self ..)
    have hnumber : number (c :: (cs ++ rest)) = (c :: cs, rest) := by
      rw [← List.cons_append, number_digits hd.2, number_separated hr, before, List.append_nil]
    exact ⟨c, cs, rfl, lexeme_number hc hnumber (numberLexeme_digits hd hn) p,
      gap_nameChar (isNameChar_of_isDigit hc)⟩
  | @float ds es hd he =>
    obtain ⟨c, cs, rfl⟩ := List.exists_cons_of_ne_nil hd.1
    have hc := hd.2 c (List.mem_cons_self ..)
    exact ⟨c, cs ++ '.' :: es, rfl, lexeme_number hc (number_point hd he hr)
      (numberLexeme_point hd he) p, gap_nameChar (isNameChar_of_isDigit hc)⟩
  | @text value cs hq =>
    refine ⟨'"', cs ++ ['"'], rfl, ?_, gap_piece (by decide) fun h => absurd h (by decide)⟩
    rw [List.append_assoc, List.singleton_append]
    simp only [lexeme, if_true, quoted_append hq]
  | @name c cs hc hcs hk =>
    refine ⟨c, cs, rfl, ?_, gap_nameChar (isNameChar_of_isNameStart hc)⟩
    rw [lexeme_word hc hcs hr, wordLexeme_name hk]
  | keyword k =>
    obtain ⟨c, cs, hk, hc, hcs⟩ := k.exists_cons
    refine ⟨c, cs, hk, ?_, gap_nameChar (isNameChar_of_isNameStart hc)⟩
    rw [lexeme_word hc hcs hr, ← hk, wordLexeme_spelling]
  | symbol s =>
    obtain ⟨c, cs, hs, hsymbol, ⟨hquote, hdigit, hname⟩, hrange, hslash⟩ := symbol_append s hr
    rw [hs]
    refine ⟨c, cs, rfl, ?_, gap_piece hrange fun he => ?_⟩
    · simp [lexeme, hquote, hdigit, hname, hsymbol]
    · rw [hslash he]
      exact hr

end Pieces

/-! ## Texts -/

theorem tokensFrom_finish {p : Place} {cs g : List Char} (hg : gap .code cs = some (g, [])) :
    tokensFrom p cs = .ok [⟨.finish, p.afterAll g⟩] := by
  rw [tokensFrom]
  split
  · next h =>
    rw [hg] at h
    cases h
  · next h =>
    rw [hg] at h
    cases h
    rfl
  · next h =>
    rw [hg] at h
    cases h

theorem tokensFrom_piece {p : Place} {cs g rest piece tail : List Char} {c : Char} {l : Lexeme}
    (hg : gap .code cs = some (g, c :: rest))
    (hl : lexeme (p.afterAll g) c rest = .ok (l, piece, tail)) :
    tokensFrom p cs = (tokensFrom ((p.afterAll g).afterAll piece) tail).map
      (⟨l, p.afterAll g⟩ :: ·) := by
  rw [tokensFrom]
  split
  · next h =>
    rw [hg] at h
    cases h
  · next h =>
    rw [hg] at h
    cases h
  · next h =>
    rw [hg] at h
    cases h
    dsimp only
    split
    · next h =>
      rw [hl] at h
      cases h
    · next h =>
      rw [hl] at h
      cases h
      rfl

theorem tokensFrom_of_spelled {front cs : List Char} {ts : List Token} (h : Spelled front ts cs) :
    tokensFrom (Place.behind front) cs = .ok ts := by
  induction h with
  | finish hg => rw [tokensFrom_finish (gap_last hg), Place.afterAll_behind]
  | @piece front g piece rest l ts hg hl hr _ ih =>
    obtain ⟨c, cs, rfl, hlexeme, hgap⟩ :=
      lexeme_append hl hr ((Place.behind front).afterAll g)
    have hg : gap .code (g ++ c :: (cs ++ rest)) = some (g, c :: (cs ++ rest)) := by
      rw [gap_append hg, hgap, Option.map_some, before, List.append_nil]
    rw [List.cons_append, tokensFrom_piece hg hlexeme, Place.afterAll_behind,
      Place.afterAll_behind, ih]
    rfl

/-- **Reading undoes spelling.** -/
theorem tokens_of_spelled {source : String} {ts : List Token}
    (h : Spelled [] ts source.toList) : tokens source = .ok ts := tokensFrom_of_spelled h

/-- An assignment of a text with an unknown escape, a comment in a comment, and an unfinished
line. -/
def spelledSample : String := "x := \"a\\q\" /* /*\n*/ */ // z"

theorem tokens_of_spelled_sample : ∃ ts, Spelled [] ts spelledSample.toList ∧
    tokens spelledSample = .ok ts ∧ ts = [⟨.name "x", ⟨1, 1⟩⟩, ⟨.symbol .assign, ⟨1, 3⟩⟩,
      ⟨.text "a\\q", ⟨1, 6⟩⟩, ⟨.finish, ⟨2, 11⟩⟩] := by
  have hcomment : CommentRest " /*\n*/ */".toList := by
    have hinner : CommentRest "\n*/".toList := .char (by decide) (by decide) .close
    have houter : CommentRest " */".toList := .char (by decide) (by decide) .close
    exact .char (by decide) (by decide) (.nested hinner houter)
  have hgap : LastGap (" /* /*\n*/ */ ".toList ++ '/' :: '/' :: " z".toList) :=
    .line (.blank (by decide) (.block hcomment (.blank (by decide) .nil))) (by decide)
  have hend : Spelled "x := \"a\\q\"".toList _ _ := .finish hgap
  have hblank : ∀ cs, Separated (' ' :: cs) := separated_cons (by decide)
  have hspace : Gap [' '] := .blank (by decide) .nil
  have hquotes : Quotes "a\\q".toList "a\\q".toList :=
    .raw (by decide) (by decide) (.unknown (by decide) .nil)
  have hword : Spells (.name (String.ofList ['x'])) ['x'] :=
    .name (by decide) (by simp) fun k => by cases k <;> decide
  have htext : Spelled "x :=".toList _ _ := .piece hspace (.text hquotes) (hblank _) hend
  have hassign : Spelled "x".toList _ _ := .piece hspace (.symbol .assign) (hblank _) htext
  have hspelled : Spelled [] _ spelledSample.toList := .piece .nil hword (hblank _) hassign
  exact ⟨_, hspelled, tokens_of_spelled hspelled, rfl⟩

end Ember.Source
