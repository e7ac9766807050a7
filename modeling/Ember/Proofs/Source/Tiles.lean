import Ember.Proofs.Source.Spelling

/-!
# Tokens tile a text

**Theorem (`tiled_of_tokens`).** A text that is accepted consists of a gap, a piece, a gap, …, a
piece and a gap, with one piece for each token but the last, which is the end. A piece spells the
lexeme of its token and is the longest text of its class at its place; a gap is the longest one at
its place. The places of the tokens are those of the first characters of the pieces, and each lies
behind the one before.

`tokens_of_spelled` starts from pieces with blanks between them; here the pieces may touch. What the
lexer splits off is a gap or spells the lexeme (`gap_sound`, `lexeme_sound`). That nothing longer
would do is no second analysis of the lexer: whatever longer gap or piece the text began with, the
lexer would split it off whole, by the lemmas of spelled texts.
-/

namespace Ember.Source

/-! ## Places -/

/-- One place lies before another in a text. -/
def Place.Before (p q : Place) : Prop :=
  p.line < q.line ∨ p.line = q.line ∧ p.column < q.column

theorem Place.Before.trans {p q r : Place} (h : p.Before q) (h' : q.Before r) : p.Before r := by
  unfold Before at *
  omega

theorem Place.before_after (p : Place) (c : Char) : p.Before (p.after c) := by
  unfold after
  split
  · exact .inl (Nat.lt_succ_self _)
  · exact .inr ⟨rfl, Nat.lt_succ_self _⟩

theorem Place.before_behind_append {cs ds : List Char} (h : ds ≠ []) :
    (behind cs).Before (behind (cs ++ ds)) := by
  induction ds generalizing cs with
  | nil => exact absurd rfl h
  | cons d ds ih =>
    have hd := before_after (behind cs) d
    rw [after_behind] at hd
    rw [← List.singleton_append, ← List.append_assoc]
    by_cases hds : ds = []
    · rwa [hds, List.append_nil]
    · exact hd.trans (ih hds)

/-! ## Tiles -/

/-- Digits, perhaps with a point between them. -/
def IsNumber (cs : List Char) : Prop :=
  Digits cs ∨ ∃ ds es, Digits ds ∧ Digits es ∧ cs = ds ++ '.' :: es

/-- Characters of names, the first of which may begin one. -/
def IsWord (cs : List Char) : Prop :=
  ∃ c rest, isNameStart c ∧ (∀ d ∈ rest, isNameChar d) ∧ cs = c :: rest

def IsQuoted (cs : List Char) : Prop :=
  ∃ value inner, Quotes value inner ∧ cs = '"' :: (inner ++ ['"'])

def IsSymbol (cs : List Char) : Prop := ∃ s : Symbol, cs = s.spelling.toList

/-- The lexical class of a lexeme. Keywords are words as names are. -/
def Lexeme.Class : Lexeme → List Char → Prop
  | .integer _ | .float _ => IsNumber
  | .text _ => IsQuoted
  | .name _ | .keyword _ => IsWord
  | .symbol _ => IsSymbol
  | .finish => fun _ => False

/-- The longest of the texts of a class with which another text begins. -/
structure Longest (P : List Char → Prop) (cs text : List Char) : Prop where
  mem : P cs
  begins : cs <+: text
  longest : ∀ ds, P ds → ds <+: text → ds.length ≤ cs.length

/-- Behind some characters, the gaps and pieces of a text with the tokens that they make up. -/
inductive Tiled : List Char → List Token → List Char → Prop
  | finish {front g : List Char} : LastGap g →
    Tiled front [⟨.finish, Place.behind (front ++ g)⟩] g
  | piece {front g piece rest : List Char} {l : Lexeme} {ts : List Token} :
    ¬ LastGap (g ++ (piece ++ rest)) → Longest Gap g (g ++ (piece ++ rest)) → piece ≠ [] →
    Spells l piece → Longest l.Class piece (piece ++ rest) → Tiled (front ++ g ++ piece) ts rest →
    Tiled front (⟨l, Place.behind (front ++ g)⟩ :: ts) (g ++ (piece ++ rest))

/-- Tokens lie behind what stands in front of them, one behind the other. -/
theorem Tiled.pairwise {front cs : List Char} {ts : List Token} (h : Tiled front ts cs) :
    (∀ t ∈ ts, t.place = Place.behind front ∨ (Place.behind front).Before t.place) ∧
      ts.Pairwise fun t u => t.place.Before u.place := by
  have hbehind : ∀ front g : List Char, Place.behind (front ++ g) = Place.behind front ∨
      (Place.behind front).Before (Place.behind (front ++ g)) := by
    intro front g
    by_cases hg : g = []
    · exact .inl (by rw [hg, List.append_nil])
    · exact .inr (Place.before_behind_append hg)
  induction h with
  | @finish front g =>
    refine ⟨fun t ht => ?_, List.pairwise_singleton _ _⟩
    rw [List.mem_singleton.1 ht]
    exact hbehind front g
  | @piece front g piece rest l ts _ _ hne _ _ _ ih =>
    obtain ⟨hts, hpairwise⟩ := ih
    have hlater : ∀ t ∈ ts, (Place.behind (front ++ g)).Before t.place := by
      intro t ht
      have hpiece : (Place.behind (front ++ g)).Before (Place.behind (front ++ g ++ piece)) :=
        Place.before_behind_append hne
      rcases hts t ht with h | h
      · rwa [h]
      · exact hpiece.trans h
    refine ⟨fun t ht => ?_, List.pairwise_cons.2 ⟨hlater, hpairwise⟩⟩
    rcases List.mem_cons.1 ht with rfl | ht
    · exact hbehind front g
    · rcases hbehind front g with h | h
      · exact .inr (h ▸ hlater t ht)
      · exact .inr (h.trans (hlater t ht))

/-! ## What is split off as a gap is one -/

section Gaps

variable {cs g g' r : List Char} {d : Nat}

theorem Gap.append (h : Gap g) (h' : Gap g') : Gap (g ++ g') := by
  induction h with
  | nil => exact h'
  | blank hc _ ih => exact .blank hc ih
  | line hn _ ih =>
    rw [List.cons_append, List.cons_append, List.append_assoc, List.cons_append]
    exact .line hn ih
  | block hc _ ih =>
    rw [List.cons_append, List.cons_append, List.append_assoc]
    exact .block hc ih

/-- A gap in front of a rest; it may end in an unfinished line if there is no rest. -/
structure GapBefore (r g : List Char) : Prop where
  last : LastGap g
  gap : r ≠ [] → Gap g

theorem GapBefore.append (h : Gap g) (h' : GapBefore r g') : GapBefore r (g ++ g') where
  last := by
    obtain ⟨hlast, -⟩ := h'
    cases hlast with
    | gap h' => exact .gap (h.append h')
    | line h' hn =>
      rw [← List.append_assoc]
      exact .line (h.append h') hn
  gap hr := h.append (h'.gap hr)

/-- The rests of so many block comments, one behind the other. -/
def CommentRests : Nat → List Char → Prop
  | 0, cs => cs = []
  | d + 1, cs => ∃ inner more, CommentRest inner ∧ CommentRests d more ∧ cs = inner ++ more

/-- What is split off, by where in a gap it begins. -/
def GapMode.Rest (r : List Char) : GapMode → List Char → Prop
  | .code, g => GapBefore r g
  | .line, g => (∃ text g', '\n' ∉ text ∧ GapBefore r g' ∧ g = text ++ '\n' :: g') ∨
    r = [] ∧ '\n' ∉ g
  | .block d, g => ∃ inner g', CommentRests (d + 1) inner ∧ GapBefore r g' ∧ g = inner ++ g'

theorem rest_of_map_before {mode mode' : GapMode} {p : List Char}
    {o : Option (List Char × List Char)} (h : o.map (before p) = some (g, r))
    (ih : ∀ {g r}, o = some (g, r) → mode.Rest r g)
    (hp : ∀ {g}, mode.Rest r g → mode'.Rest r (p ++ g)) : mode'.Rest r g := by
  obtain ⟨⟨g', r'⟩, ho, he⟩ := Option.map_eq_some_iff.1 h
  cases he
  exact hp (ih ho)

/-- **What is split off as a gap is one**, and what is split off inside of comments ends them. -/
theorem gap_sound {mode : GapMode} (h : gap mode cs = some (g, r)) : mode.Rest r g := by
  fun_induction gap mode cs generalizing g r with
  | case1 cs ih =>
    refine rest_of_map_before h ih fun {g} hg => ?_
    rcases hg with ⟨text, g', hn, hg', rfl⟩ | ⟨rfl, hn⟩
    · have hline := hg'.append (.line hn .nil)
      rwa [List.cons_append, List.cons_append, List.append_assoc] at hline
    · exact ⟨.line .nil hn, fun hr => absurd rfl hr⟩
  | case2 cs ih =>
    refine rest_of_map_before h ih ?_
    rintro _ ⟨_, g', ⟨inner, _, hinner, rfl, rfl⟩, hg', rfl⟩
    have hblock := hg'.append (.block hinner .nil)
    rwa [List.cons_append, List.cons_append] at hblock
  | case3 c cs _ _ hc ih =>
    exact rest_of_map_before h ih fun hg => hg.append (.blank hc .nil)
  | case4 | case5 =>
    cases h
    exact ⟨.gap .nil, fun _ => .nil⟩
  | case6 cs ih =>
    exact rest_of_map_before h ih fun hg => .inl ⟨[], _, List.not_mem_nil, hg, rfl⟩
  | case7 c cs hc ih =>
    have hn : ∀ {text : List Char}, '\n' ∉ text → '\n' ∉ c :: text := fun ht hmem =>
      (List.mem_cons.1 hmem).elim (fun he => hc he.symm) ht
    refine rest_of_map_before h ih fun {g} hg => ?_
    rcases hg with ⟨text, g', ht, hg', rfl⟩ | ⟨rfl, ht⟩
    · exact .inl ⟨c :: text, g', hn ht, hg', rfl⟩
    · exact .inr ⟨rfl, hn ht⟩
  | case8 =>
    cases h
    exact .inr ⟨rfl, List.not_mem_nil⟩
  | case9 cs ih =>
    exact rest_of_map_before h ih fun hg => ⟨_, _, ⟨_, [], .close, rfl, rfl⟩, hg, rfl⟩
  | case10 d cs ih =>
    refine rest_of_map_before h ih ?_
    rintro _ ⟨more, g', hmore, hg', rfl⟩
    exact ⟨_, g', ⟨_, more, .close, hmore, rfl⟩, hg', rfl⟩
  | case11 d cs ih =>
    refine rest_of_map_before h ih ?_
    rintro _ ⟨_, g', ⟨inner, _, hinner, ⟨outer, more, houter, hmore, rfl⟩, rfl⟩, hg', rfl⟩
    refine ⟨_, g', ⟨_, more, .nested hinner houter, hmore, rfl⟩, hg', ?_⟩
    simp only [List.cons_append, List.nil_append, List.append_assoc]
  | case12 d c cs hzero hsucc hopens ih =>
    obtain ⟨⟨g, r⟩, hg, he⟩ := Option.map_eq_some_iff.1 h
    cases he
    obtain ⟨_, g', ⟨inner, more, hinner, hmore, rfl⟩, hg', rfl⟩ := ih hg
    -- The comment has the characters of the text in front of which it is split off.
    have hbegins : c :: inner <+: c :: cs := by
      refine (List.cons_prefix_cons).2 ⟨rfl, more ++ (g' ++ r), ?_⟩
      rw [← append_of_gap hg]
      simp only [List.append_assoc]
    have hclose : ¬ ['*', '/'] <+: c :: inner := by
      intro hp
      obtain ⟨tail, ht⟩ := hp.trans hbegins
      obtain ⟨rfl, rfl⟩ := List.cons.inj ht
      cases d with
      | zero => exact hzero tail rfl rfl rfl
      | succ d => exact hsucc d tail rfl rfl rfl
    have hopen : ¬ ['/', '*'] <+: c :: inner := by
      intro hp
      obtain ⟨tail, ht⟩ := hp.trans hbegins
      obtain ⟨rfl, rfl⟩ := List.cons.inj ht
      exact hopens tail rfl rfl
    exact ⟨_, g', ⟨_, more, .char hclose hopen hinner, hmore, rfl⟩, hg', rfl⟩
  | case13 => cases h

/-- Whatever gap a text begins with is part of the one that is split off. -/
theorem length_le_of_gap (h : gap .code cs = some (g, r)) (h' : Gap g') (hp : g' <+: cs) :
    g'.length ≤ g.length := by
  obtain ⟨rest, rfl⟩ := hp
  rw [gap_append h'] at h
  obtain ⟨⟨g'', r'⟩, -, he⟩ := Option.map_eq_some_iff.1 h
  cases he
  simp

end Gaps

/-! ## What is split off as a piece spells the lexeme -/

section Pieces

variable {c : Char} {cs piece rest value : List Char} {l : Lexeme}

/-! ### Quoted texts -/

theorem Quotes.unescape (c : Char) (h : Quotes value cs) :
    Quotes (unescape c ++ value) ('\\' :: c :: cs) := by
  by_cases hc : c ∈ escapes.map Prod.fst
  · obtain ⟨⟨c, d⟩, hd, rfl⟩ := List.mem_map.1 hc
    rw [unescape_of_mem hd]
    exact .escape hd h
  · rw [unescape_of_not_mem hc]
    exact .unknown hc h

theorem quoted_sound (h : quoted cs = some (value, piece, rest)) :
    ∃ inner, piece = inner ++ ['"'] ∧ Quotes value inner := by
  fun_induction quoted cs generalizing value piece rest with
  | case1 | case4 => cases h
  | case2 =>
    cases h
    exact ⟨[], rfl, .nil⟩
  | case3 c cs ih =>
    obtain ⟨⟨v, p, r⟩, hr, he⟩ := Option.map_eq_some_iff.1 h
    cases he
    obtain ⟨inner, rfl, hinner⟩ := ih hr
    exact ⟨'\\' :: c :: inner, rfl, hinner.unescape c⟩
  | case5 c cs hquote hslash hlast ih =>
    obtain ⟨⟨v, p, r⟩, hr, he⟩ := Option.map_eq_some_iff.1 h
    cases he
    obtain ⟨inner, rfl, hinner⟩ := ih hr
    refine ⟨c :: inner, rfl, .raw hquote (fun hc => ?_) hinner⟩
    -- A backslash at the end of the text would not be read as a character.
    cases cs with
    | nil => exact hlast hc rfl
    | cons d ds => exact hslash d ds hc rfl

theorem longest_quoted (h : quoted cs = some (value, piece, rest)) :
    Longest IsQuoted ('"' :: piece) ('"' :: cs) where
  mem := by
    obtain ⟨inner, rfl, hinner⟩ := quoted_sound h
    exact ⟨value, inner, hinner, rfl⟩
  begins := List.cons_prefix_cons.2 ⟨rfl, rest, append_of_quoted h⟩
  longest := by
    rintro _ ⟨value', inner, hinner, rfl⟩ hp
    obtain ⟨tail, rfl⟩ := (List.cons_prefix_cons.1 hp).2
    rw [List.append_assoc, List.singleton_append, quoted_append hinner] at h
    cases h
    exact Nat.le_refl _

/-! ### Numbers -/

theorem number_chars (cs : List Char) : ∀ c ∈ (number cs).1, c.isDigit ∨ c = '.' := by
  fun_induction number cs with
  | case1 | case3 => exact List.forall_mem_nil _
  | case2 c cs hc ih =>
    refine List.forall_mem_cons.2 ⟨?_, ih⟩
    simp only [Bool.or_eq_true, Bool.and_eq_true, decide_eq_true_eq] at hc
    exact hc.imp id And.left

theorem spanDigits_sound {ds es : List Char} (h : Decimal.spanDigits cs = (ds, es)) :
    cs = ds ++ es ∧ ∀ c ∈ ds, c.isDigit := by
  cases h
  exact ⟨List.takeWhile_append_dropWhile.symm, List.all_eq_true.1 List.all_takeWhile⟩

theorem readPlain_sound {x : Float} (h : Decimal.readPlain cs = some x) :
    ∃ ds es, Digits ds ∧ Digits es ∧ cs = ds ++ '.' :: es ∧
      x = Decimal.ofDecimal false (Decimal.natOfDigits (ds ++ es)) (-es.length) := by
  rcases hwhole : Decimal.spanDigits cs with ⟨ds, rest⟩
  obtain ⟨rfl, hds⟩ := spanDigits_sound hwhole
  rw [Decimal.readPlain, hwhole] at h
  dsimp only at h
  split at h
  · next tail =>
    rcases hfraction : Decimal.spanDigits tail with ⟨es, more⟩
    obtain ⟨rfl, hes⟩ := spanDigits_sound hfraction
    rw [hfraction] at h
    dsimp only at h
    split at h
    · cases h
    · next hne =>
      cases h
      simp only [Bool.or_eq_true, Bool.not_eq_true', List.isEmpty_iff, List.isEmpty_eq_false_iff,
        not_or, not_not] at hne
      obtain ⟨⟨hd, he⟩, rfl⟩ := hne
      exact ⟨ds, es, ⟨hd, hds⟩, ⟨he, hes⟩, by rw [List.append_nil], rfl⟩
  · cases h

theorem numberLexeme_sound (hn : cs ≠ []) (hcs : ∀ c ∈ cs, c.isDigit ∨ c = '.')
    (h : numberLexeme cs = .ok l) : Spells l cs ∧ IsNumber cs ∧ l.Class = IsNumber := by
  unfold numberLexeme at h
  split at h
  · split at h
    · next hx =>
      cases h
      obtain ⟨ds, es, hds, hes, rfl, rfl⟩ := readPlain_sound hx
      exact ⟨.float hds hes, .inr ⟨ds, es, hds, hes, rfl⟩, rfl⟩
    · cases h
  · next hdot =>
    have hdigits : Digits cs := ⟨hn, fun c hc => (hcs c hc).resolve_right fun he => hdot (he ▸ hc)⟩
    dsimp only at h
    split at h
    · next hsmall =>
      cases h
      exact ⟨.integer hdigits hsmall, .inl hdigits, rfl⟩
    · cases h

/-- The texts of numbers with which a text begins are parts of the one that is split off. -/
theorem length_le_of_number {ds : List Char} (h : IsNumber ds) (hp : ds <+: cs) :
    ds.length ≤ (number cs).1.length := by
  obtain ⟨tail, rfl⟩ := hp
  have hnumber : number (ds ++ tail) = before ds (number tail) := by
    rcases h with h | ⟨ds, es, hds, hes, rfl⟩
    · exact number_digits h.2 tail
    · exact number_decimal hds hes tail
  rw [hnumber]
  simp [before]

/-! ### Words -/

theorem wordLexeme_sound (hc : isNameStart c) (hcs : ∀ d ∈ cs, isNameChar d) :
    Spells (wordLexeme (c :: cs)) (c :: cs) ∧ (wordLexeme (c :: cs)).Class = IsWord := by
  unfold wordLexeme
  dsimp only
  split
  · next k hk =>
    unfold Keyword.ofSpelling? at hk
    have hspelling : k.spelling = String.ofList (c :: cs) := by
      have := List.find?_some hk
      exact of_decide_eq_true this
    rw [← String.toList_ofList (l := c :: cs), ← hspelling]
    exact ⟨.keyword k, rfl⟩
  · next hk =>
    refine ⟨.name hc hcs fun k he => ?_, rfl⟩
    rw [← he, String.ofList_toList, ofSpelling?_spelling] at hk
    cases hk

/-! ### Symbols -/

theorem single?_spelling {s : Symbol} (h : Symbol.single? c = some s) :
    s.spelling.toList = [c] := by
  unfold Symbol.single? at h
  split at h <;> cases h <;> rfl

theorem pair?_eq_some_iff {d : Char} {s : Symbol} :
    Symbol.pair? c d = some s ↔ s.spelling.toList = [c, d] := by
  constructor
  · intro h
    unfold Symbol.pair? at h
    split at h <;> cases h <;> rfl
  · intro h
    cases s <;> cases h <;> rfl

theorem length_spelling_le (s : Symbol) : s.spelling.toList.length ≤ 2 := by
  cases s <;> decide

theorem symbol_sound {s : Symbol} (h : symbol c cs = .ok (s, piece, rest)) :
    piece = s.spelling.toList ∧ ∀ s' : Symbol, s'.spelling.toList <+: c :: cs →
      s'.spelling.toList.length ≤ piece.length := by
  unfold symbol at h
  split at h
  · next hpair =>
    cases h
    obtain ⟨d, hd, hpair⟩ := Option.bind_eq_some_iff.1 hpair
    obtain ⟨ds, rfl⟩ : ∃ ds, cs = d :: ds := ⟨_, (List.cons_head?_tail hd).symm⟩
    exact ⟨(pair?_eq_some_iff.1 hpair).symm, fun s' _ => length_spelling_le s'⟩
  · next hnone =>
    split at h
    · next hsingle =>
      cases h
      refine ⟨(single?_spelling hsingle).symm, fun s' hp => ?_⟩
      -- A longer symbol would have been seen.
      obtain ⟨tail, ht⟩ := hp
      rcases hs : s'.spelling.toList with _ | ⟨a, _ | ⟨b, _ | ⟨_, _⟩⟩⟩
      · simp
      · simp
      · rw [hs] at ht
        cases ht
        have hpair := pair?_eq_some_iff.2 hs
        exact absurd (hnone.symm.trans hpair) nofun
      · have := length_spelling_le s'
        simp [hs] at this
    · cases h

/-- **What is split off as a piece spells the lexeme**, and it is the longest of its class. -/
theorem lexeme_sound {p : Place} (h : lexeme p c cs = .ok (l, piece, rest)) :
    Spells l piece ∧ Longest l.Class piece (c :: cs) := by
  have hbegins : piece <+: c :: cs := ⟨rest, (append_of_lexeme h).1⟩
  unfold lexeme at h
  split at h
  · next hquote =>
    subst hquote
    split at h
    · next value piece rest hq =>
      cases h
      obtain ⟨inner, rfl, hinner⟩ := quoted_sound hq
      exact ⟨.text hinner, longest_quoted hq⟩
    · cases h
  · split at h
    · next hdigit =>
      dsimp only at h
      split at h
      · next hl =>
        cases h
        obtain ⟨hspells, hnumber, hclass⟩ := numberLexeme_sound (number_ne_nil cs hdigit)
          (number_chars (c :: cs)) hl
        rw [hclass]
        exact ⟨hspells, hnumber, hbegins, fun _ => length_le_of_number⟩
      · cases h
    · split at h
      · next hname =>
        cases h
        have hchars := List.all_eq_true.1 (List.all_takeWhile (l := cs) (p := isNameChar))
        obtain ⟨hspells, hclass⟩ := wordLexeme_sound hname hchars
        rw [hclass]
        refine ⟨hspells, ⟨c, _, hname, hchars, rfl⟩, hbegins, ?_⟩
        rintro _ ⟨d, more, -, hmore, rfl⟩ hp
        obtain ⟨tail, rfl⟩ := (List.cons_prefix_cons.1 hp).2
        rw [List.takeWhile_append_of_pos hmore]
        simp
      · split at h
        · next hs =>
          cases h
          obtain ⟨rfl, hlongest⟩ := symbol_sound hs
          refine ⟨.symbol _, ⟨_, rfl⟩, hbegins, ?_⟩
          rintro _ ⟨s', rfl⟩ hp
          exact hlongest s' hp
        · cases h

end Pieces

/-! ## Texts -/

theorem longest_gap {cs g r : List Char} (h : gap .code cs = some (g, r)) (hr : r ≠ []) :
    Longest Gap g cs where
  mem := (gap_sound h).gap hr
  begins := ⟨r, append_of_gap h⟩
  longest _ := length_le_of_gap h

theorem tiled_of_tokensFrom {front cs : List Char} {ts : List Token}
    (h : tokensFrom (Place.behind front) cs = .ok ts) : Tiled front ts cs := by
  generalize hp : Place.behind front = p at h
  fun_induction tokensFrom p cs generalizing front ts with
  | case1 | case3 => cases h
  | case2 p cs g hg =>
    cases h
    have hcs := append_of_gap hg
    rw [List.append_nil] at hcs
    subst hp hcs
    rw [Place.afterAll_behind]
    exact .finish (gap_sound hg).last
  | @case4 p cs g c rest hg start l piece tail hl ih =>
    have hstart : start = Place.behind (front ++ g) := by
      rw [← Place.afterAll_behind, hp]
    have hbehind : start.afterAll piece = Place.behind (front ++ g ++ piece) := by
      rw [hstart, Place.afterAll_behind]
    rw [hbehind] at h
    cases hus : tokensFrom (Place.behind (front ++ g ++ piece)) tail with
    | error e =>
      rw [hus] at h
      cases h
    | ok us =>
      rw [hus] at h
      cases h
      obtain ⟨hpiece, hne⟩ := append_of_lexeme hl
      obtain ⟨hspells, hlongest⟩ := lexeme_sound hl
      have hcs : cs = g ++ (piece ++ tail) := by rw [hpiece, append_of_gap hg]
      have hgap := longest_gap hg (List.cons_ne_nil c rest)
      have hlast : ¬ LastGap cs := fun hl => by
        rw [gap_last hl] at hg
        cases hg
      rw [← hpiece] at hlongest
      rw [hcs] at hgap hlast ⊢
      rw [hstart]
      exact .piece hlast hgap hne hspells hlongest (ih hbehind.symm (hbehind ▸ hus))

/-- **Tokens tile the text.** -/
theorem tiled_of_tokens {source : String} {ts : List Token} (h : tokens source = .ok ts) :
    Tiled [] ts source.toList ∧ ts.Pairwise fun t u => t.place.Before u.place := by
  have htiled : Tiled [] ts source.toList := tiled_of_tokensFrom h
  exact ⟨htiled, htiled.pairwise.2⟩

/-- Pieces that touch, a point behind a number, and a comment that touches symbols. -/
def touchingSample : String := "x:=1.f/*\n*/==\"a\"//z"

def touchingTokens : List Token :=
  [⟨.name "x", ⟨1, 1⟩⟩, ⟨.symbol .assign, ⟨1, 2⟩⟩, ⟨.integer 1, ⟨1, 4⟩⟩, ⟨.symbol .dot, ⟨1, 5⟩⟩,
    ⟨.name "f", ⟨1, 6⟩⟩, ⟨.symbol .equal, ⟨2, 3⟩⟩, ⟨.text "a", ⟨2, 5⟩⟩, ⟨.finish, ⟨2, 11⟩⟩]

theorem tiled_touchingSample : tokens touchingSample = .ok touchingTokens ∧
    Tiled [] touchingTokens touchingSample.toList ∧
    touchingTokens.Pairwise fun t u => t.place.Before u.place := by
  have htokens : tokens touchingSample = .ok touchingTokens := by
    have hchars : touchingSample.toList = ['x', ':', '=', '1', '.', 'f', '/', '*', '\n', '*', '/',
        '=', '=', '"', 'a', '"', '/', '/', 'z'] := rfl
    unfold tokens
    rw [hchars, tokensFrom_piece rfl rfl, tokensFrom_piece rfl rfl, tokensFrom_piece rfl rfl,
      tokensFrom_piece rfl rfl, tokensFrom_piece rfl rfl, tokensFrom_piece rfl rfl,
      tokensFrom_piece rfl rfl, tokensFrom_finish rfl]
    rfl
  exact ⟨htokens, tiled_of_tokens htokens⟩

end Ember.Source
