import Mathlib
import Ember.Output.Stream

/-!
# Formatted writes

**Theorem (`offered_once`).** A formatted write offers the first 1024 bytes of its text to the host,
in one write, and reports the length of the whole text if the host takes what it is offered. If a
part of the text fails to render, then the host is not asked at all. How a text is divided into
parts makes no difference.

A page is filled part by part. After each part it shows the text up to there (`Page.Shows`), wherever
the end of the page falls: between two parts, within a part, or within a character.
-/

namespace Ember.Output

namespace Page

/-- A page keeps the first bytes of a text, and has counted all of them. -/
structure Shows (p : Page) (bytes : ByteArray) : Prop where
  kept : p.kept = bytes.extract 0 (min pageSize bytes.size)
  rendered : p.rendered = bytes.size

theorem shows_empty : empty.Shows ByteArray.empty := ⟨rfl, rfl⟩

/-- Where less is there than is asked for, all of it is taken. -/
theorem extract_congr {bytes : ByteArray} {m n : Nat} (h : min m bytes.size = min n bytes.size) :
    bytes.extract 0 m = bytes.extract 0 n := by
  ext1
  rw [ByteArray.data_extract, ByteArray.data_extract, Array.extract_eq_extract_right]
  simpa using h

/-- **A part fills the page as far as there is room.** -/
theorem Shows.add {p : Page} {bytes : ByteArray} (h : p.Shows bytes) (part : ByteArray) :
    (p.add part).Shows (bytes ++ part) where
  kept := by
    have hsize : p.kept.size = min pageSize bytes.size := by
      rw [h.kept, ByteArray.size_extract]
      omega
    -- What is kept of both is what was kept before, and of the part what fits behind it.
    have hbefore : bytes.extract 0 (min pageSize bytes.size) =
        bytes.extract 0 (min pageSize (bytes.size + part.size)) := extract_congr (by omega)
    have hroom : min (pageSize - p.kept.size) part.size =
        min pageSize (bytes.size + part.size) - bytes.size := by omega
    show p.kept ++ part.extract 0 (min (pageSize - p.kept.size) part.size) = _
    rw [ByteArray.size_append, ByteArray.extract_append, Nat.zero_sub, hroom, ← hbefore, h.kept]
  rendered := by
    show p.rendered + part.size = _
    rw [h.rendered, ByteArray.size_append]

theorem Shows.addAll {p : Page} {bytes : ByteArray} (h : p.Shows bytes) (texts : List String) :
    ∃ q, p.addAll (texts.map some) = some q ∧ q.Shows (bytes ++ (String.join texts).toUTF8) := by
  induction texts generalizing p bytes with
  | nil => exact ⟨p, rfl, by simpa using h⟩
  | cons t texts ih =>
    obtain ⟨q, hq, hshows⟩ := ih (h.add t.toUTF8)
    refine ⟨q, hq, ?_⟩
    simpa [ByteArray.append_assoc] using hshows

/-- One part that fails is enough. -/
theorem addAll_of_mem {parts : List (Option String)} (h : none ∈ parts) (p : Page) :
    p.addAll parts = none := by
  induction parts generalizing p with
  | nil => cases h
  | cons part parts ih =>
    cases part with
    | none => rfl
    | some t => exact ih (List.mem_of_ne_of_mem (Option.some_ne_none t).symm h) _

end Page

variable {H : Type} [Host H] (h : H) (s : Stream)

/-- A text that is cut to a page. -/
theorem tryWriteParts_map_some (texts : List String) :
    tryWriteParts h s (texts.map some) =
      let bytes := (String.join texts).toUTF8
      let offered := min pageSize bytes.size
      let (written, after) := Host.write h (bytes.extract 0 offered) 1 offered s
      (if offered ≤ written then .ok bytes.size else .error (.shortWrite offered written),
        after) := by
  obtain ⟨page, hpage, hshows⟩ := Page.shows_empty.addAll texts
  rw [ByteArray.empty_append] at hshows
  have hsize : page.kept.size = min pageSize (String.join texts).toUTF8.size := by
    rw [hshows.kept, ByteArray.size_extract]
    omega
  unfold tryWriteParts
  rw [hpage]
  dsimp only
  rw [hsize, hshows.kept, hshows.rendered]
  generalize Host.write h _ 1 _ s = outcome
  by_cases hlt : outcome.1 < min pageSize (String.join texts).toUTF8.size
  · rw [if_pos hlt, if_neg (Nat.not_le.2 hlt)]
  · rw [if_neg hlt, if_pos (Nat.not_lt.1 hlt)]

/-- **A formatted write offers its page to the host once.** -/
theorem offered_once (parts : List (Option String)) :
    (none ∈ parts → tryWriteParts h s parts = (.error .format, h)) ∧
    (∀ texts : List String, parts = texts.map some →
      let bytes := (String.join texts).toUTF8
      let offered := min 1024 bytes.size
      let (written, after) := Host.write h (bytes.extract 0 offered) 1 offered s
      tryWriteParts h s parts =
        (if offered ≤ written then .ok bytes.size else .error (.shortWrite offered written),
          after)) ∧
    (∀ texts texts' : List String, String.join texts = String.join texts' →
      tryWriteParts h s (texts.map some) = tryWriteParts h s (texts'.map some)) ∧
    writeParts h s parts =
      (match (tryWriteParts h s parts).1 with
        | .ok n => min (n : Int) (2 ^ 31 - 1)
        | .error _ => -1,
        (tryWriteParts h s parts).2) := by
  refine ⟨fun hnone => ?_, ?_, fun texts texts' hjoin => ?_, ?_⟩
  · unfold tryWriteParts
    rw [Page.addAll_of_mem hnone]
  · rintro texts rfl
    exact tryWriteParts_map_some h s texts
  · rw [tryWriteParts_map_some, tryWriteParts_map_some, hjoin]
  · unfold writeParts
    rcases tryWriteParts h s parts with ⟨e | n, after⟩ <;> rfl

end Ember.Output
