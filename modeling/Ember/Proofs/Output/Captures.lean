import Mathlib
import Ember.Output.Capture
import Ember.Proofs.Machine.Sessions
import Ember.Proofs.Machine.Translation

/-!
# A limited host captures a prefix

**Theorem (`captures_prefix`).** Let two new interpreters be the same but for their hosts, one of
which keeps everything and the other one only `limit` bytes in all. At every moment of the same
requests, what the limited host has captured are the first `limit` bytes of what the other one has,
over all streams in the order of time. So of each stream it has a first part, and after a write that
it has shortened it captures nothing more.

**One run for both.** A tape keeps what it is offered, whatever that is. Replaying a tape to a host
(`Tape.replay`) gives the host all that the tape was offered, and since no code learns how much a
host takes, this is a translation. So both interpreters are translations of one that writes to a
tape, and it remains to compare two replays of the same tape (`Capture.Cut.replay`).
-/

namespace Ember

/-! ## What a host has captured -/

namespace Capture

/-- All bytes that are stored, in the order of time, each with its stream. -/
def sequence (c : Capture) : List (Stream × UInt8) :=
  c.writes.reverse.flatMap fun w => w.2.data.toList.map fun b => (w.1, b)

theorem sequence_cons (s : Stream) (bytes : ByteArray) (writes : List (Stream × ByteArray))
    (room : Option Nat) : sequence ⟨(s, bytes) :: writes, room⟩ =
      sequence ⟨writes, room⟩ ++ bytes.data.toList.map fun b => (s, b) := by
  simp [sequence]

theorem toList_concat (parts : List ByteArray) :
    (concat parts).data.toList = parts.flatMap fun b => b.data.toList := by
  suffices h : ∀ start : ByteArray, (parts.foldl (· ++ ·) start).data.toList =
      start.data.toList ++ parts.flatMap fun b => b.data.toList from h ByteArray.empty
  induction parts with
  | nil => simp
  | cons b bs ih => simp [ih]

/-- The bytes of a stream are those of the sequence that are the stream's. -/
theorem toList_bytes (c : Capture) (s : Stream) : (c.bytes s).data.toList =
    (c.sequence.filter fun x => x.1 = s).map Prod.snd := by
  unfold bytes sequence
  rw [toList_concat]
  induction c.writes.reverse with
  | nil => rfl
  | cons w ws ih =>
    simp only [List.flatMap_cons, List.filter_append, List.map_append, ← ih]
    by_cases h : w.1 = s <;> simp [h, Function.comp_def, List.filter_map]

/-- The number of bytes that are taken of a write, with room for so many. -/
def fitting (room : Option Nat) (bytes : ByteArray) : Nat :=
  match room with
  | some left => min (requested bytes 1 bytes.size) left
  | none => requested bytes 1 bytes.size

theorem fitting_le (room : Option Nat) (bytes : ByteArray) : fitting room bytes ≤ bytes.size := by
  have h : requested bytes 1 bytes.size ≤ bytes.size := Nat.min_le_right _ _
  cases room with
  | none => exact h
  | some left => exact (Nat.min_le_left _ _).trans h

/-- Of a write of single bytes, all that is taken is stored. -/
theorem snd_rawWrite (c : Capture) (bytes : ByteArray) (s : Stream) :
    (c.rawWrite bytes 1 bytes.size s).2 = ⟨(s, bytes.extract 0 (fitting c.room bytes)) :: c.writes,
      c.room.map (· - fitting c.room bytes)⟩ := by
  unfold rawWrite fitting
  rw [if_neg Nat.one_ne_zero]
  cases c.room <;> simp [Nat.mod_one]

/-! ## Captures that are cut -/

/-- `c` is what a host with room for `limit` bytes has captured where a host without a limit has
captured `all`. -/
structure Cut (limit : Nat) (all c : Capture) : Prop where
  sequence : c.sequence = all.sequence.take limit
  /-- Each write to the one is a write to the other. -/
  streams : c.writes.map Prod.fst = all.writes.map Prod.fst
  /-- After a write that was shortened, nothing is captured. The latest write comes first. -/
  ended : (c.writes.zip all.writes).Pairwise fun later earlier =>
    earlier.1 ≠ earlier.2 → later.1.2.size = 0

namespace Cut

/-- The room that is left, which is none once a write was shortened. -/
structure Fed (limit : Nat) (all c : Capture) : Prop extends Cut limit all c where
  unlimited : all.room = none
  room : c.room = some (limit - all.sequence.length)
  shortened : ∀ w ∈ c.writes.zip all.writes, w.1 ≠ w.2 → limit ≤ all.sequence.length

/-- Of each stream, a first part is captured. It is a part of the bytes; the text that they stand
for can end in another character where the last one is cut. -/
theorem bytes_prefix {limit : Nat} {all c : Capture} (h : Cut limit all c) (s : Stream) :
    (c.bytes s).data.toList <+: (all.bytes s).data.toList := by
  rw [toList_bytes, toList_bytes, h.sequence]
  exact ((List.take_prefix limit all.sequence).filter _).map _

/-- **A write is cut to the room that is left.** -/
theorem Fed.write {limit : Nat} {all c : Capture} (h : Fed limit all c) (bytes : ByteArray)
    (s : Stream) : Fed limit (all.rawWrite bytes 1 bytes.size s).2
      (c.rawWrite bytes 1 bytes.size s).2 := by
  rw [snd_rawWrite, snd_rawWrite, h.unlimited, h.room]
  have hfit := fitting_le none bytes
  unfold fitting at hfit ⊢
  dsimp only [Option.map_some, Option.map_none] at hfit ⊢
  generalize requested bytes 1 bytes.size = n at hfit ⊢
  have htaken : ∀ k, (bytes.extract 0 k).data.toList = bytes.data.toList.take k := by
    intro k
    simp
  have hall : Capture.sequence ⟨(s, bytes.extract 0 n) :: all.writes, none⟩ =
      all.sequence ++ (bytes.data.toList.take n).map fun b => (s, b) := by
    rw [sequence_cons, htaken]
    rfl
  have hlength : ((bytes.data.toList.take n).map fun b => (s, b)).length = n := by
    simpa using hfit
  have hmore : all.sequence.length ≤
      (Capture.sequence ⟨(s, bytes.extract 0 n) :: all.writes, none⟩).length := by
    rw [hall, List.length_append]
    exact Nat.le_add_right _ _
  refine ⟨⟨?_, ?_, ?_⟩, rfl, ?_, ?_⟩
  · rw [hall, sequence_cons, htaken, List.take_append, ← h.sequence, ← List.map_take,
      List.take_take, Nat.min_comm n]
    rfl
  · exact congrArg (s :: ·) h.streams
  · refine List.pairwise_cons.2 ⟨fun w hw hne => ?_, h.ended⟩
    have hfull := h.shortened w hw hne
    rw [Nat.sub_eq_zero_of_le hfull]
    simp
  · rw [hall, List.length_append, hlength]
    refine congrArg some ?_
    omega
  · intro w hw hne
    rcases List.mem_cons.1 hw with rfl | hw
    · rw [hall, List.length_append, hlength]
      by_contra hlt
      have hroom : min n (limit - all.sequence.length) = n := by omega
      rw [hroom] at hne
      exact hne rfl
    · exact (h.shortened w hw hne).trans hmore

end Cut

end Capture

/-! ## Tapes -/

/-- A host that keeps what it is offered. -/
structure Tape where
  /-- The latest first. -/
  offers : List (Stream × ByteArray)

instance : Host Tape where
  write t bytes _ count s := (count, ⟨(s, bytes) :: t.offers⟩)
  flush t _ := (0, t)
  stdout _ := .stdout
  stderr _ := .stderr

namespace Tape

/-- Offers all that is on a tape to a host. -/
def replay (c : Capture) (t : Tape) : Capture :=
  t.offers.foldr (fun w c => (c.rawWrite w.2 1 w.2.size w.1).2) c

/-- The interpreter that writes to a host instead of a tape. -/
def replaying (c : Capture) : Translation Tape Capture := ⟨replay c, id⟩

theorem follows_replay (c : Capture) : Host.Follows (replay c) :=
  ⟨fun _ _ _ => rfl, fun _ _ => rfl, fun _ => rfl, fun _ => rfl⟩

theorem faithful_replaying (c : Capture) : (replaying c).Faithful :=
  Translation.faithful_of_follows (follows_replay c) (fun _ => rfl)
    (fun c => Nat.le_refl c.maxLoadDepth) fun c => Nat.le_refl c.maxCallDepth

theorem keepsLimits_replaying (c : Capture) : (replaying c).KeepsLimits := fun _ => ⟨rfl, rfl⟩

/-- **A tape that is replayed to both hosts.** -/
theorem fed_replay (limit : Nat) (t : Tape) :
    Capture.Cut.Fed limit (t.replay .unlimited) (t.replay (.limited limit)) := by
  obtain ⟨offers⟩ := t
  induction offers with
  | nil => exact ⟨⟨(List.take_nil).symm, rfl, .nil⟩, rfl, rfl, nofun⟩
  | cons w ws ih => exact ih.write w.2 w.1

end Tape

/-! ## What a host asks for -/

variable {H H₁ H₂ : Type}

/-- A request that a host can make of an interpreter. -/
inductive Request where
  /-- A load, whose outcome the host gets. -/
  | tryLoad (source name : String)
  /-- A load with a truth value for the outcome. -/
  | load (source name : String)
  /-- A failure that is to be reported. -/
  | report (e : LoadError)

section Requests

variable [Host H]

/-- Where a run is after so many steps, or where it has ended before. -/
def Machine.after : Nat → Progress H → Progress H
  | _, .done s a => .done s a
  | 0, .running m => .running m
  | steps + 1, .running m => after steps m.step

namespace Interpreter

/-- Serves a request, if the steps suffice. -/
def serve (fuel : Nat) (s : Interpreter H) : Request → Option (Interpreter H)
  | .tryLoad source name => (s.tryLoad fuel source name).map Prod.fst
  | .load source name => (s.load fuel source name).map Prod.fst
  | .report e => some (s.report e)

/-- Serves one request after the other. -/
def serveAll (fuel : Nat) : Interpreter H → List Request → Option (Interpreter H)
  | s, [] => some s
  | s, r :: rs => (s.serve fuel r).bind fun s => s.serveAll fuel rs

/-- The state so many steps after the beginning of a load. -/
def during (steps : Nat) (s : Interpreter H) (source name : String) : Interpreter H :=
  (Machine.after steps (Machine.load s source name .host [])).state

end Interpreter

end Requests

/-! ## Requests of a translated interpreter -/

section Translated

variable [Host H₁] [Host H₂] {T : Translation H₁ H₂}

theorem Library.translate_register (hT : T.Faithful) (s : Interpreter H₁) (b : Bundled) :
    (register s b).translate T = register (s.translate T) b := by
  unfold register
  simp only [Interpreter.newModule, Interpreter.setFields_eq, Interpreter.register]
  exact hT.trace _ _

theorem Library.translate_registerAll (hT : T.Faithful) (s : Interpreter H₁)
    (table : List Bundled) :
    (registerAll s table).translate T = registerAll (s.translate T) table := by
  unfold registerAll
  induction table generalizing s with
  | nil => rfl
  | cons b bs ih => rw [List.foldl_cons, List.foldl_cons, ih, translate_register hT]

theorem Machine.translate_after (hT : T.Faithful) (hl : T.KeepsLimits) (steps : Nat)
    (p : Progress H₁) : (after steps p).translate T = after steps (p.translate T) := by
  induction steps generalizing p with
  | zero => cases p <;> rfl
  | succ n ih =>
    cases p with
    | done s a => rfl
    | running m =>
      rw [after, ih, translate_step hT m fun _ => hl]
      rfl

namespace Interpreter

theorem translate_new (hT : T.Faithful) (hb : ∀ c, (T.config c).bundleBuiltins = c.bundleBuiltins)
    (config : Config) (host : H₁) (resolver : Option Resolver) (surroundings : Surroundings) :
    (new config host resolver surroundings).translate T =
      new (T.config config) (T.host host) resolver surroundings := by
  unfold new
  rw [hb]
  split_ifs
  · exact Library.translate_registerAll hT _ _
  · rfl

theorem translate_during (hT : T.Faithful) (hl : T.KeepsLimits) (steps : Nat)
    (s : Interpreter H₁) (source name : String) : (s.during steps source name).translate T =
      (s.translate T).during steps source name := by
  unfold during
  rw [← Machine.translate_load hT s source name .host [] fun _ => hl,
    ← Machine.translate_after hT hl]
  cases Machine.after steps (Machine.load s source name .host []) <;> rfl

theorem translate_serve (hT : T.Faithful) (hf : Host.Follows T.host) (hl : T.KeepsLimits)
    (fuel : Nat) (s : Interpreter H₁) (r : Request) :
    (s.translate T).serve fuel r = (s.serve fuel r).map (translate T) := by
  cases r with
  | tryLoad source name =>
    unfold serve
    dsimp only
    rw [s.translate_tryLoad hT (.inr hl)]
    cases s.tryLoad fuel source name <;> rfl
  | load source name =>
    unfold serve load
    dsimp only
    rw [s.translate_tryLoad hT (.inr hl)]
    rcases s.tryLoad fuel source name with _ | ⟨t, e | m⟩ <;> rfl
  | report e => exact congrArg some (s.translate_report hf e).symm

theorem translate_serveAll (hT : T.Faithful) (hf : Host.Follows T.host) (hl : T.KeepsLimits)
    (fuel : Nat) (s : Interpreter H₁) (rs : List Request) :
    (s.translate T).serveAll fuel rs = (s.serveAll fuel rs).map (translate T) := by
  induction rs generalizing s with
  | nil => rfl
  | cons r rs ih =>
    rw [serveAll, serveAll, translate_serve hT hf hl]
    cases s.serve fuel r with
    | none => rfl
    | some t => exact ih t

end Interpreter

end Translated

/-! ## Two hosts -/

namespace Interpreter

/-- **A limited host captures a prefix**: after the same requests of two new interpreters, and at
every moment of a further load, the limited host has captured the first bytes of what the other one
has captured. The one serves the requests if and only if the other does. -/
theorem captures_prefix (config : Config) (resolver : Option Resolver)
    (surroundings : Surroundings) (limit fuel : Nat) (requests : List Request) :
    Option.Rel (fun s t : Interpreter Capture => Capture.Cut limit s.host t.host ∧
        (∀ stream, (t.host.bytes stream).data.toList <+: (s.host.bytes stream).data.toList) ∧
        ∀ steps source name, Capture.Cut limit (s.during steps source name).host
          (t.during steps source name).host)
      ((new config .unlimited resolver surroundings).serveAll fuel requests)
      ((new config (.limited limit) resolver surroundings).serveAll fuel requests) := by
  have hnew : ∀ c : Capture, new config c resolver surroundings =
      (new config (⟨[]⟩ : Tape) resolver surroundings).translate (Tape.replaying c) := fun c =>
    (translate_new (Tape.faithful_replaying c) (fun _ => rfl) config ⟨[]⟩ resolver
      surroundings).symm
  have hserve : ∀ c : Capture, (new config c resolver surroundings).serveAll fuel requests =
      ((new config (⟨[]⟩ : Tape) resolver surroundings).serveAll fuel requests).map
        (translate (Tape.replaying c)) := fun c => by
    rw [hnew]
    exact translate_serveAll (Tape.faithful_replaying c) (Tape.follows_replay c)
      (Tape.keepsLimits_replaying c) fuel _ requests
  rw [hserve, hserve]
  cases (new config (⟨[]⟩ : Tape) resolver surroundings).serveAll fuel requests with
  | none => exact .none
  | some s =>
    have hcut := Tape.fed_replay limit s.host
    refine .some ⟨hcut.toCut, hcut.bytes_prefix, fun steps source name => ?_⟩
    rw [← translate_during (Tape.faithful_replaying _) (Tape.keepsLimits_replaying _),
      ← translate_during (Tape.faithful_replaying _) (Tape.keepsLimits_replaying _)]
    exact (Tape.fed_replay limit (s.during steps source name).host).toCut

end Interpreter

end Ember
