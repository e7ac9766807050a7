import Ember.Proofs.Evaluation.Basic
import Ember.Proofs.Machine.Loads

/-!
# Evaluation is balanced

Evaluation lets go of what it holds: after success, the values held are those that were held before,
and after an error at least those (`expr_holds`, `block_balanced`). It knows the sources of all
functions on the heap, if it knew them before. Loads, which drop what an error has left over, are
balanced however they end (`orderly_calls`).
-/

namespace Ember.Evaluation

open Source (Expr Statement Program)

variable {H α β : Type}

/-- The chunk that the source of a function stands for. -/
def Body.code (b : Body) : Code.Chunk := Code.bodyCode b.line b.statements

/-- The sources are those of the functions on the heap. -/
def State.Known (s : State H) : Prop :=
  s.interpreter.heap.functions.map Function.code = s.bodies.map Body.code

/-- `t` comes from `s` and holds some more values. -/
structure State.Holds (s : State H) (vs : List Value) (t : State H) : Prop where
  known : t.Known
  stack : t.interpreter.stack = vs.reverse ++ s.interpreter.stack
  locals : t.locals = s.locals

/-- `t` comes from `s` and may have new values of variables. -/
structure State.Balanced (s t : State H) : Prop where
  known : t.Known
  stack : t.interpreter.stack = s.interpreter.stack
  locals : t.locals.isSome = s.locals.isSome

/-- `t` comes from `s` by an error. -/
structure State.Leaves (s t : State H) : Prop where
  known : t.Known
  stack : s.interpreter.stack <:+ t.interpreter.stack

namespace State

theorem Leaves.trans {s t u : State H} (h₁ : s.Leaves t) (h₂ : t.Leaves u) : s.Leaves u :=
  ⟨h₂.known, h₁.stack.trans h₂.stack⟩

theorem Known.holds {s : State H} (h : s.Known) : s.Holds [] s := ⟨h, rfl, rfl⟩

theorem Known.leaves {s : State H} (h : s.Known) : s.Leaves s := ⟨h, List.suffix_refl _⟩

variable {s t u : State H} {vs : List Value}

theorem Holds.trans (h₁ : s.Holds [] t) (h₂ : t.Holds vs u) : s.Holds vs u :=
  ⟨h₂.known, by rw [h₂.stack, h₁.stack]; rfl, h₂.locals.trans h₁.locals⟩

theorem Holds.hold (h : s.Holds vs t) (v : Value) : s.Holds (vs ++ [v]) (t.hold v) :=
  ⟨h.known, by simp [State.hold, Interpreter.push, h.stack], h.locals⟩

theorem Holds.cons {v : Value} (h₁ : s.Holds [] t) (h₂ : (t.hold v).Holds vs u) :
    s.Holds (v :: vs) u :=
  ⟨h₂.known, by rw [h₂.stack, (h₁.hold v).stack]; simp, h₂.locals.trans h₁.locals⟩

theorem Holds.release (h : s.Holds vs t) : s.Holds [] (t.release vs.length) :=
  ⟨h.known, by simp [State.release, h.stack], h.locals⟩

theorem Holds.leaves (h : s.Holds vs t) : s.Leaves t :=
  ⟨h.known, h.stack ▸ List.suffix_append _ _⟩

theorem Holds.alike (h : s.Holds vs t) {i : Interpreter H} (hi : t.interpreter.Alike i) :
    s.Holds vs { t with interpreter := i } :=
  ⟨by rw [Known, hi.heap]; exact h.known, by rw [← h.stack, ← hi.stack], h.locals⟩

theorem Holds.balanced (h : s.Holds [] t) : s.Balanced t :=
  ⟨h.known, h.stack, by rw [h.locals]⟩

theorem Balanced.trans (h₁ : s.Balanced t) (h₂ : t.Balanced u) : s.Balanced u :=
  ⟨h₂.known, h₂.stack.trans h₁.stack, h₂.locals.trans h₁.locals⟩

theorem Balanced.leaves (h : s.Balanced t) : s.Leaves t := ⟨h.known, h.stack ▸ List.suffix_refl _⟩

theorem Known.store (h : s.Known) (c : Place) (name : String) (v : Value) :
    s.Balanced (s.store c name v) := by
  unfold State.store
  cases hl : s.locals with
  | none => exact ⟨h, rfl, by rw [hl]⟩
  | some t => exact ⟨h, rfl, by rw [hl]; rfl⟩

theorem Known.define (h : s.Known) (c : Place) (name : String) (params : List String) (b : Body) :
    s.Balanced (s.define c name params b).2 := by
  refine ⟨?_, rfl, rfl⟩
  unfold Known at h ⊢
  simp [State.define, Interpreter.newFunction, Heap.newFunction, h, Body.code]

end State

/-! ## Results -/

namespace Result

/-- What holds after success, and what holds after an error. -/
def Post (r : Result H α) (ok : State H → α → Prop) (err : State H → Prop) : Prop :=
  match r with
  | none => True
  | some (s, .ok a) => ok s a
  | some (s, .error _) => err s

variable {r : Result H α} {ok : State H → α → Prop} {err : State H → Prop}

theorem Post.mono {ok' : State H → α → Prop} {err' : State H → Prop} (h : r.Post ok err)
    (hok : ∀ s a, ok s a → ok' s a) (herr : ∀ s, err s → err' s) : r.Post ok' err' := by
  rcases r with _ | ⟨s, e | a⟩
  · trivial
  · exact herr s h
  · exact hok s a h

theorem Post.andThen {f : State H → α → Result H β} {ok' : State H → β → Prop} (h : r.Post ok err)
    (hf : ∀ s a, ok s a → (f s a).Post ok' err) : (r.andThen f).Post ok' err := by
  rcases r with _ | ⟨s, e | a⟩
  · trivial
  · exact h
  · exact hf s a h

theorem Post.backTo {locals : Option Fields} {ok' : State H → α → Prop} {err' : State H → Prop}
    (h : r.Post ok err) (hok : ∀ s a, ok s a → ok' { s with locals := locals } a)
    (herr : ∀ s, err s → err' { s with locals := locals }) : (r.backTo locals).Post ok' err' := by
  rcases r with _ | ⟨s, e | a⟩
  · trivial
  · exact herr s h
  · exact hok s a h

end Result

/-- What comes of going on from `t`, said from where `t` comes from. -/
theorem State.Leaves.post {s t : State H} {r : Result H α} {ok ok' : State H → α → Prop}
    (h : s.Leaves t) (hr : r.Post ok t.Leaves) (hok : ∀ u a, ok u a → ok' u a) :
    r.Post ok' s.Leaves :=
  hr.mono hok fun _ => h.trans

theorem State.Leaves.andThen {s t : State H} {r : Result H α} {ok : State H → α → Prop}
    {f : State H → α → Result H β} {ok' : State H → β → Prop} (h : s.Leaves t)
    (hr : r.Post ok t.Leaves) (hf : ∀ u a, ok u a → (f u a).Post ok' s.Leaves) :
    (r.andThen f).Post ok' s.Leaves :=
  (h.post hr fun _ _ hu => hu).andThen hf

/-! ## Expressions -/

/-- Calls and loads that are balanced. -/
structure Calls.Orderly (k : Calls H) : Prop where
  body : ∀ c b s, s.Known → (k.body c b s).Post (fun t _ => s.Balanced t) s.Leaves
  load : ∀ kept source name origin s t r, s.Known → k.load kept source name origin s = some (t, r) →
    s.Holds [] t

section

variable {k : Calls H} (hk : k.Orderly) {s t : State H}

theorem result_holds {line : Nat} {r : Except RuntimeError Value} (h : s.Holds [] t) :
    (t.result line r).Post (fun u _ => s.Holds [] u) s.Leaves := by
  cases r with
  | error => exact h.leaves
  | ok => exact h

include hk

theorem callFunction_holds {c : Place} {line : Nat} {id : FunctionId} {f : Function} {b : Body}
    {args : List Value} (h : s.Known) :
    (callFunction k c line id f b args s).Post (fun t _ => s.Holds [] t) s.Leaves := by
  unfold callFunction
  split_ifs
  · exact h.leaves
  · exact h.leaves
  · have hb := hk.body ⟨c.file, f.home, c.depth + 1, s.kept c⟩ b
      { s with locals := some (Machine.parameters f.params args) } h
    exact hb.backTo (fun t _ hb => ⟨hb.known, hb.stack, rfl⟩) fun t hb => ⟨hb.known, hb.stack⟩
  · exact h.leaves

variable [Host H]

theorem callNative_holds {c : Place} {line : Nat} {f : Native} {args : List Value} (h : s.Known) :
    (callNative k c line f args s).Post (fun t _ => s.Holds [] t) s.Leaves := by
  unfold callNative
  have ha := Library.leaves_apply s.interpreter f args
  cases hf : Library.apply s.interpreter f args with
  | value i v => rw [hf] at ha; exact h.holds.alike ha
  | error i e =>
    rw [hf] at ha
    obtain rfl : i = s.interpreter := ha
    exact h.leaves
  | load i source name =>
    rw [hf] at ha
    obtain rfl : i = s.interpreter := ha
    show (callLoad k c source name s).Post _ _
    unfold callLoad
    cases hl : k.load (s.kept c) source name .call s with
    | none => trivial
    | some r =>
      obtain ⟨t, r⟩ := r
      have ht := hk.load _ _ _ _ _ _ _ h hl
      cases r with
      | ok => exact ht
      | error => exact ⟨ht.known, ht.stack, ht.locals⟩

theorem callValue_holds {c : Place} {line : Nat} {callee : Value} {args : List Value}
    (h : s.Known) :
    (callValue k c line callee args s).Post (fun t _ => s.Holds [] t) s.Leaves := by
  unfold callValue
  split
  · split
    · exact callFunction_holds hk h
    · exact h.leaves
  · exact callNative_holds hk h
  · exact h.leaves

omit [Host H]

theorem use_holds {c : Place} {line : Nat} {name : String} (h : s.Known) :
    (use k c line name s).Post (fun t _ => s.Holds [] t) s.Leaves := by
  unfold use
  split
  · split_ifs
    · exact h.leaves
    · exact h.holds
  · split
    · exact h.leaves
    · next source _ =>
      cases hl : k.load (s.kept c) source name .use s with
      | none => trivial
      | some r =>
        obtain ⟨t, r⟩ := r
        have ht := hk.load _ _ _ _ _ _ _ h hl
        cases r with
        | ok => exact ht
        | error => exact ht.leaves

end

mutual

/-- **Expressions are balanced.** -/
theorem expr_holds [Host H] {k : Calls H} (hk : k.Orderly) (c : Place) (line : Nat) :
    ∀ (e : Expr) {s : State H}, s.Known →
      (expr k c line e s).Post (fun t _ => s.Holds [] t) s.Leaves
  | .integer _, _, h | .float _, _, h | .text _, _, h | .bool _, _, h | .nil, _, h => h.holds
  | .variable name, s, h => by
    simp only [expr]
    split
    · exact h.holds
    · exact h.leaves
  | .binary (.operator op) l r, s, h => by
    simp only [expr]
    refine (expr_holds hk c line l h).andThen fun t x ht => ?_
    have hold := ht.hold x
    refine hold.leaves.andThen (expr_holds hk c line r hold.known) fun u y hu => ?_
    exact result_holds (ht.cons hu).release
  | .binary .and l r, s, h => by
    simp only [expr]
    refine (expr_holds hk c line l h).andThen fun t x ht => ?_
    split_ifs
    · refine ht.leaves.andThen (expr_holds hk c line r ht.known) fun u y hu => ht.trans hu
    · exact ht
  | .binary .or l r, s, h => by
    simp only [expr]
    refine (expr_holds hk c line l h).andThen fun t x ht => ?_
    split_ifs
    · exact ht
    · refine ht.leaves.andThen (expr_holds hk c line r ht.known) fun u y hu => ht.trans hu
  | .unary .neg e, s, h => by
    simp only [expr]
    exact (expr_holds hk c line e h).andThen fun t x ht => result_holds ht
  | .unary .not e, s, h => by
    simp only [expr]
    exact (expr_holds hk c line e h).andThen fun t x ht => ht
  | .call f args, s, h => by
    simp only [expr]
    refine (expr_holds hk c line f h).andThen fun t callee ht => ?_
    have hold := ht.hold callee
    refine hold.leaves.andThen (exprs_holds hk c line args hold.known) fun u values hv => ?_
    obtain ⟨hu, -⟩ := hv
    have hr : s.Holds [] (u.release (values.length + 1)) := (ht.cons hu).release
    exact hr.leaves.post (callValue_holds hk hr.known) fun _ _ => hr.trans
  | .attribute e name, s, h => by
    simp only [expr]
    exact (expr_holds hk c line e h).andThen fun t x ht => result_holds ht

theorem exprs_holds [Host H] {k : Calls H} (hk : k.Orderly) (c : Place) (line : Nat) :
    ∀ (es : List Expr) {s : State H}, s.Known →
      (exprs k c line es s).Post (fun t vs => s.Holds vs t ∧ vs.length = es.length) s.Leaves
  | [], _, h => ⟨h.holds, rfl⟩
  | e :: es, s, h => by
    simp only [exprs]
    refine (expr_holds hk c line e h).andThen fun t v ht => ?_
    have hold := ht.hold v
    refine hold.leaves.andThen (exprs_holds hk c line es hold.known) fun u vs hvs => ?_
    obtain ⟨hu, hlength⟩ := hvs
    exact ⟨ht.cons hu, congrArg (· + 1) hlength⟩

end

/-! ## Statements -/

theorem rounds_balanced {test : State H → Result H Value} {body : State H → Result H Flow}
    (htest : ∀ {s}, s.Known → (test s).Post (fun t _ => s.Holds [] t) s.Leaves)
    (hbody : ∀ {s}, s.Known → (body s).Post (fun t _ => s.Balanced t) s.Leaves) :
    ∀ (n : Nat) {s : State H}, s.Known →
      (rounds test body n s).Post (fun t _ => s.Balanced t) s.Leaves
  | 0, _, _ => trivial
  | n + 1, s, h => by
    simp only [rounds]
    refine (htest h).andThen fun t x ht => ?_
    split_ifs
    · refine ht.leaves.andThen (hbody ht.known) fun u flow hu => ?_
      have hu := ht.balanced.trans hu
      cases flow with
      | give v => exact hu
      | on => exact hu.leaves.post (rounds_balanced htest hbody n hu.known) fun _ _ => hu.trans
    · exact ht.balanced

mutual

theorem statement_balanced [Host H] {k : Calls H} (hk : k.Orderly) (budget : Nat) (c : Place) :
    ∀ (st : Statement) {s : State H}, s.Known →
      (statement k budget c st s).Post (fun t _ => s.Balanced t) s.Leaves
  | .assign line name e, s, h => by
    simp only [statement]
    exact (expr_holds hk c line e h).andThen fun t v ht => ht.balanced.trans (ht.known.store ..)
  | .setAttribute line object name e, s, h => by
    simp only [statement]
    refine (expr_holds hk c line e h).andThen fun t v ht => ?_
    have hold := ht.hold v
    refine hold.leaves.andThen (expr_holds hk c line object hold.known) fun u x hu => ?_
    have hr : s.Holds [] (u.release 1) := (ht.cons hu).release
    cases x with
    | module m => exact ⟨hr.known, hr.stack, by rw [← hr.locals]⟩
    | _ => exact hr.leaves
  | .give _ none, s, h => h.holds.balanced
  | .give line (some e), s, h => by
    simp only [statement]
    exact (expr_holds hk c line e h).andThen fun t v ht => ht.balanced
  | .expr line e, s, h => by
    simp only [statement]
    exact (expr_holds hk c line e h).andThen fun t v ht => ht.balanced
  | .when line condition body, s, h => by
    simp only [statement]
    refine (expr_holds hk c line condition h).andThen fun t x ht => ?_
    split_ifs
    · exact ht.leaves.post (block_balanced hk budget c body ht.known) fun _ _ => ht.balanced.trans
    · exact ht.balanced
  | .choose line condition body other, s, h => by
    simp only [statement]
    refine (expr_holds hk c line condition h).andThen fun t x ht => ?_
    split_ifs
    · exact ht.leaves.post (block_balanced hk budget c body ht.known) fun _ _ => ht.balanced.trans
    · exact ht.leaves.post (block_balanced hk budget c other ht.known) fun _ _ => ht.balanced.trans
  | .loop line condition body, s, h => by
    simp only [statement]
    exact rounds_balanced (expr_holds hk c line condition) (block_balanced hk budget c body)
      budget h
  | .function line name params body, s, h => by
    simp only [statement]
    have hd := h.define c name params ⟨line, body⟩
    exact hd.trans (hd.known.store ..)
  | .use line module newName, s, h => by
    simp only [statement]
    exact (use_holds hk h).andThen fun t m ht => ht.balanced.trans (ht.known.store ..)
  | .raise line e, s, h => by
    simp only [statement]
    exact (expr_holds hk c line e h).andThen fun t v ht => ht.leaves

/-- **Statements are balanced.** -/
theorem block_balanced [Host H] {k : Calls H} (hk : k.Orderly) (budget : Nat) (c : Place) :
    ∀ (b : List Statement) {s : State H}, s.Known →
      (block k budget c b s).Post (fun t _ => s.Balanced t) s.Leaves
  | [], s, h => h.holds.balanced
  | first :: rest, s, h => by
    simp only [block]
    refine (statement_balanced hk budget c first h).andThen fun t flow ht => ?_
    cases flow with
    | give v => exact ht
    | on => exact ht.leaves.post (block_balanced hk budget c rest ht.known) fun _ _ => ht.trans

end

/-! ## Calls and loads -/

variable [Host H]

theorem body_balanced {k : Calls H} (hk : k.Orderly) (budget : Nat) (c : Place) (b : Body)
    {s : State H} (h : s.Known) :
    (body k budget c b s).Post (fun t _ => s.Balanced t) s.Leaves := by
  unfold body
  refine (block_balanced hk budget c b.statements h).andThen fun t flow ht => ?_
  cases flow <;> exact ht

theorem load_holds {k : Calls H} (hk : k.Orderly) (budget : Nat) {kept : List Node}
    {source name : String} {origin : Origin} {s t : State H} {r : Except LoadError ModuleId}
    (h : s.Known) (hl : load k budget kept source name origin s = some (t, r)) : s.Holds [] t := by
  unfold load at hl
  split at hl
  · cases hl
    exact h.holds
  · have hs := s.interpreter.stack_beginLoad source name origin
    have hf := s.interpreter.functions_beginLoad source name origin
    have hb := s.interpreter.base_beginLoad source name origin
    generalize s.interpreter.beginLoad source name origin = begun at hl hs hf hb
    obtain ⟨l, i⟩ := begun
    have hi : State.Known ⟨i, s.bodies, none⟩ := by
      rw [State.Known, show i.heap.functions = _ from hf]
      exact h
    dsimp only at hl hs hb
    split at hl
    · cases hl
      refine ⟨?_, Interpreter.stack_endLoad hb (hs ▸ List.suffix_refl _) fun _ => hs, rfl⟩
      rw [State.Known, Interpreter.heap_endLoad]
      exact hi
    · next p _ =>
      have hp := block_balanced hk budget
        ⟨displayName name, l.module, 0, Activation.loadNodes l ++ kept⟩ p hi
      obtain ⟨⟨u, flow⟩, hu, hl⟩ := Option.map_eq_some_iff.1 hl
      rw [hu] at hp
      cases hl
      cases flow with
      | error f =>
        have hp : State.Leaves _ u := hp
        refine ⟨?_, Interpreter.stack_endLoad hb (hs ▸ hp.stack) (by rintro ⟨⟩), rfl⟩
        rw [State.Known, Interpreter.heap_endLoad]
        exact hp.known
      | ok flow =>
        have hp : State.Balanced _ u := hp
        refine ⟨?_, Interpreter.stack_endLoad hb (hs ▸ hp.leaves.stack)
          fun _ => hp.stack.trans hs, rfl⟩
        rw [State.Known, Interpreter.heap_endLoad]
        exact hp.known

/-- **Calls and loads are orderly.** -/
theorem orderly_calls : ∀ n, (calls n : Calls H).Orderly
  | 0 => ⟨fun _ _ _ _ => trivial, fun _ _ _ _ _ _ _ _ h => nomatch h⟩
  | n + 1 => ⟨fun c b _ h => body_balanced (orderly_calls n) n c b h,
      fun _ _ _ _ _ _ _ h hl => load_holds (orderly_calls n) n h hl⟩

end Ember.Evaluation
