import Ember.Proofs.Evaluation.Following

/-!
# Machines follow evaluation

The machine that runs the code of a program follows the evaluation of the program. This is shown by
induction on the tree: for expressions (`expr_follows`), whose code leaves the value on the stack,
and for statements (`block_follows`), whose code leaves the stack as it was. What calls and loads
inside them do is assumed (`Calls.Sound`) and then shown by induction on the budget (`sound_calls`).
-/

namespace Ember

open Machine (Reaches run run_eq_none_of_reaches)
open Source (Expr Statement Program)
open Code (exprCode argsCode statementCode blockCode lined closingOfAll strayReturn? strayReturnIn?)

namespace Evaluation

variable {H α β : Type} [Host H]

/-- A machine follows calls and loads. -/
structure Calls.Sound (n : Nat) (k : Calls H) : Prop where
  body : ∀ {c b a f frames below s}, Fits c a below s → a.frames = f :: frames → a.code = b.code →
    f.base = s.interpreter.stack.length → Follows n (here a below 0 s) (k.body c b s)
      (fun t v => .running ⟨t.interpreter.push v, a.back f frames, below⟩) (halt a below)
  load : ∀ {kept s below} (source name origin), s.Known →
    (∀ x, x ∈ below.flatMap Activation.nodes ↔ x ∈ kept) →
    match k.load kept source name origin s with
    | none => ∀ m < n, run m (Machine.load s.interpreter source name origin below) = none
    | some (t, r) => Reaches (Machine.load s.interpreter source name origin below)
        (Machine.deliver t.interpreter origin name r below)

/-! ## Calls and imports -/

section Calls

variable {n : Nat} {k : Calls H} (hk : k.Sound n) (ho : k.Orderly) {c : Place} {line ip : Nat}
  {a : Activation} {below : List Activation} {s : State H}
include hk ho

theorem callFunction_follows {id : FunctionId} {f : Function} {b : Body} {args : List Value}
    (h : Fits c a below s) (hb : f.code = b.code) :
    Follows n (proceed a below ip line s
        (Machine.callFunction s.interpreter (a.place s.locals ip) below id f args))
      (callFunction k c line id f b args s) (fun t v => here a below ip (t.hold v))
      (halt a below) := by
  have hd : (a.place s.locals ip).frames.length = c.depth := by
    rw [← h.depth]
    show (a.framesWith s.locals).length = _
    unfold Activation.framesWith
    cases a.frames <;> rfl
  unfold Machine.callFunction callFunction
  rw [hd, h.alive]
  split_ifs
  · exact .refl _
  · exact .refl _
  · have hf := hk.body (h.enter ip args hb) rfl hb rfl
    have hp := ho.body ⟨c.file, f.home, c.depth + 1, s.kept c⟩ b
      { s with locals := some (Machine.parameters f.params args) } h.known
    exact hf.backTo hp (fun _ _ _ => rfl) fun _ _ => rfl
  · exact .refl _

theorem callLoad_follows {source name : String} (h : Fits c a below s) :
    Follows n (Machine.load s.interpreter source name .call (a.place s.locals ip :: below))
      (callLoad k c source name s) (fun t v => here a below ip (t.hold v)) (halt a below) := by
  have hl := hk.load source name .call h.known (h.mem_kept ip)
  unfold callLoad
  cases hr : k.load (s.kept c) source name .call s with
  | none =>
    rw [hr] at hl
    exact hl
  | some r =>
    obtain ⟨t, r⟩ := r
    have ht := ho.load _ _ _ _ _ _ _ h.known hr
    have hp : a.place t.locals ip = a.place s.locals ip := by rw [ht.locals]
    rw [hr] at hl
    cases r with
    | ok m =>
      show Reaches _ (.running ⟨t.interpreter.push (.bool true), a.place t.locals ip, below⟩)
      rw [hp]
      exact hl
    | error e =>
      show Reaches _ (.running ⟨{ t.interpreter with lastError := some e }.push (.bool false),
        a.place t.locals ip, below⟩)
      rw [hp]
      exact hl

theorem callNative_follows {f : Native} {args : List Value} (h : Fits c a below s) :
    Follows n (proceed a below ip line s
        (Machine.callNative s.interpreter (a.place s.locals ip) f args))
      (callNative k c line f args s) (fun t v => here a below ip (t.hold v))
      (halt a below) := by
  have ha := Library.leaves_apply s.interpreter f args
  unfold Machine.callNative callNative
  cases hf : Library.apply s.interpreter f args with
  | value i v => exact .refl _
  | error i e => exact .refl _
  | load i source name =>
    rw [hf] at ha
    obtain rfl : i = s.interpreter := ha
    exact callLoad_follows hk ho h

theorem callValue_follows {callee : Value} {args : List Value} (h : Fits c a below s) :
    Follows n (proceed a below ip line s
        (Machine.call s.interpreter (a.place s.locals ip) below callee args))
      (callValue k c line callee args s) (fun t v => here a below ip (t.hold v))
      (halt a below) := by
  cases callee with
  | function id =>
    unfold callValue Machine.call
    cases hf : s.interpreter.heap.function? id with
    | none =>
      simp only [hf]
      exact .refl _
    | some f =>
      obtain ⟨b, hb, hc⟩ := h.known.body hf
      simp only [hf, hb]
      exact callFunction_follows hk ho h hc
  | native f => exact callNative_follows hk ho h
  | _ => exact .refl _

/-- A call of a value that lies on the stack below its arguments. -/
theorem call_follows {callee : Value} {args rest : List Value}
    (h : Fits c a below (s.release (args.length + 1)))
    (hc : a.code[ip]? = some (.call args.length, line))
    (hs : s.interpreter.stack = args.reverse ++ callee :: rest) :
    Follows (n + 1) (here a below ip s)
      (callValue k c line callee args (s.release (args.length + 1)))
      (fun t v => here a below (ip + 1) (t.hold v)) (halt a below) := by
  have he : Machine.execute s.interpreter (a.place s.locals (ip + 1)) below (.call args.length) =
      Machine.call (s.release (args.length + 1)).interpreter
        (a.place s.locals (ip + 1)) below callee args := by
    rw [Machine.execute, Interpreter.popMany, if_neg (by simp [hs])]
    simp [Machine.withOne, State.release, hs, ← List.drop_drop]
  refine .of_step ?_
  rw [step_here hc, he]
  exact callValue_follows hk ho h

theorem use_follows {name : String} (h : Fits c a below s) (hline : a.code.lineAt (ip - 1) = line) :
    Follows n (proceed a below ip line s (Machine.use s.interpreter (a.place s.locals ip) name))
      (use k c line name s) (fun t m => here a below ip (t.hold (.module m))) (halt a below) := by
  have hg : (a.place s.locals ip).globals = c.globals := h.globals
  unfold use Machine.use
  cases s.interpreter.module? name with
  | some m =>
    simp only [hg]
    split_ifs <;> exact .refl _
  | none =>
    simp only
    cases s.interpreter.resolver.bind fun r => r name with
    | none => exact .refl _
    | some source =>
      have hl := hk.load source name .use h.known (h.mem_kept ip)
      simp only
      cases hr : k.load (s.kept c) source name .use s with
      | none =>
        rw [hr] at hl
        exact hl
      | some r =>
        obtain ⟨t, r⟩ := r
        have ht := ho.load _ _ _ _ _ _ _ h.known hr
        have hp : a.place t.locals ip = a.place s.locals ip := by rw [ht.locals]
        rw [hr] at hl
        cases r with
        | ok m =>
          show Reaches _ (.running ⟨t.interpreter.push (.module m), a.place t.locals ip, below⟩)
          rw [hp]
          exact hl
        | error e =>
          show Reaches _ (Machine.finish t.interpreter a below
            (.error (.runtime (.importFailed name e) a.file line)))
          rw [← hline]
          exact hl

end Calls

/-! ## Expressions -/

mutual

/-- **Machines follow the evaluation of expressions.** -/
theorem expr_follows {n : Nat} {k : Calls H} (hk : k.Sound n) (ho : k.Orderly) {c : Place}
    {line : Nat} {a : Activation} {below : List Activation} :
    ∀ (e : Expr) {start : Nat} {s : State H}, Fits c a below s →
      Code.Has a.code start (lined line (exprCode start e)) →
      Follows (n + 1) (here a below start s) (expr k c line e s)
        (fun t v => here a below (start + (exprCode start e).length) (t.hold v)) (halt a below)
  | .integer _, _, _, _, hc | .float _, _, _, _, hc | .text _, _, _, _, hc | .bool _, _, _, _, hc
  | .nil, _, _, _, hc => reaches_push hc.head
  | .variable name, start, s, h, hc => by
    simp only [expr]
    cases hv : s.look c name with
    | none => exact reaches_of_stop hc.head (by rw [Machine.execute, h.look, hv])
    | some v =>
      refine reaches_of_next (t := s.hold v) hc.head ?_
      rw [Machine.execute, h.look, hv]
      rfl
  | .binary (.operator op) l r, start, s, h, hc => by
    simp only [exprCode, Code.lined_append, Code.Has.append, Code.length_lined,
      List.length_append] at hc
    obtain ⟨⟨hl, hr⟩, hop⟩ := hc
    simp only [expr, exprCode, List.length_append, List.length_singleton, ← Nat.add_assoc] at hop ⊢
    refine (expr_follows hk ho l h hl).andThen (expr_holds ho c line l h.known) fun t x ht => ?_
    have hold := ht.hold x
    refine (expr_follows hk ho r (h.holds hold) hr).andThen
      (expr_holds ho c line r hold.known) fun u y hu => ?_
    exact follows_result (t := u.release 1) hop.head (withTwo_push hu.stack)
  | .binary .and l r, start, s, h, hc => by
    simp only [exprCode, Code.lined_append, Code.Has.append, Code.length_lined,
      List.length_append, List.length_singleton, Code.length_asBool, ← Nat.add_assoc] at hc
    obtain ⟨⟨⟨hl, htest⟩, hr, hbool⟩, hend⟩ := hc
    simp only [expr, exprCode, List.length_append, List.length_cons, List.length_nil,
      Code.length_asBool, ← Nat.add_assoc]
    refine (expr_follows hk ho l h hl).andThen (expr_holds ho c line l h.known) fun t x ht => ?_
    refine .of_reaches (reaches_test htest.head) ?_
    split_ifs with hx
    · refine (expr_follows hk ho r (h.holds ht) hr).andThen
        (expr_holds ho c line r ht.known) fun u y hu => ?_
      exact (reaches_asBool hbool).trans (reaches_jump hend.head)
    · exact reaches_push hend.tail.head
  | .binary .or l r, start, s, h, hc => by
    simp only [exprCode, Code.lined_append, Code.Has.append, Code.length_lined,
      List.length_append, List.length_cons, List.length_nil, Code.length_asBool,
      ← Nat.add_assoc] at hc
    obtain ⟨⟨hl, htest⟩, hr, hbool⟩ := hc
    simp only [expr, exprCode, List.length_append, List.length_cons,
      List.length_nil, Code.length_asBool, ← Nat.add_assoc]
    refine (expr_follows hk ho l h hl).andThen (expr_holds ho c line l h.known) fun t x ht => ?_
    refine .of_reaches (reaches_test htest.head) ?_
    split_ifs with hx
    · exact (reaches_push htest.tail.head).trans (reaches_jump htest.tail.tail.head)
    · refine (expr_follows hk ho r (h.holds ht) hr).andThen
        (expr_holds ho c line r ht.known) fun u y hu => ?_
      exact reaches_asBool hbool
  | .unary .neg e, start, s, h, hc => by
    simp only [exprCode, Code.lined_append, Code.Has.append, Code.length_lined] at hc
    simp only [expr, exprCode, List.length_append, List.length_singleton, ← Nat.add_assoc]
    refine (expr_follows hk ho e h hc.1).andThen (expr_holds ho c line e h.known) fun t x ht => ?_
    exact follows_result hc.2.head rfl
  | .unary .not e, start, s, h, hc => by
    simp only [exprCode, Code.lined_append, Code.Has.append, Code.length_lined] at hc
    simp only [expr, exprCode, List.length_append, List.length_singleton, ← Nat.add_assoc]
    refine (expr_follows hk ho e h hc.1).andThen (expr_holds ho c line e h.known) fun t x ht => ?_
    exact reaches_of_next (t := t.hold (.bool !x.truthy)) hc.2.head rfl
  | .call f args, start, s, h, hc => by
    simp only [exprCode, Code.lined_append, Code.Has.append, Code.length_lined,
      List.length_append] at hc
    obtain ⟨⟨hf, hargs⟩, hcall⟩ := hc
    simp only [expr, exprCode, List.length_append, List.length_singleton,
      ← Nat.add_assoc] at hcall ⊢
    refine (expr_follows hk ho f h hf).andThen (expr_holds ho c line f h.known)
      fun t callee ht => ?_
    have hold := ht.hold callee
    refine (exprs_follows hk ho args (h.holds hold) hargs).andThen
      (exprs_holds ho c line args hold.known) fun u values hv => ?_
    obtain ⟨hu, hlength⟩ := hv
    have hr : s.Holds [] (u.release (values.length + 1)) := (ht.cons hu).release
    exact call_follows hk ho (h.holds hr) (hlength ▸ hcall.head) hu.stack
  | .attribute e name, start, s, h, hc => by
    simp only [exprCode, Code.lined_append, Code.Has.append, Code.length_lined] at hc
    simp only [expr, exprCode, List.length_append, List.length_singleton, ← Nat.add_assoc]
    refine (expr_follows hk ho e h hc.1).andThen (expr_holds ho c line e h.known) fun t x ht => ?_
    exact follows_result hc.2.head rfl

theorem exprs_follows {n : Nat} {k : Calls H} (hk : k.Sound n) (ho : k.Orderly) {c : Place}
    {line : Nat} {a : Activation} {below : List Activation} :
    ∀ (es : List Expr) {start : Nat} {s : State H}, Fits c a below s →
      Code.Has a.code start (lined line (argsCode start es)) →
      Follows (n + 1) (here a below start s) (exprs k c line es s)
        (fun t _ => here a below (start + (argsCode start es).length) t) (halt a below)
  | [], _, _, _, _ => .refl _
  | e :: es, start, s, h, hc => by
    simp only [argsCode, Code.lined_append, Code.Has.append, Code.length_lined] at hc
    simp only [exprs, argsCode, List.length_append, ← Nat.add_assoc]
    refine (expr_follows hk ho e h hc.1).andThen (expr_holds ho c line e h.known) fun t v ht => ?_
    have hold := ht.hold v
    refine (exprs_follows hk ho es (h.holds hold) hc.2).andThen
      (exprs_holds ho c line es hold.known) fun u vs hu => ?_
    exact .refl _

end

/-! ## Statements -/

/-- The machine after a `return` with a value. -/
def returned (a : Activation) (below : List Activation) (s : State H) (v : Value) : Progress H :=
  match a.frames with
  | [] => Machine.finish s.interpreter a below (.ok ())
  | f :: frames => .running ⟨(s.interpreter.truncate f.base).push v, a.back f frames, below⟩

/-- The machine after statements whose code ends before an index. -/
def after (a : Activation) (below : List Activation) (ip : Nat) (s : State H) : Flow → Progress H
  | .on => here a below ip s
  | .give v => returned a below s v

section Statements

variable {n : Nat} {c : Place} {line ip : Nat} {a : Activation} {below : List Activation}
  {s : State H}

theorem reaches_store (h : Fits c a below s) {name : String} {v : Value}
    (hc : a.code[ip]? = some (.store name, line)) :
    Reaches (here a below ip (s.hold v)) (here a below (ip + 1) (s.store c name v)) := by
  refine reaches_of_next hc ?_
  show Machine.Effect.next (Machine.store s.interpreter (a.place s.locals (ip + 1)) name v).1
    (Machine.store s.interpreter (a.place s.locals (ip + 1)) name v).2 = _
  rw [h.store]

theorem reaches_ret {v : Value} (ha : a.frames ≠ []) (hc : a.code[ip]? = some (.ret, line)) :
    Reaches (here a below ip (s.hold v)) (returned a below s v) := by
  refine .of_step ?_
  rw [step_here hc]
  show proceed a below (ip + 1) line (s.hold v)
    (Machine.ret s.interpreter (a.place s.locals (ip + 1)) v) = _
  unfold Machine.ret returned
  simp only [Activation.place, Activation.framesWith]
  cases hf : a.frames with
  | nil => exact absurd hf ha
  | cons f frames => rfl

/-- The rounds of a loop, whose code is a test, a jump out, a body and a jump back. -/
theorem rounds_follows {test : State H → Result H Value} {body : State H → Result H Flow}
    {start back out line' : Nat}
    (htest : ∀ {s}, Fits c a below s → Follows (n + 1) (here a below start s) (test s)
      (fun t x => here a below ip (t.hold x)) (halt a below))
    (hholds : ∀ {s : State H}, s.Known → (test s).Post (fun t _ => s.Holds [] t) s.Leaves)
    (hout : a.code[ip]? = some (.jumpIfFalse out, line))
    (hbody : ∀ {s}, Fits c a below s → Follows (n + 1) (here a below (ip + 1) s) (body s)
      (after a below back) (halt a below))
    (hbalanced : ∀ {s : State H}, s.Known → (body s).Post (fun t _ => s.Balanced t) s.Leaves)
    (hback : a.code[back]? = some (.jump start, line')) :
    ∀ (m : Nat), m ≤ n → ∀ {s}, Fits c a below s →
      Follows (m + 1) (here a below start s) (rounds test body m s) (after a below out)
        (halt a below)
  | 0, _, _, _ => fun m hm => by
    obtain rfl : m = 0 := by omega
    rfl
  | m + 1, hm, s, h => by
    simp only [rounds]
    refine ((htest h).mono (by omega)).andThen (hholds h.known) fun t x ht => ?_
    refine .of_reaches (reaches_test hout) ?_
    split_ifs with hx
    · refine ((hbody (h.holds ht)).mono (by omega)).andThen (hbalanced ht.known)
        fun u flow hu => ?_
      cases flow with
      | give v => exact .refl _
      | on =>
        -- The jump back is the step that makes up for the round.
        refine Follows.of_step ?_
        rw [step_here hback]
        exact rounds_follows htest hholds hout hbody hbalanced hback m (by omega)
          ((h.holds ht).balanced hu)
    · exact .refl _

end Statements

mutual

theorem statement_follows {n : Nat} {k : Calls H} (hk : k.Sound n) (ho : k.Orderly) {c : Place}
    {a : Activation} {below : List Activation} :
    ∀ (st : Statement) {start : Nat} {s : State H}, Fits c a below s →
      (a.frames = [] → strayReturn? st = none) → Code.Has a.code start (statementCode start st) →
      Follows (n + 1) (here a below start s) (statement k n c st s)
        (after a below (start + (statementCode start st).length)) (halt a below)
  | .assign line name e, start, s, h, hr, hc => by
    simp only [statementCode, Code.lined_append, Code.Has.append, Code.length_lined] at hc
    simp only [statement, statementCode, Code.length_lined, List.length_append,
      List.length_singleton, ← Nat.add_assoc]
    refine (expr_follows hk ho e h hc.1).andThen (expr_holds ho c line e h.known) fun t v ht => ?_
    exact reaches_store (h.holds ht) hc.2.head
  | .setAttribute line object name e, start, s, h, hr, hc => by
    simp only [statementCode, Code.lined_append, Code.Has.append, Code.length_lined,
      List.length_append] at hc
    obtain ⟨⟨he, hobject⟩, hset⟩ := hc
    simp only [statement, statementCode, Code.length_lined, List.length_append,
      List.length_singleton, ← Nat.add_assoc] at hset ⊢
    refine (expr_follows hk ho e h he).andThen (expr_holds ho c line e h.known) fun t v ht => ?_
    have hold := ht.hold v
    refine (expr_follows hk ho object (h.holds hold) hobject).andThen
      (expr_holds ho c line object hold.known) fun u x hu => ?_
    have hset := hset.head
    have he := fun f => withTwo_push (H := H) (f := f) (y := x) hu.stack
    cases x with
    | module m =>
      refine reaches_of_next (t := { u.release 1 with
        interpreter := (u.release 1).interpreter.setField m name v }) hset ?_
      exact he _
    | _ => exact reaches_of_stop (t := u.release 1) hset (he _)
  | .give line none, start, s, h, hr, hc => by
    have ha : a.frames ≠ [] := fun ha => by cases hr ha
    exact (reaches_push hc.head).trans (reaches_ret ha hc.tail.head)
  | .give line (some e), start, s, h, hr, hc => by
    have ha : a.frames ≠ [] := fun ha => by cases hr ha
    simp only [statementCode, Code.lined_append, Code.Has.append, Code.length_lined] at hc
    simp only [statement]
    refine (expr_follows hk ho e h hc.1).andThen (expr_holds ho c line e h.known) fun t v ht => ?_
    exact reaches_ret ha hc.2.head
  | .expr line e, start, s, h, hr, hc => by
    simp only [statementCode, Code.lined_append, Code.Has.append, Code.length_lined] at hc
    simp only [statement, statementCode, Code.length_lined, List.length_append,
      List.length_singleton, ← Nat.add_assoc]
    refine (expr_follows hk ho e h hc.1).andThen (expr_holds ho c line e h.known) fun t v ht => ?_
    exact reaches_of_next hc.2.head rfl
  | .when line condition body, start, s, h, hr, hc => by
    simp only [statementCode, Code.lined_append, Code.Has.append, Code.length_lined,
      List.length_append, List.length_singleton, ← Nat.add_assoc] at hc
    obtain ⟨⟨he, htest⟩, hbody⟩ := hc
    simp only [statement, statementCode, Code.length_lined, List.length_append,
      List.length_singleton, ← Nat.add_assoc]
    refine (expr_follows hk ho condition h he).andThen
      (expr_holds ho c line condition h.known) fun t x ht => ?_
    refine .of_reaches (reaches_test htest.head) ?_
    split_ifs with hx
    · exact block_follows hk ho body (h.holds ht) hr hbody
    · exact .refl _
  | .choose line condition body other, start, s, h, hr, hc => by
    simp only [statementCode, Code.lined_append, Code.Has.append, Code.length_lined,
      List.length_append, List.length_singleton, ← Nat.add_assoc] at hc
    obtain ⟨⟨⟨he, htest⟩, hbody⟩, hother⟩ := hc
    have hr : a.frames = [] → strayReturnIn? body = none ∧ strayReturnIn? other = none :=
      fun ha => by simpa [strayReturn?] using hr ha
    simp only [statement, statementCode, Code.length_lined, List.length_append,
      List.length_cons, List.length_nil, Nat.zero_add, ← Nat.add_assoc]
    rw [Nat.add_right_comm _ (blockCode _ other).length]
    refine (expr_follows hk ho condition h he).andThen
      (expr_holds ho c line condition h.known) fun t x ht => ?_
    refine .of_reaches (reaches_test htest.head) ?_
    split_ifs with hx
    · refine (block_follows hk ho body (h.holds ht) (fun ha => (hr ha).1) hbody).further
        fun u flow => ?_
      cases flow with
      | on => exact reaches_jump hother.head
      | give v => exact .refl _
    · exact block_follows hk ho other (h.holds ht) (fun ha => (hr ha).2) hother.tail
  | .loop line condition body, start, s, h, hr, hc => by
    simp only [statementCode, Code.lined_append, Code.Has.append, Code.length_lined,
      List.length_append, List.length_singleton, ← Nat.add_assoc] at hc
    obtain ⟨⟨⟨he, htest⟩, hbody⟩, hback⟩ := hc
    simp only [statement, statementCode, Code.length_lined, List.length_append,
      List.length_singleton, ← Nat.add_assoc]
    exact rounds_follows (fun h => expr_follows hk ho condition h he)
      (expr_holds ho c line condition) htest.head
      (fun h => block_follows hk ho body h hr hbody) (block_balanced ho n c body) hback.head n
      (Nat.le_refl n) h
  | .function line name params body, start, s, h, hr, hc => by
    have hd := h.known.define c name params ⟨line, body⟩
    refine .of_reaches ?_ (reaches_store (h.balanced hd) hc.tail.head)
    refine reaches_of_next (t := (s.define c name params ⟨line, body⟩).2.hold
      (.function (s.define c name params ⟨line, body⟩).1)) hc.head ?_
    rw [State.define, ← h.globals]
    rfl
  | .use line module newName, start, s, h, hr, hc => by
    have hline : a.code.lineAt (start + 1 - 1) = line := by
      simp [Code.Chunk.lineAt, hc.head]
    have hu : Follows (n + 1) (here a below start s) (use k c line module s)
        (fun t m => here a below (start + 1) (t.hold (.module m))) (halt a below) := by
      refine .of_step ?_
      rw [step_here hc.head]
      exact use_follows hk ho h hline
    simp only [statement]
    refine hu.andThen (use_holds ho h.known) fun t m ht => ?_
    exact reaches_store (h.holds ht) hc.tail.head
  | .raise line e, start, s, h, hr, hc => by
    simp only [statementCode, Code.lined_append, Code.Has.append, Code.length_lined] at hc
    simp only [statement]
    refine (expr_follows hk ho e h hc.1).andThen (expr_holds ho c line e h.known) fun t v ht => ?_
    exact reaches_of_stop hc.2.head rfl

/-- **Machines follow the evaluation of statements.** -/
theorem block_follows {n : Nat} {k : Calls H} (hk : k.Sound n) (ho : k.Orderly) {c : Place}
    {a : Activation} {below : List Activation} :
    ∀ (b : List Statement) {start : Nat} {s : State H}, Fits c a below s →
      (a.frames = [] → strayReturnIn? b = none) → Code.Has a.code start (blockCode start b) →
      Follows (n + 1) (here a below start s) (block k n c b s)
        (after a below (start + (blockCode start b).length)) (halt a below)
  | [], _, _, _, _, _ => .refl _
  | st :: rest, start, s, h, hr, hc => by
    simp only [blockCode, Code.Has.append] at hc
    have hr : a.frames = [] → strayReturn? st = none ∧ strayReturnIn? rest = none :=
      fun ha => by simpa [strayReturnIn?] using hr ha
    simp only [block, blockCode, List.length_append, ← Nat.add_assoc]
    refine (statement_follows hk ho st h (fun ha => (hr ha).1) hc.1).andThen
      (statement_balanced ho n c st h.known) fun t flow ht => ?_
    cases flow with
    | on => exact block_follows hk ho rest (h.balanced ht) (fun ha => (hr ha).2) hc.2
    | give v => exact .refl _

end

end Evaluation

end Ember
