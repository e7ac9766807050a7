import Ember.Machine.Run
import Ember.Proofs.Code.Layout

/-!
# Evaluation

What programs mean, said on their trees. An expression is evaluated to a value and a statement is
carried out, by recursion on them; a function's body and the code of a nested load are evaluated in
the same way. Nothing here has instructions, jumps or frames.

Programs need not end, so evaluation has a budget: the number of rounds of a loop, and of calls and
loads one inside the other, that it may take. The result is `none` if the budget does not suffice.

Evaluation works on the same states as machines do. Two things need a word because of liveness: a
function can be called only while its module is alive, and what keeps modules alive is what the
program holds on to.

* A value that is needed later, such as a left operand, is held while other code runs: it lies on
  the state's stack (`State.hold`), from which evaluation never takes a value.
* `Place.kept` lists what the callers and the loads in progress hold on to.

The objects on the heap that stand for functions have code there, as all functions do. Evaluation
does not look at it, but at the `Body` of the function.
-/

namespace Ember

open Source (Expr Statement Program)

namespace Evaluation

/-- The source of a function: the line of its definition, and its statements. -/
structure Body where
  line : Nat
  statements : List Statement

/-- Where statements are carried out. -/
structure Place where
  /-- The name of the file, for errors. -/
  file : String
  globals : ModuleId
  /-- The number of calls in progress. -/
  depth : Nat
  /-- The objects that the callers and the loads in progress hold on to. -/
  kept : List Node

structure State (H : Type) where
  interpreter : Interpreter H
  /-- The sources of the functions on the heap, by their numbers. -/
  bodies : Array Body
  /-- The variables of the function that runs; a module's body has none. -/
  locals : Option Fields

/-- An error, and the line of the statement that was being carried out. -/
structure Fault where
  error : RuntimeError
  line : Nat

def Fault.located (f : Fault) (file : String) : LoadError := .runtime f.error file f.line

/-- How a statement ends: the next one follows, or the function returns a value. -/
inductive Flow where
  | on
  | give (value : Value)

/-- What comes of an evaluation, if the budget suffices. -/
abbrev Result (H α : Type) := Option (State H × Except Fault α)

variable {H α β : Type}

namespace Result

/-- Goes on after success. -/
def andThen (r : Result H α) (f : State H → α → Result H β) : Result H β :=
  match r with
  | none => none
  | some (s, .ok a) => f s a
  | some (s, .error e) => some (s, .error e)

/-- Goes back to the variables of a caller. -/
def backTo (locals : Option Fields) (r : Result H α) : Result H α :=
  r.map fun (s, a) => ({ s with locals := locals }, a)

end Result

namespace State

def ok (s : State H) (a : α) : Result H α := some (s, .ok a)

def fail (s : State H) (line : Nat) (e : RuntimeError) : Result H α := some (s, .error ⟨e, line⟩)

def result (s : State H) (line : Nat) : Except RuntimeError α → Result H α
  | .ok a => s.ok a
  | .error e => s.fail line e

/-- Holds on to a value. -/
def hold (s : State H) (v : Value) : State H := { s with interpreter := s.interpreter.push v }

/-- Lets the last values go that are held. -/
def release (s : State H) (count : Nat) : State H :=
  { s with interpreter := { s.interpreter with stack := s.interpreter.stack.drop count } }

/-- Local variables come first, then the fields of the module, then the builtins. -/
def look (s : State H) (c : Place) (name : String) : Option Value :=
  match s.locals.bind (·.get? name) with
  | some v => some v
  | none => match s.interpreter.heap.field? c.globals name with
    | some v => some v
    | none => (Native.builtin? name).map .native

/-- Gives a name a value, among the local variables if there are any. -/
def store (s : State H) (c : Place) (name : String) (v : Value) : State H :=
  match s.locals with
  | some t => { s with locals := some (t.set name v) }
  | none => { s with interpreter := s.interpreter.setField c.globals name v }

/-- Makes a function of the module whose code runs. -/
def define (s : State H) (c : Place) (name : String) (params : List String) (b : Body) :
    FunctionId × State H :=
  let (f, i) :=
    s.interpreter.newFunction ⟨name, params, Code.bodyCode b.line b.statements, c.globals⟩
  (f, { s with interpreter := i, bodies := s.bodies.push b })

/-- What the code that runs and its callers hold on to. -/
def kept (s : State H) (c : Place) : List Node :=
  .module c.globals ::
    (Activation.valueNodes (s.locals.elim [] Table.values) ++ c.kept)

/-- Is a module alive while some values are at hand? -/
def alive (s : State H) (c : Place) (values : List Value) (m : ModuleId) : Bool :=
  s.interpreter.heap.alive
    (s.interpreter.nodes ++ s.kept c ++ Activation.valueNodes values) m

end State

/-- How bodies of functions are evaluated, and how loads are carried out. -/
structure Calls (H : Type) where
  body : Place → Body → State H → Result H Value
  load : List Node → String → String → Origin → State H →
    Option (State H × Except LoadError ModuleId)

variable [Host H]

/-! ## Calls and imports -/

def callFunction (k : Calls H) (c : Place) (line : Nat) (id : FunctionId) (f : Function) (b : Body)
    (args : List Value) (s : State H) : Result H Value :=
  if args.length ≠ f.params.length then
    s.fail line (.arity f.name f.params.length args.length)
  else if s.interpreter.config.maxCallDepth ≤ c.depth then s.fail line .callDepth
  else if s.alive c (.function id :: args) f.home then
    (k.body ⟨c.file, f.home, c.depth + 1, s.kept c⟩ b
      { s with locals := some (Machine.parameters f.params args) }).backTo s.locals
  else s.fail line (.misuse (.moduleGone f.name))

/-- `exec_module` says whether the load succeeded. -/
def callLoad (k : Calls H) (c : Place) (source name : String) (s : State H) : Result H Value :=
  match k.load (s.kept c) source name .call s with
  | none => none
  | some (s, .ok _) => s.ok (.bool true)
  | some (s, .error e) =>
    { s with interpreter := { s.interpreter with lastError := some e } }.ok (.bool false)

def callNative (k : Calls H) (c : Place) (line : Nat) (f : Native) (args : List Value)
    (s : State H) : Result H Value :=
  match Library.apply s.interpreter f args with
  | .value i v => { s with interpreter := i }.ok v
  | .error i e => { s with interpreter := i }.fail line e
  | .load i source name => callLoad k c source name { s with interpreter := i }

def callValue (k : Calls H) (c : Place) (line : Nat) (callee : Value) (args : List Value)
    (s : State H) : Result H Value :=
  match callee with
  | .function id => match s.interpreter.heap.function? id, s.bodies[id.index]? with
    | some f, some b => callFunction k c line id f b args s
    | _, _ => s.fail line (.notCallable callee)
  | .native f => callNative k c line f args s
  | v => s.fail line (.notCallable v)

/-- The module that an import gives. -/
def use (k : Calls H) (c : Place) (line : Nat) (name : String) (s : State H) : Result H ModuleId :=
  match s.interpreter.module? name with
  | some m => if m = c.globals then s.fail line (.selfImport name) else s.ok m
  | none => match s.interpreter.resolver.bind fun r => r name with
    | none => s.fail line (.moduleNotFound name)
    | some source => match k.load (s.kept c) source name .use s with
      | none => none
      | some (s, .ok m) => s.ok m
      | some (s, .error cause) => s.fail line (.importFailed name cause)

/-! ## Expressions -/

mutual

/-- The value of an expression in a statement of a line. -/
def expr (k : Calls H) (c : Place) (line : Nat) : Expr → State H → Result H Value
  | .integer n, s => s.ok (.integer n)
  | .float x, s => s.ok (.float x)
  | .text t, s => s.ok (.text t)
  | .bool b, s => s.ok (.bool b)
  | .nil, s => s.ok .nil
  | .variable name, s => match s.look c name with
    | some v => s.ok v
    | none => s.fail line (.undefinedName name)
  | .binary (.operator op) l r, s =>
    (expr k c line l s).andThen fun s x =>
    (expr k c line r (s.hold x)).andThen fun s y =>
    (s.release 1).result line (x.operate op y)
  | .binary .and l r, s =>
    (expr k c line l s).andThen fun s x =>
    if x.truthy then (expr k c line r s).andThen fun s y => s.ok (.bool y.truthy)
    else s.ok (.bool false)
  | .binary .or l r, s =>
    (expr k c line l s).andThen fun s x =>
    if x.truthy then s.ok (.bool true)
    else (expr k c line r s).andThen fun s y => s.ok (.bool y.truthy)
  | .unary .neg e, s => (expr k c line e s).andThen fun s x => s.result line x.neg
  | .unary .not e, s => (expr k c line e s).andThen fun s x => s.ok (.bool !x.truthy)
  | .call f args, s =>
    (expr k c line f s).andThen fun s callee =>
    (exprs k c line args (s.hold callee)).andThen fun s values =>
    callValue k c line callee values (s.release (values.length + 1))
  | .attribute e name, s =>
    (expr k c line e s).andThen fun s x =>
    s.result line (Machine.getAttribute s.interpreter.heap x name)

/-- The values of expressions, from left to right. They are held in the end. -/
def exprs (k : Calls H) (c : Place) (line : Nat) : List Expr → State H → Result H (List Value)
  | [], s => s.ok []
  | e :: es, s =>
    (expr k c line e s).andThen fun s v =>
    (exprs k c line es (s.hold v)).andThen fun s vs => s.ok (v :: vs)

end

/-! ## Statements -/

/-- Rounds of a loop. -/
def rounds (test : State H → Result H Value) (body : State H → Result H Flow) :
    Nat → State H → Result H Flow
  | 0, _ => none
  | n + 1, s =>
    (test s).andThen fun s x =>
    if x.truthy then
      (body s).andThen fun s flow => match flow with
        | .on => rounds test body n s
        | .give v => s.ok (.give v)
    else s.ok .on

mutual

/-- Carries out a statement. -/
def statement (k : Calls H) (budget : Nat) (c : Place) : Statement → State H → Result H Flow
  | .assign line name e, s =>
    (expr k c line e s).andThen fun s v => (s.store c name v).ok .on
  | .setAttribute line object name e, s =>
    (expr k c line e s).andThen fun s v =>
    (expr k c line object (s.hold v)).andThen fun s object =>
    match object with
    | .module m =>
      { s.release 1 with interpreter := (s.release 1).interpreter.setField m name v }.ok .on
    | other => (s.release 1).fail line (.typeMismatch .module other)
  | .give _ none, s => s.ok (.give .nil)
  | .give line (some e), s => (expr k c line e s).andThen fun s v => s.ok (.give v)
  | .expr line e, s => (expr k c line e s).andThen fun s _ => s.ok .on
  | .when line condition body, s =>
    (expr k c line condition s).andThen fun s x =>
    if x.truthy then block k budget c body s else s.ok .on
  | .choose line condition body other, s =>
    (expr k c line condition s).andThen fun s x =>
    if x.truthy then block k budget c body s else block k budget c other s
  | .loop line condition body, s =>
    rounds (expr k c line condition) (fun s => block k budget c body s) budget s
  | .function line name params body, s =>
    let (f, s) := s.define c name params ⟨line, body⟩
    (s.store c name (.function f)).ok .on
  | .use line module newName, s =>
    (use k c line module s).andThen fun s m =>
    (s.store c (newName.getD (Source.lastPart module)) (.module m)).ok .on
  | .raise line e, s => (expr k c line e s).andThen fun s v => s.fail line (.raised v)

/-- Carries out statements in their order, until one returns. -/
def block (k : Calls H) (budget : Nat) (c : Place) : List Statement → State H → Result H Flow
  | [], s => s.ok .on
  | first :: rest, s =>
    (statement k budget c first s).andThen fun s flow => match flow with
      | .on => block k budget c rest s
      | .give v => s.ok (.give v)

end

/-! ## Bodies, loads and programs -/

/-- The value that a function's body gives: `nil` if it comes to its end. -/
def body (k : Calls H) (budget : Nat) (c : Place) (b : Body) (s : State H) : Result H Value :=
  (block k budget c b.statements s).andThen fun s flow => match flow with
    | .on => s.ok .nil
    | .give v => s.ok v

/-- How the statements of a module end, for who runs them. -/
def outcome (file : String) : Except Fault Flow → Except LoadError Unit
  | .ok _ => .ok ()
  | .error f => .error (f.located file)

/-- Carries out a load. -/
def load (k : Calls H) (budget : Nat) (kept : List Node) (source name : String) (origin : Origin)
    (s : State H) : Option (State H × Except LoadError ModuleId) :=
  match s.interpreter.refusal? name with
  | some r => some (s, .error (.refused r))
  | none =>
    let (l, i) := s.interpreter.beginLoad source name origin
    match Code.readProgram source (displayName name) with
    | .error e =>
      let (r, i) := i.endLoad l (.error (.compile e))
      some ({ s with interpreter := i }, r)
    | .ok p =>
      let c : Place := ⟨displayName name, l.module, 0, Activation.loadNodes l ++ kept⟩
      (block k budget c p ⟨i, s.bodies, none⟩).map fun (t, flow) =>
        let (r, i) := t.interpreter.endLoad l (outcome c.file flow)
        (⟨i, t.bodies, s.locals⟩, r)

/-- Calls and loads with a budget for those inside them. -/
def calls : Nat → Calls H
  | 0 => ⟨fun _ _ _ => none, fun _ _ _ _ _ => none⟩
  | n + 1 => ⟨body (calls n) n, load (calls n) n⟩

/-- Carries out a program on the fields of a module, outside of any load. -/
def program (budget : Nat) (i : Interpreter H) (bodies : Array Body) (p : Program)
    (globals : ModuleId) (file : String) : Option (Interpreter H × Except LoadError Unit) :=
  (block (calls budget) budget ⟨file, globals, 0, []⟩ p ⟨i, bodies, none⟩).map
    fun (s, flow) => (s.interpreter, outcome file flow)

end Evaluation

end Ember
