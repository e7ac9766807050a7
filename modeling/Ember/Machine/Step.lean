import Ember.Library.Functions
import Ember.Machine.Load

/-!
# Steps

One step of a machine executes the next instruction of the topmost activation, or ends that
activation if there is none. An instruction has one of three effects: the activation goes on, it
stops with an error, or it is suspended for a load. Operands that an instruction has taken off the
stack stay off when it stops.
-/

namespace Ember.Machine

variable {H : Type} [Host H]

/-- What an instruction does. -/
inductive Effect (H : Type) where
  | next (s : Interpreter H) (a : Activation)
  | stop (s : Interpreter H) (e : RuntimeError)
  | load (s : Interpreter H) (source name : String) (origin : Origin)

namespace Effect

/-- Goes on with a value on the stack, or stops. -/
def ofResult (s : Interpreter H) (a : Activation) : Except RuntimeError Value → Effect H
  | .ok v => .next (s.push v) a
  | .error e => .stop s e

end Effect

/-! ## Operands -/

/-- An instruction on one operand. -/
def withOne (s : Interpreter H) (f : Interpreter H → Value → Effect H) : Effect H :=
  match s.stack with
  | [] => .stop s .stackUnderflow
  | v :: rest => f { s with stack := rest } v

/-- An instruction on two operands, the lower of them first. -/
def withTwo (s : Interpreter H) (f : Interpreter H → Value → Value → Effect H) : Effect H :=
  withOne s fun s b => withOne s fun s a => f s a b

/-! ## Names -/

/-- A name stands for a local variable, else for a field of the globals, else for a builtin. -/
def lookUp (s : Interpreter H) (a : Activation) (name : String) : Option Value :=
  ((a.frames.head?.bind fun f => f.locals.get? name).or (s.heap.field? a.globals name)).or
    ((Native.builtin? name).map .native)

/-- Gives a name a value in the innermost call, or in the globals outside of calls. -/
def store (s : Interpreter H) (a : Activation) (name : String) (v : Value) :
    Interpreter H × Activation :=
  match a.frames with
  | [] => (s.setField a.globals name v, a)
  | f :: frames => (s, { a with frames := { f with locals := f.locals.set name v } :: frames })

def getAttribute (h : Heap) (object : Value) (name : String) : Except RuntimeError Value :=
  match object with
  | .module m => match h.field? m name with
    | some v => .ok v
    | none => .error (.missingAttribute (h.moduleName m) name)
  | v => .error (.missingAttribute v.typeName name)

/-! ## Calls -/

/-- The locals at the start of a call. -/
def parameters (names : List String) (args : List Value) : Fields := Table.ofList (names.zip args)

/-- Enters a function, whose arguments are off the stack. -/
def enter (s : Interpreter H) (a : Activation) (f : Function) (args : List Value) : Activation :=
  { a with
    code := f.code
    ip := 0
    globals := f.home
    frames := ⟨parameters f.params args, a.ip, a.code, a.globals, s.stack.length⟩ :: a.frames }

/-- Calls a function of the program. -/
def callFunction (s : Interpreter H) (a : Activation) (below : List Activation) (id : FunctionId)
    (f : Function) (args : List Value) : Effect H :=
  if args.length ≠ f.params.length then .stop s (.arity f.name f.params.length args.length)
  else if s.config.maxCallDepth ≤ a.frames.length then .stop s .callDepth
  else if s.alive (a :: below) (.function id :: args) f.home then .next s (enter s a f args)
  else .stop s (.misuse (.moduleGone f.name))

def callNative (s : Interpreter H) (a : Activation) (f : Native) (args : List Value) : Effect H :=
  match Library.apply s f args with
  | .value s v => .next (s.push v) a
  | .error s e => .stop s e
  | .load s source name => .load s source name .call

def call (s : Interpreter H) (a : Activation) (below : List Activation) (callee : Value)
    (args : List Value) : Effect H :=
  match callee with
  | .function id => match s.heap.function? id with
    | some f => callFunction s a below id f args
    | none => .stop s (.notCallable callee)
  | .native f => callNative s a f args
  | v => .stop s (.notCallable v)

/-- Goes back to the caller. -/
def ret (s : Interpreter H) (a : Activation) (result : Value) : Effect H :=
  match a.frames with
  | [] => .stop s (.misuse .returnOutsideFunction)
  | f :: frames =>
    .next ((s.truncate f.base).push result)
      { a with code := f.code, ip := f.ip, globals := f.globals, frames := frames }

/-! ## Imports -/

/-- A registered module is at hand; any other is loaded from the source that the resolver knows. A
module cannot import itself. -/
def use (s : Interpreter H) (a : Activation) (name : String) : Effect H :=
  match s.module? name with
  | some m =>
    if m = a.globals then .stop s (.selfImport name) else .next (s.push (.module m)) a
  | none => match s.resolver.bind fun r => r name with
    | none => .stop s (.moduleNotFound name)
    | some source => .load s source name .use

/-! ## Instructions -/

def jumpTo (a : Activation) (target : Nat) : Activation := { a with ip := target }

/-- Executes an instruction; `a` is already at the next one. -/
def execute (s : Interpreter H) (a : Activation) (below : List Activation) :
    Code.Instr → Effect H
  | .push v => .next (s.push v) a
  | .pop => withOne s fun s _ => .next s a
  | .operate op => withTwo s fun s x y => .ofResult s a (x.operate op y)
  | .negate => withOne s fun s x => .ofResult s a x.neg
  | .invert => withOne s fun s x => .next (s.push (.bool !x.truthy)) a
  | .load name => match lookUp s a name with
    | some v => .next (s.push v) a
    | none => .stop s (.undefinedName name)
  | .store name => withOne s fun s v =>
    let (s, a) := store s a name v
    .next s a
  | .getAttribute name => withOne s fun s object => .ofResult s a (getAttribute s.heap object name)
  | .setAttribute name => withTwo s fun s v object =>
    match object with
    | .module m => .next (s.setField m name v) a
    | other => .stop s (.typeMismatch .module other)
  | .jump target => .next s (jumpTo a target)
  | .jumpIfFalse target => withOne s fun s x => .next s (if x.truthy then a else jumpTo a target)
  | .makeFunction name params body =>
    let (f, s) := s.newFunction ⟨name, params, body, a.globals⟩
    .next (s.push (.function f)) a
  | .call count => match s.popMany count with
    | (.error e, s) => .stop s e
    | (.ok args, s) => withOne s fun s callee => call s a below callee args
  | .ret => withOne s fun s result => ret s a result
  | .use name => use s a name
  | .raise => withOne s fun s v => .stop s (.raised v)

/-- One step. -/
def step (m : Machine H) : Progress H :=
  match m.top.code[m.top.ip]? with
  | none => finish m.state m.top m.below (.ok ())
  | some (i, _) =>
    let a := { m.top with ip := m.top.ip + 1 }
    match execute m.state a m.below i with
    | .next s a => .running ⟨s, a, m.below⟩
    | .stop s e => finish s a m.below (.error (a.exception e))
    | .load s source name origin => load s source name origin (a :: m.below)

end Ember.Machine
