import Ember.Command
import Ember.Machine.Question
import Std.Time.DateTime.Timestamp

/-!
# The program

The command in a real environment: it reads the files and variables that the command and its
program ask for, passes on what they write, and runs the machine step by step.
-/

namespace Ember

/-! ## Asking the environment -/

/-- The system's number of an error, which some operations report with its sign turned. -/
def systemCode (e : IO.Error) : UInt32 :=
  match e with
  | .alreadyExists _ c _ | .otherError c _ | .resourceBusy c _ | .resourceVanished c _
  | .unsupportedOperation c _ | .hardwareFault c _ | .unsatisfiedConstraints c _
  | .illegalOperation c _ | .protocolError c _ | .timeExpired c _ | .interrupted _ c _
  | .noFileOrDirectory _ c _ | .invalidArgument _ c _ | .permissionDenied _ c _
  | .resourceExhausted _ c _ | .inappropriateType _ c _ | .noSuchThing _ c _ => min c (0 - c)
  | .unexpectedEof | .userError _ => 0

/-- What an error of reading a file says about the path. -/
def Found.ofSystemCode (code : UInt32) : Found :=
  if code = 13 then .denied
  else if code = 20 then .throughFile
  else if code = 21 then .directory
  else if code = 36 then .nameTooLong
  else .missing

/-- What stands at a path. -/
def lookAt (path : String) : IO Found := do
  if path.contains '\x00' then return .zeroCharacter
  match ← (IO.FS.readBinFile path).toBaseIO with
  | .ok bytes => return .file bytes
  | .error e => return .ofSystemCode (systemCode e)

/-- Nanoseconds since the first of January 1970. -/
def currentTime : IO Nat := do
  return (← Std.Time.Timestamp.now).toNanosecondsSinceUnixEpoch.toInt.toNat

namespace Surroundings

/-- The same surroundings, which also know what stands at a path. -/
def learnFile (w : Surroundings) (path : String) : IO Surroundings := do
  let found ← lookAt path
  return { w with find := fun p => if p = path then found else w.find p }

/-- The same surroundings, which also know the value of a variable. -/
def learnVariable (w : Surroundings) (name : String) : IO Surroundings := do
  let value ← IO.getEnv name
  return { w with environment := fun n => if n = name then value else w.environment n }

/-- Answers a question of the machine. -/
def learn (w : Surroundings) : Machine.Question → IO Surroundings
  | .file path => w.learnFile path
  | .environment names => names.foldlM learnVariable w
  | .time => return { w with now := ← currentTime }

end Surroundings

/-! ## Running -/

/-- Passes on what was written, in its order. -/
def Standard.drain (h : Standard) : IO Standard := do
  for (stream, bytes) in h.pending.writes.reverse do
    let out ← match stream with
      | .stdout => IO.getStdout
      | _ => IO.getStderr
    out.write bytes
    out.flush
  return Standard.new

/-- Runs a machine to its end. Questions are answered before the step that asks them. -/
partial def drive : Progress Standard → IO UInt8
  | .running m => do
    let w ← match m.question? with
      | some q => m.state.surroundings.learn q
      | none => pure m.state.surroundings
    let host ← m.state.host.drain
    drive { m with state := { m.state with surroundings := w, host := host } }.step
  | .done s a => do
    let e := Command.conclude s a
    let _ ← e.host.drain
    return e.code

/-- The files that the command itself reads. -/
def Command.paths (arguments : List String) : List String :=
  match options arguments with
  | .error _ => []
  | .ok o => o.file :: o.config.toList

end Ember

open Ember in
def main (arguments : List String) : IO UInt32 := do
  let unknown : Surroundings := Surroundings.ofLists [] [] (← IO.currentDir).toString 0
  let w ← (Command.paths arguments).foldlM Surroundings.learnFile unknown
  match Command.start w arguments with
  | .over e => do
    let _ ← e.host.drain
    return e.code.toUInt32
  | .loading p => return (← drive p).toUInt32
