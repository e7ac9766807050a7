import Ember.Config.Reader
import Ember.Machine.Run
import Ember.Output.Standard
import Ember.Source.Program.Document

/-!
# The command

`ember FILE` loads a file as a module, under the file's name without its extension unless another
is given. Its configuration can come from a file, and instead of being loaded the program can be
shown as a document. The exit code is zero for success, one for a failure and two for arguments
that make no sense. The command is started and concluded by pure functions, between which a machine
runs.
-/

namespace Ember.Command

/-! ## Arguments -/

structure Options where
  file : String
  name : Option String
  config : Option String
  dump : Bool
deriving DecidableEq, Repr

inductive UsageError where
  | noValue (option : String)
  | unknownOption (option : String)
  | unexpected (argument : String)
  | noFile
deriving DecidableEq, Repr

def UsageError.message : UsageError → String
  | noValue option => s!"{option} requires a value"
  | unknownOption option => s!"Unknown option: {option}"
  | unexpected argument => s!"Unexpected argument: {argument}"
  | noFile => "Usage: ember <file> [--name NAME] [--config FILE] [--dump-ast]"

/-- Options that may lack a file yet. -/
structure Partial where
  file : Option String
  name : Option String
  config : Option String
  dump : Bool

/-- Reads arguments from left to right; later values of an option replace earlier ones. -/
def readArguments (p : Partial) : List String → Except UsageError Partial
  | [] => .ok p
  | "--name" :: value :: rest => readArguments { p with name := some value } rest
  | ["--name"] => .error (.noValue "--name")
  | "--config" :: value :: rest => readArguments { p with config := some value } rest
  | ["--config"] => .error (.noValue "--config")
  | "--dump-ast" :: rest => readArguments { p with dump := true } rest
  | argument :: rest =>
    if argument.startsWith "--" then .error (.unknownOption argument)
    else if p.file.isNone then readArguments { p with file := some argument } rest
    else .error (.unexpected argument)

def options (arguments : List String) : Except UsageError Options := do
  let p ← readArguments ⟨none, none, none, false⟩ arguments
  match p.file with
  | some file => return ⟨file, p.name, p.config, p.dump⟩
  | none => .error .noFile

/-! ## Names of files -/

/-- The last part of a path; there is none if that is the parent directory or the root. -/
def fileName? (path : String) : Option String :=
  let names := ((FileTree.parts path).filter fun s => s ≠ "" ∧ s ≠ ".").getLast?
  names.bind fun s => if s = ".." then none else some s

/-- A file's name without its extension, which is what follows the last point. A point at the start
begins no extension. -/
def stem (name : String) : String :=
  let cs := name.toList
  let extension := cs.reverse.takeWhile (· ≠ '.')
  let n := cs.length - extension.length - 1
  if n = 0 ∨ cs.length ≤ extension.length then name else String.ofList (cs.take n)

/-- The name under which a file is loaded. -/
def moduleName (path : String) : String :=
  match fileName? path with
  | some name => stem name
  | none => "__main__"

/-! ## Failures -/

/-- Why nothing is loaded. -/
inductive Failure where
  | file (path : String) (cause : FileFault)
  | program (cause : Source.ParseError)
  | config (path : String) (cause : Config.Error)

def Failure.message : Failure → String
  | file path e => s!"{path}: {e.message}"
  | program e => e.message
  | config path e => s!"{path}: {e.message}"

/-! ## Running -/

/-- How the command ends: what it wrote, and its exit code. -/
structure Ending where
  host : Standard
  code : UInt8

/-- The command before anything is executed: over already, or a machine that is to run. -/
inductive Start where
  | over (e : Ending)
  | loading (p : Progress Standard)

/-- Writes a line to the error stream and ends. -/
def complain (message : String) (code : UInt8) : Ending :=
  ⟨Output.write Standard.new .stderr (message ++ "\n"), code⟩

def readFile (w : Surroundings) (path : String) : Except Failure String :=
  (w.find path).text.mapError (Failure.file path)

def readConfig (w : Surroundings) : Option String → Except Failure Config
  | none => .ok Config.default
  | some path => do
    let json ← readFile w path
    (Config.parse json).mapError (Failure.config path)

/-- The program as a document, in full. -/
def dump (o : Options) (source : String) : Except Failure Ending := do
  let p ← (Source.Program.parse source o.file).mapError Failure.program
  let text := (Source.Program.document p).pretty 0 ++ "\n"
  let bytes := text.toUTF8
  return ⟨(Standard.new.rawWrite bytes 1 bytes.size .stdout).2, 0⟩

def startLoad (w : Surroundings) (o : Options) (source : String) : Except Failure Start := do
  let config ← readConfig w o.config
  let s := Interpreter.new config Standard.new none w
  return .loading (Machine.load s source (o.name.getD (moduleName o.file)) .host [])

def startWith (w : Surroundings) (o : Options) : Except Failure Start := do
  let source ← readFile w o.file
  if o.dump then (dump o source).map .over else startLoad w o source

/-- Starts the command. -/
def start (w : Surroundings) (arguments : List String) : Start :=
  match options arguments with
  | .error e => .over (complain e.message 2)
  | .ok o => match startWith w o with
    | .error e => .over (complain s!"Error: {e.message}" 1)
    | .ok s => s

/-- Ends the command when the machine is done. -/
def conclude (s : Interpreter Standard) : Answer → Ending
  | .loaded (.ok _) | .ran (.ok _) => ⟨s.host, 0⟩
  | .loaded (.error e) | .ran (.error e) => ⟨(s.report e).host, 1⟩

/-- The whole command, if the steps suffice. -/
def run (fuel : Nat) (w : Surroundings) (arguments : List String) : Option Ending :=
  match start w arguments with
  | .over e => some e
  | .loading p => (Machine.run fuel p).map fun (s, a) => conclude s a

end Ember.Command
