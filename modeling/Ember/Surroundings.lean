import Ember.Table
import Ember.Text.Utf8

/-!
# Surroundings

What a program can ask about the world outside: environment variables, files, the working
directory and the time. A `FileTree` is a set of files below a working directory; `FileTree.find`
walks a path through it part by part.
-/

namespace Ember

/-- What stands at a path. -/
inductive Found where
  | file (bytes : ByteArray)
  | directory
  | missing
  /-- A part of the path that has to be a directory is a file. -/
  | throughFile
  | nameTooLong
  /-- There is something, which must not be read. -/
  | denied
  /-- The path holds a zero character. -/
  | zeroCharacter

/-- Why a file cannot be read as text. -/
inductive FileFault where
  | missing | directory | throughFile | nameTooLong | denied | zeroCharacter | notText
deriving DecidableEq, Repr

def FileFault.message : FileFault → String
  | missing => "No such file or directory (os error 2)"
  | directory => "Is a directory (os error 21)"
  | throughFile => "Not a directory (os error 20)"
  | nameTooLong => "File name too long (os error 36)"
  | denied => "Permission denied (os error 13)"
  | zeroCharacter => "file name contained an unexpected NUL byte"
  | notText => "stream did not contain valid UTF-8"

namespace Found

def exists? : Found → Bool
  | file _ | directory | denied => true
  | missing | throughFile | nameTooLong | zeroCharacter => false

def text : Found → Except FileFault String
  | file bytes => match Text.Utf8.decode? bytes with
    | .ok s => .ok s
    | .error _ => .error .notText
  | directory => .error .directory
  | missing => .error .missing
  | throughFile => .error .throughFile
  | nameTooLong => .error .nameTooLong
  | denied => .error .denied
  | zeroCharacter => .error .zeroCharacter

end Found

/-! ## Trees of files -/

/-- Files by the parts of their paths below the working directory. -/
abbrev FileTree := List (List String × ByteArray)

namespace FileTree

/-- The parts of a path between slashes. -/
def parts (path : String) : List String := path.splitOn "/"

/-- A place on the way: in the tree, at a file, or in a directory outside the tree. -/
inductive Location where
  | inside (path : List String)
  | atFile (bytes : ByteArray)
  | outside

/-- Is there a file below this path? -/
def isDirectory (t : FileTree) (path : List String) : Bool :=
  path.isEmpty || t.any fun e => path.isPrefixOf e.1 && e.1 ≠ path

/-- One part further on. -/
def walk (t : FileTree) : Location → String → Except Found Location
  | .atFile _, _ => .error .throughFile
  | l, "" | l, "." => .ok l
  | .outside, ".." => .ok .outside
  | .outside, _ => .error .missing
  | .inside [], ".." => .ok .outside
  | .inside path, ".." => .ok (.inside path.dropLast)
  | .inside path, name =>
    if 255 < name.utf8ByteSize then .error .nameTooLong
    else
      let path := path ++ [name]
      match t.find? (·.1 = path) with
      | some e => .ok (.atFile e.2)
      | none => if t.isDirectory path then .ok (.inside path) else .error .missing

def walkAll (t : FileTree) (l : Location) (names : List String) : Found :=
  match names.foldlM t.walk l with
  | .error f => f
  | .ok (.atFile bytes) => .file bytes
  | .ok (.inside _) | .ok .outside => .directory

def find (t : FileTree) (path : String) : Found :=
  if path.isEmpty then .missing
  else if path.toList.contains '\x00' then .zeroCharacter
  else if 4095 < path.utf8ByteSize then .nameTooLong
  else match parts path with
  | "" :: names => t.walkAll .outside names
  | names => t.walkAll (.inside []) names

end FileTree

/-! ## All surroundings -/

structure Surroundings where
  environment : String → Option String
  find : String → Found
  directory : String
  /-- Nanoseconds since the first of January 1970. -/
  now : Nat

/-- Surroundings that are known as lists. -/
def Surroundings.ofLists (environment : List (String × String)) (files : FileTree) (directory : String)
    (now : Nat) : Surroundings where
  environment name := (environment.find? (·.1 = name)).map Prod.snd
  find := files.find
  directory := directory
  now := now

end Ember
