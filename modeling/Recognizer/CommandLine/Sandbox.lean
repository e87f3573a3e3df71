import Recognizer.CommandLine.Session

/-!
A host that holds a directory, an input and what was printed in memory. A directory below it exists
if a file lies in it. Paths may lead out of it, to directories that hold it or to those of the
machine: these exist, but of what is in them only some devices are known, and nothing written to
them is kept.
-/

namespace Recognizer.CommandLine

structure Sandbox where
  files : List (List String × ByteArray)
  input : ByteArray
  printed : String
  complaints : String

namespace Sandbox

inductive Directory where
  /-- The sandbox or a directory below it, by the names that lead there. -/
  | inside (names : List String)
  | outside
  | root
  | devices
  deriving DecidableEq

inductive Device where
  | null
  | input
  | output
  | complaints
  deriving DecidableEq

inductive Place where
  | directory (directory : Directory)
  | file (names : List String) (bytes : ByteArray)
  /-- A name without a file, in the sandbox or a directory below it. -/
  | vacant (names : List String)
  | device (device : Device)
  | missing

def segments (path : String) : List String := (split path.toList).filter (· ≠ "")
where
  split : List Char → List String
    | [] => [""]
    | character :: rest =>
      match character, split rest with
      | '/', names => "" :: names
      | _, [] => [String.singleton character]
      | _, name :: names => (String.singleton character ++ name) :: names

def deviceOf? (name : String) : Option Device :=
  match name with
  | "null" => some .null
  | "stdin" => some .input
  | "stdout" => some .output
  | "stderr" => some .complaints
  | _ => none

def systemNames : List String :=
  ["bin", "boot", "etc", "home", "lib", "media", "mnt", "opt", "proc", "root", "run", "sbin", "srv",
    "sys", "tmp", "usr", "var"]

def above : Directory → Directory
  | .inside [] | .outside => .outside
  | .inside names => .inside names.dropLast
  | .root | .devices => .root

def placeInside (sandbox : Sandbox) (names : List String) : Place :=
  match sandbox.files.lookup names with
  | some bytes => .file names bytes
  | none =>
    if sandbox.files.any fun file => names.isPrefixOf file.1 then .directory (.inside names)
    else .vacant names

def placeNamed (sandbox : Sandbox) (directory : Directory) (name : String) : Place :=
  match directory with
  | .inside names => sandbox.placeInside (names ++ [name])
  | .outside => .missing
  | .root =>
    if name = "dev" then .directory .devices
    else if name ∈ systemNames then .directory .outside
    else .missing
  | .devices => ((deviceOf? name).map .device).getD .missing

def notADirectory : Unreadable := .other "Not a directory (os error 20)"

def nameTooLong : Unreadable := .other "File name too long (os error 36)"

/-- One point stays in a directory and two lead up. A name has at most 255 bytes. -/
def place (sandbox : Sandbox) (directory : Directory) (name : String) : Except Unreadable Place :=
  if name = "." then .ok (.directory directory)
  else if name = ".." then .ok (.directory (above directory))
  else if 255 < name.utf8ByteSize then .error nameTooLong
  else .ok (sandbox.placeNamed directory name)

def enter (sandbox : Sandbox) (directory : Directory) (name : String) :
    Except Unreadable Directory := do
  match ← sandbox.place directory name with
  | .directory next => return next
  | .file _ _ | .device _ => throw notADirectory
  | .vacant _ | .missing => throw .notFound

def walkTo (sandbox : Sandbox) (path : String) : Except Unreadable (Directory × Option String) := do
  if '\x00' ∈ path.toList then throw (.other "file name contained an unexpected NUL byte")
  if path = "" then throw .notFound
  if 4096 ≤ path.utf8ByteSize then throw nameTooLong
  let start : Directory := if path.toList.head? = some '/' then .root else .inside []
  let names := segments path
  return (← names.dropLast.foldlM sandbox.enter start, names.getLast?)

def locate (sandbox : Sandbox) (path : String) : Except Unreadable Place := do
  match ← sandbox.walkTo path with
  | (directory, none) => return .directory directory
  | (directory, some name) => sandbox.place directory name

def asksForDirectory (path : String) : Bool := path.toList.getLast? = some '/'

/-- The content at a path. The input can be read once, and nothing comes from the other devices. -/
def read (sandbox : Sandbox) (path : String) : Content × Sandbox :=
  match sandbox.locate path with
  | .error cause => (.error cause, sandbox)
  | .ok (.directory _) => (.error .isDirectory, sandbox)
  | .ok (.vacant _) | .ok .missing => (.error .notFound, sandbox)
  | .ok (.file _ bytes) =>
    (if asksForDirectory path then .error notADirectory else .ok bytes, sandbox)
  | .ok (.device device) =>
    if asksForDirectory path then (.error notADirectory, sandbox)
    else if device = .input then (.ok sandbox.input, { sandbox with input := ByteArray.empty })
    else (.ok ByteArray.empty, sandbox)

def writeTo (sandbox : Sandbox) (content : String) : Device → Sandbox
  | .null | .input => sandbox
  | .output => { sandbox with printed := sandbox.printed ++ content }
  | .complaints => { sandbox with complaints := sandbox.complaints ++ content }

/-- A path that asks for a directory is refused before its last name is looked up. -/
def write (sandbox : Sandbox) (path content : String) : Except Unreadable Sandbox := do
  let (directory, last) ← sandbox.walkTo path
  if asksForDirectory path then throw .isDirectory
  match last with
  | none => throw .isDirectory
  | some name =>
    match ← sandbox.place directory name with
    | .directory _ => throw .isDirectory
    | .file names _ | .vacant names =>
      return { sandbox with files := OrderedTable.putEntry names content.toUTF8 sandbox.files }
    | .device device => return sandbox.writeTo content device
    | .missing => return sandbox

def host : Host (StateM Sandbox) where
  read path := modifyGet fun sandbox => sandbox.read path
  write path content := do
    match (← get).write path content with
    | .error cause => return .error cause
    | .ok after =>
      set after
      return .ok ()
  input := modifyGet fun sandbox => (sandbox.input, { sandbox with input := ByteArray.empty })
  print text := modify fun sandbox => { sandbox with printed := sandbox.printed ++ text }
  complain text :=
    modify fun sandbox => { sandbox with complaints := sandbox.complaints ++ text }

def written (before after : Sandbox) : List (List String × ByteArray) :=
  after.files.filter fun file =>
    (before.files.lookup file.1).map ByteArray.data ≠ some file.2.data

end Sandbox

end Recognizer.CommandLine
