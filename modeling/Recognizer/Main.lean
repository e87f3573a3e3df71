import Recognizer.CommandLine.Session

/-!
The program on a machine's own files and streams.
-/

namespace Recognizer

open CommandLine

def causeOf (failure : IO.Error) : Unreadable :=
  match failure with
  | .noFileOrDirectory .. => .notFound
  | .inappropriateType .. => .isDirectory
  | other => .other (toString other)

def machine : Host IO where
  read path := do
    match ← (IO.FS.readBinFile path).toBaseIO with
    | .ok bytes => return .ok bytes
    | .error failure => return .error (causeOf failure)
  write path content := do
    match ← (IO.FS.writeFile path content).toBaseIO with
    | .ok () => return .ok ()
    | .error failure => return .error (causeOf failure)
  input := do (← IO.getStdin).readBinToEnd
  print text := IO.print text
  complain text := IO.eprint text

end Recognizer

def main (arguments : List String) : IO UInt32 := do
  return (← Recognizer.CommandLine.run Recognizer.machine arguments).code
