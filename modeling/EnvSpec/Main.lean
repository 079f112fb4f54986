import EnvSpec.Command.Program

/-!
# Command line

The program on a real machine. Files are read and written where the paths say, and what the system
reports of them is brought to the faults that a run tells apart.
-/
namespace EnvSpec.Main

/-- The fault that the system reports. It gives its code with either sign. -/
def faultOf : IO.Error → FileFault
  | .noFileOrDirectory .. | .noSuchThing .. => .notFound
  | .inappropriateType _ code text =>
    match min code (0 - code) with
    | 20 => .notADirectory
    | 21 => .isDirectory
    | _ => .system text
  | error => .system (toString error)

def attempt {α : Type} (action : IO α) : IO (Except FileFault α) := do
  match ← action.toBaseIO with
  | .ok value => return .ok value
  | .error error => return .error (faultOf error)

instance : Host IO where
  bytes path := attempt (IO.FS.readBinFile path)
  isFile path := do
    let here ← IO.currentDir
    return !(← (here / path).isDir) && (← (here / path).pathExists)
  write path content := attempt (IO.FS.writeFile path content)
  print text := do
    let out ← IO.getStdout
    out.putStr text
    out.flush

end EnvSpec.Main

def main (words : List String) : IO UInt32 := do
  let directory ← IO.currentDir
  let manifest ← IO.getEnv "ENVBOOT_MANIFEST"
  let ending : EnvSpec.Program.Exit ← EnvSpec.Program.run directory.toString manifest words
  if let some message := ending.message then IO.eprintln message
  return ending.code.toUInt32
