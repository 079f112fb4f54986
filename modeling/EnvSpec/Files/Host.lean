import EnvSpec.Files.Tree

/-!
# Hosts

What a command needs of the machine it runs on: to read and write files and to print. A machine as
a value, its file tree and what it has printed so far, is a host on which commands are functions.
-/
namespace EnvSpec

class Host (m : Type → Type) where
  bytes : String → m (Except FileFault ByteArray)
  isFile : String → m Bool
  write : String → String → m (Except FileFault Unit)
  print : String → m Unit

namespace Host

variable {m : Type → Type} [Monad m] [Host m]

/-- The text of a file, which has to be well-formed. -/
def text (path : String) : m (Except FileFault String) := do
  match ← bytes path with
  | .error fault => return .error fault
  | .ok content =>
    match String.fromUTF8? content with
    | some text => return .ok text
    | none => return .error .notText

end Host

structure Machine where
  files : FileTree
  output : String

namespace Machine

def write (machine : Machine) (path content : String) : Except FileFault Unit × Machine :=
  match machine.files.write path content.toUTF8 with
  | .ok files => (.ok (), { machine with files })
  | .error fault => (.error fault, machine)

instance : Host (StateM Machine) where
  bytes path := do return (← get).files.read path
  isFile path := do return (← get).files.isFile path
  write path content := modifyGet (·.write path content)
  print text := modify fun machine => { machine with output := machine.output ++ text }

end Machine

end EnvSpec
