/-!
# Faults of files
-/
namespace EnvSpec

/-- Why a file could not be read or written. -/
inductive FileFault where
  | notFound
  | isDirectory
  | notADirectory
  | notText
  | system (text : String)
deriving Repr, DecidableEq

def FileFault.message : FileFault → String
  | notFound => "No such file or directory (os error 2)"
  | isDirectory => "Is a directory (os error 21)"
  | notADirectory => "Not a directory (os error 20)"
  | notText => "stream did not contain valid UTF-8"
  | system text => text

end EnvSpec
