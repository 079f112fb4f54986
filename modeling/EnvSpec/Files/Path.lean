import EnvSpec.Text.Pieces

/-!
# Path texts

A path is a text whose components stand between slashes. Joining keeps the texts as they are
written. The file name is the last component, not counting empty ones and single dots; its
extension is what follows its last dot, provided something stands before that dot.
-/
namespace EnvSpec.Files

/-- `path` as seen from the directory `base`; an absolute path stays itself. -/
def join (base path : String) : String :=
  if path.toList.head? = some '/' then path
  else if base.toList.getLast?.all (· = '/') then base ++ path
  else base ++ "/" ++ path

def fileName? (path : String) : Option String :=
  match ((Text.pieces '/' path).filter fun c => c ≠ "" ∧ c ≠ ".").getLast? with
  | some name => if name = ".." then none else some name
  | none => none

def extension? (path : String) : Option String := do
  let name ← fileName? path
  let parts := Text.pieces '.' name
  if parts.length < 2 ∨ parts.dropLast = [""] then none else parts.getLast?

end EnvSpec.Files
