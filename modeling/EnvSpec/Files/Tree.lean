import EnvSpec.Entries
import EnvSpec.Files.Fault
import EnvSpec.Text.Pieces

/-!
# File trees

The files and directories of a machine by their location, the list of names that lead there from
the root. A path text is followed component by component, and whatever is not its last component
has to be a directory. Writing changes the entry at one location and nothing else.
-/
namespace EnvSpec

/-- What stands at a location. -/
inductive FileEntry where
  | file (content : ByteArray)
  | directory

abbrev Location := List String

abbrev FileTree := Entries Location FileEntry

namespace FileTree

/-- The entry at a location; the root is always a directory. -/
def entry? (tree : FileTree) (here : Location) : Option FileEntry :=
  if here = [] then some .directory else Entries.get? tree here

/-- Passes if there is a directory at the location. -/
def checkDirectory (tree : FileTree) (here : Location) : Except FileFault Unit :=
  match tree.entry? here with
  | some .directory => .ok ()
  | some (.file _) => .error .notADirectory
  | none => .error .notFound

/-- The location one component further. -/
def step (here : Location) (component : String) : Location :=
  if component = "" ∨ component = "." then here
  else if component = ".." then here.dropLast
  else here ++ [component]

/-- Follows components from a location; each one is looked up in a directory. -/
def follow (tree : FileTree) (here : Location) : List String → Except FileFault Location
  | [] => .ok here
  | component :: rest => do
    tree.checkDirectory here
    tree.follow (step here component) rest

def locate (tree : FileTree) (path : String) : Except FileFault Location :=
  tree.follow [] (Text.pieces '/' path)

def read (tree : FileTree) (path : String) : Except FileFault ByteArray := do
  match tree.entry? (← tree.locate path) with
  | some (.file content) => return content
  | some .directory => throw .isDirectory
  | none => throw .notFound

def isFile (tree : FileTree) (path : String) : Bool :=
  match tree.read path with
  | .ok _ => true
  | .error _ => false

/-- The components up to the last one that is not empty. -/
def named (components : List String) : List String :=
  (components.reverse.dropWhile (· = "")).reverse

/-- The location of the file that is to be written. Its directory has to be there, and the path
may not end like that of a directory. -/
def locateNew (tree : FileTree) (path : String) : Except FileFault Location := do
  let components := Text.pieces '/' path
  match (named components).getLast? with
  | none => throw .isDirectory
  | some name =>
    let parent ← tree.follow [] (named components).dropLast
    tree.checkDirectory parent
    if (named components).length < components.length ∨ name = "." ∨ name = ".." then
      throw .isDirectory
    return parent ++ [name]

/-- The tree after the whole content of a file was replaced. -/
def write (tree : FileTree) (path : String) (content : ByteArray) : Except FileFault FileTree := do
  let location ← tree.locateNew path
  match tree.entry? location with
  | some .directory => throw .isDirectory
  | _ => return Entries.insert tree location (.file content)

/-- A write that succeeds changes the entry at the location of its path and no other. -/
theorem entry?_write {tree written : FileTree} {path : String} {content : ByteArray}
    (h : tree.write path content = .ok written) :
    ∃ location, tree.locateNew path = .ok location ∧
      ∀ here, here ≠ [] → written.entry? here =
        if here = location then some (.file content) else tree.entry? here := by
  unfold write at h
  cases hl : tree.locateNew path with
  | error fault => rw [hl] at h; cases h
  | ok location =>
    refine ⟨location, rfl, fun here hne => ?_⟩
    rw [hl] at h
    have hw : written = Entries.insert tree location (.file content) := by
      cases he : tree.entry? location with
      | none => simp [bind, Except.bind, he, pure, Except.pure] at h; exact h.symm
      | some entry =>
        cases entry with
        | directory => simp [bind, Except.bind, he, throw, throwThe, MonadExceptOf.throw] at h
        | file old => simp [bind, Except.bind, he, pure, Except.pure] at h; exact h.symm
    rw [hw, entry?, entry?, if_neg hne, if_neg hne, Entries.get?_insert]

end FileTree

end EnvSpec
