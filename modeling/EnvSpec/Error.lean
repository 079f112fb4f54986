import EnvSpec.Files.Fault
import EnvSpec.Manifest.Node
import EnvSpec.Manifest.Format

/-!
# What can go wrong with a manifest

Each cause is a value that carries what its message names; the wording is in `message` alone.
-/
namespace EnvSpec

/-- A word that has to be one of a fixed list. -/
inductive WordKind where
  | variant | channel | target
deriving Repr, DecidableEq

namespace WordKind

def name : WordKind → String
  | variant => "variant"
  | channel => "channel"
  | target => "target"

def expected : WordKind → String
  | variant => "`cpu`, `gpu`"
  | channel => "`standard`, `pip`"
  | target => "`conda`, `pip`"

end WordKind

/-- A word that is none of the expected ones, as it was given. -/
structure UnknownWord where
  kind : WordKind
  value : String
deriving Repr, DecidableEq

def UnknownWord.message (w : UnknownWord) : String :=
  s!"Invalid {w.kind.name} `{w.value}`: expected one of {w.kind.expected}"

/-- Why a text is no section path. Positions count the pieces between dots from one. -/
inductive PathFault where
  | empty
  | emptySegment (position : Nat)
deriving Repr, DecidableEq

def PathFault.message : PathFault → String
  | empty => "path is empty"
  | emptySegment position => s!"empty segment at position {position}"

/-- Why an entry of a section is no dependency. -/
inductive EntryFault where
  | blankName
  | unknownChannel (word : UnknownWord)
  | notAVersion (found : NodeKind)
  | badConstraint (text : String)
deriving Repr, DecidableEq

def EntryFault.message : EntryFault → String
  | blankName => "empty package name"
  | unknownChannel word => word.message
  | notAVersion found => s!"expected a version string, found a {found.describe}"
  | badConstraint text => s!"invalid version constraint `{text}`"

/-- Why a text is no manifest. -/
inductive TextFault where
  | malformed
  | rootNotATable
deriving Repr, DecidableEq

inductive ManifestError where
  | missingKey (path segment : String)
  | noDependencies (path segment : String) (found : NodeKind)
  | badPath (path : String) (fault : PathFault)
  | badEntry (path name : String) (fault : EntryFault)
  | malformedText (format : Format) (fault : TextFault)
  | unknownFormat (found : String)
  | file (path : String) (fault : FileFault)
deriving Repr, DecidableEq

def ManifestError.message : ManifestError → String
  | missingKey path segment => s!"Section `{path}` not found: no key `{segment}`"
  | noDependencies path segment found =>
    s!"Section `{path}` is not a dependency list: `{segment}` is a {found.describe}"
  | badPath path fault => s!"Invalid section path `{path}`: {fault.message}"
  | badEntry path name fault => s!"Invalid dependency `{name}` in `{path}`: {fault.message}"
  | malformedText format .malformed => s!"Failed to parse {format.name} manifest"
  | malformedText format .rootNotATable =>
    s!"Failed to parse {format.name} manifest: top-level value must be an object"
  | unknownFormat found => s!"Unsupported manifest format: {found}"
  | file path fault => s!"I/O error at {path}: {fault.message}"

end EnvSpec
