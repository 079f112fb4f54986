import EnvSpec.Files.Host
import EnvSpec.Files.Path
import EnvSpec.Manifest.Parse

/-!
# Manifests from files

The format is decided by the path before the file is looked at.
-/
namespace EnvSpec

/-- The format of the file at a path. An extension that stands for none is named in the error, and
the whole path is where there is no extension. -/
def Format.ofPath (path : String) : Except ManifestError Format :=
  let extension := (Files.extension? path).getD ""
  match Format.ofExtension? extension with
  | some format => .ok format
  | none =>
    .error (.unknownFormat (if extension = "" then path else s!".{extension}"))

/-- The manifest in the file at a path. -/
def Manifest.load {m : Type → Type} [Monad m] [Host m] (path : String) :
    ExceptT ManifestError m Manifest := do
  let format ← ExceptT.mk (pure (Format.ofPath path))
  match ← ExceptT.lift (Host.text path) with
  | .ok source => ExceptT.mk (pure (Manifest.parse format source))
  | .error fault => throw (.file path fault)

end EnvSpec
