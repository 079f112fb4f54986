import EnvSpec.Json.Reader
import EnvSpec.Toml.Reader

/-!
# Manifests from text
-/
namespace EnvSpec

/-- The manifest that a text writes in a format. -/
def Manifest.parse (format : Format) (source : String) : Except ManifestError Manifest :=
  let read :=
    match format with
    | .toml => Toml.readManifest source
    | .json => Json.readManifest source
  read.mapError (ManifestError.malformedText format)

end EnvSpec
