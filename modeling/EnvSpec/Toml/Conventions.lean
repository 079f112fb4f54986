/-!
# Reading conventions

TOML fixes what a document means up to a few points that it leaves to the reader: what a line break
inside a string becomes, how much may be nested, and what a float is that no double can hold. Each
use of TOML decides them once, for all documents that it reads.
-/
namespace EnvSpec.Toml

/-- What a carriage return and the line feed after it become inside a string. -/
inductive BreakReading where
  | asWritten
  | lineFeed
deriving Repr, DecidableEq

/-- The line break that a carriage return and a line feed are read as. -/
def BreakReading.text : BreakReading → List Char
  | asWritten => ['\r', '\n']
  | lineFeed => ['\n']

/-- The points that are left to the reader. Arrays and tables between braces may be nested
`maxDepth` deep, a dotted key has at most `maxKeyParts` parts, and a number below all finite doubles
is a float only if `negativeOverflow` allows it; one above them never is. -/
structure Conventions where
  lineBreaks : BreakReading
  maxDepth : Nat
  maxKeyParts : Nat
  negativeOverflow : Bool
deriving Repr, DecidableEq

end EnvSpec.Toml
