import EnvSpec.Error
import EnvSpec.Toml.Item
import EnvSpec.Toml.Quoted
import EnvSpec.Toml.Scalar

/-!
# Reading TOML

A document is read line by line into statements, and the statements are then put together.
-/
namespace EnvSpec.Toml

open Text Text.Reader Quoted

def isBareKey (c : Char) : Bool := c.isAlphanum || c = '_' || c = '-'

def skipBlanks : Reader Unit := skipWhile isSpaceOrTab

/-- A comment, if there is one, up to the end of its line. -/
def skipComment : Reader Unit := do
  if ← skip? "#" then skipWhile isPlain

def simpleKey : Reader String := do
  match ← peek with
  | some '"' => line '"'
  | some '\'' => line '\''
  | _ =>
    let cs ← takeWhile isBareKey
    guard (!cs.isEmpty)
    return String.ofList cs

/-- The parts of a dotted key before the last, and the last one. -/
def dottedKey (conventions : Conventions) : Reader (List String × String) := do
  let reversed ← loop (fun (reversed : List String) => do
    skipBlanks
    let key ← simpleKey
    skipBlanks
    if ← skip? "." then return .again (key :: reversed)
    else return .done (key :: reversed)) []
  guard (reversed.length ≤ conventions.maxKeyParts)
  match reversed with
  | key :: parents => return (parents.reverse, key)
  | [] => failure

def isScalarChar (c : Char) : Bool := c.isAlphanum || ['_', '+', '-', '.', ':'].contains c

/-- The characters of an unquoted value. A date may be followed by a blank and a time. -/
def scalarText : Reader (List Char) := do
  let cs ← takeWhile isScalarChar
  match ← rest with
  | ' ' :: c :: _ =>
    if DateTime.isDate cs && c.isDigit then
      skip " "
      return cs ++ ' ' :: (← takeWhile isScalarChar)
    else return cs
  | _ => return cs

def scalar (conventions : Conventions) : Reader Item := do
  match Scalar.kind? conventions (← scalarText) with
  | some kind => return .scalar kind
  | none => failure

/-- Blanks, comments and line breaks, which may stand between the items of an array. -/
def skipLines : Reader Unit :=
  loop (fun (_ : Unit) => do
    skipBlanks
    skipComment
    if ← newline? then return .again () else return .done ()) ()

/-- The rest of an array after its bracket. A comma may follow the last item. -/
def arrayBody (value : Reader Item) : Reader Item :=
  loop (fun (reversed : List Item) => do
    skipLines
    if ← skip? "]" then return .done (.array reversed.reverse)
    let item ← value
    skipLines
    if ← skip? "]" then return .done (.array (item :: reversed).reverse)
    skip ","
    return .again (item :: reversed)) []

/-- An assignment: the keys that lead to its table, the key and the value. -/
def assignment (conventions : Conventions) (value : Reader Item) :
    Reader (List String × String × Item) := do
  let (path, key) ← dottedKey conventions
  skip "="
  skipBlanks
  return (path, key, ← value)

/-- The rest of a table between braces, which stands on one line and has no comma at its end. -/
def bracesBody (conventions : Conventions) (value : Reader Item) : Reader Item := do
  skipBlanks
  if ← skip? "\x7d" then return .table .braces []
  loop (fun (items : Items) => do
    let (path, key, item) ← assignment conventions value
    let items ← StateT.lift (items.assign key item path)
    skipBlanks
    if ← skip? "\x7d" then return .done (.table .braces items)
    skip ","
    return .again items) []

/-- A value whose nested values are read by `nested`; there is none where no array or table may be
opened any more. -/
def valueWith (conventions : Conventions) (nested : Option (Reader Item)) : Reader Item := do
  match ← peek, nested with
  | some '"', _ => return .string (← string conventions '"')
  | some '\'', _ => return .string (← string conventions '\'')
  | some '[', some value => skip "["; arrayBody value
  | some '\x7b', some value => skip "\x7b"; bracesBody conventions value
  | _, _ => scalar conventions

/-- A value in which arrays and tables are nested at most `depth` deep. -/
def value (conventions : Conventions) : Nat → Reader Item
  | 0 => valueWith conventions none
  | depth + 1 => valueWith conventions (some (value conventions depth))

/-- The statement of a line; there is none on blank lines and lines with only a comment. -/
def statement? (conventions : Conventions) : Reader (Option Statement) := do
  skipBlanks
  match ← peek with
  | none | some '#' | some '\n' | some '\r' => return none
  | some '[' =>
    if ← skip? "[[" then
      let (parent, key) ← dottedKey conventions
      skip "]]"
      return some (.element parent key)
    else
      skip "["
      let (parent, key) ← dottedKey conventions
      skip "]"
      return some (.table parent key)
  | some _ =>
    let (path, key, item) ← assignment conventions (value conventions conventions.maxDepth)
    return some (.assign path key item)

/-- All statements of a document. A byte order mark in front is skipped. -/
def statements (conventions : Conventions) : Reader (List Statement) := do
  let _ ← skip? "\uFEFF"
  loop (fun (reversed : List Statement) => do
    let reversed := (← statement? conventions).toList ++ reversed
    skipBlanks
    skipComment
    if ← newline? then return .again reversed
    guard ((← atEnd) = true)
    return .done reversed.reverse) []

/-- The document that a TOML text writes. -/
def readDocument? (conventions : Conventions) (source : String) : Option Document :=
  (runAll (statements conventions) source).bind Document.ofStatements?

/-- Manifests keep strings as they are written. -/
def manifestConventions : Conventions where
  lineBreaks := .asWritten
  maxDepth := 80
  maxKeyParts := 80
  negativeOverflow := false

def readManifest (source : String) : Except TextFault Manifest :=
  match readDocument? manifestConventions source with
  | some document => .ok document.manifest
  | none => .error .malformed

end EnvSpec.Toml
