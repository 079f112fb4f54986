import EnvSpec.Error
import EnvSpec.Json.Number
import EnvSpec.Manifest.Basic
import EnvSpec.Text.Reader

/-!
# Reading JSON

The whole grammar is checked, and of what is read a manifest keeps the strings, the objects in the
order of their members and the kind of every other value. A member that is given again keeps its
first place and its last value. Objects and arrays may be nested 127 deep.
-/
namespace EnvSpec.Json

open Text Text.Reader

/-- How deep objects and arrays may be nested. -/
def maxDepth : Nat := 127

def isBlank (c : Char) : Bool := c = ' ' || c = '\t' || c = '\n' || c = '\r'

def skipBlanks : Reader Unit := skipWhile isBlank

/-- Sixteen bits from four hexadecimal digits. -/
def hexUnit : Reader Nat := fun input =>
  match take 4 input with
  | some (digits, rest) => (numeral? 16 digits).map (·, rest)
  | none => none

/-- The character after `\u`. Characters beyond sixteen bits are written as a leading and a
trailing surrogate; a surrogate by itself is an error. -/
def unicodeEscape : Reader Char := do
  let unit ← hexUnit
  if 0xD800 ≤ unit ∧ unit < 0xDC00 then
    skip "\\u"
    let trail ← hexUnit
    guard (0xDC00 ≤ trail && trail < 0xE000)
    return Char.ofNat (0x10000 + (unit - 0xD800) * 0x400 + (trail - 0xDC00))
  else
    guard (!(0xDC00 ≤ unit && unit < 0xE000))
    return Char.ofNat unit

/-- The character after a backslash. -/
def escaped : Reader Char := do
  match ← next with
  | '"' => return '"'
  | '\\' => return '\\'
  | '/' => return '/'
  | 'b' => return '\x08'
  | 'f' => return '\x0C'
  | 'n' => return '\n'
  | 'r' => return '\r'
  | 't' => return '\t'
  | 'u' => unicodeEscape
  | _ => failure

/-- The rest of a string after its opening quote, which is kept in reverse while it is read. -/
def stringBody : Reader String :=
  loop (fun (reversed : List Char) => do
    match ← next with
    | '"' => return .done (String.ofList reversed.reverse)
    | '\\' => return .again ((← escaped) :: reversed)
    | c => do guard (0x20 ≤ c.toNat); return .again (c :: reversed)) []

def string : Reader String := do
  skip "\""
  stringBody

def digits : Reader (List Char) := do
  let ds ← takeWhile Char.isDigit
  guard (!ds.isEmpty)
  return ds

/-- A number, read for its form and its range only. -/
def number : Reader Node := do
  let _ ← skip? "-"
  let whole ← digits
  guard (whole.length = 1 || whole.head? != some '0')
  let fraction ← if ← skip? "." then digits else pure []
  let exponent ←
    if (← peek) = some 'e' ∨ (← peek) = some 'E' then do
      let _ ← next
      let negative ← skip? "-"
      if !negative then let _ ← skip? "+"
      match numeral? 10 (← digits) with
      | some n => pure (if negative then -(n : Int) else n)
      | none => failure
    else pure 0
  let d := significandOf whole fraction
  guard (isFinite { d with exponent := d.exponent + exponent })
  return .other .number

/-- Items between `open` and `close`, separated by commas; `item` reads one and adds it. -/
def items {α : Type} (close : String) (item : α → Reader α) (start : α) : Reader α := do
  skipBlanks
  if ← skip? close then return start
  loop (fun state => do
    let state ← item state
    skipBlanks
    if ← skip? close then return .done state
    skip ","
    return .again state) start

/-- A value whose nested values are read by `nested`; there is none where no container may be
opened any more. -/
def valueWith (nested : Option (Reader Node)) : Reader Node := do
  skipBlanks
  match ← peek, nested with
  | some '"', _ => return .string (← string)
  | some 't', _ => skip "true"; return .other .boolean
  | some 'f', _ => skip "false"; return .other .boolean
  | some 'n', _ => skip "null"; return .other .null
  | some '[', some value =>
    skip "["
    items "]" (fun (_ : Unit) => do let _ ← value) ()
    return .other .array
  | some '\x7b', some value =>
    skip "\x7b"
    let members ← items "\x7d" (fun (members : Entries String Node) => do
      skipBlanks
      let key ← string
      skipBlanks
      skip ":"
      return members.insert key (← value)) []
    return .table ⟨true, members⟩
  | _, _ => number

/-- A value in which containers are nested at most `depth` deep. -/
def value : Nat → Reader Node
  | 0 => valueWith none
  | depth + 1 => valueWith (some (value depth))

/-- A single value with blanks around it. -/
def document : Reader Node := do
  let node ← value maxDepth
  skipBlanks
  return node

/-- The manifest that a JSON text writes; the outermost value has to be an object. -/
def readManifest (source : String) : Except TextFault Manifest :=
  match runAll document source with
  | none => .error .malformed
  | some (.table root) => .ok ⟨root⟩
  | some _ => .error .rootNotATable

end EnvSpec.Json
