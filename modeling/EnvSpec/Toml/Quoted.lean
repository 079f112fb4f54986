import EnvSpec.Text.Numeral
import EnvSpec.Text.Reader
import EnvSpec.Toml.Conventions

/-!
# Quoted strings

Strings stand between double quotes, where a backslash begins an escape, or between single quotes,
where nothing is escaped. Three quotes begin a string over several lines. A line break right after
the opening quotes is not part of it, what becomes of the others is a convention, and one or two
quotes may stand inside, also before the closing ones. Control characters other than the tab have
to be escaped.
-/
namespace EnvSpec.Toml.Quoted

open Text Text.Reader

def isSpaceOrTab (c : Char) : Bool := c = ' ' || c = '\t'

/-- A character that may stand for itself in a string or a comment. -/
def isPlain (c : Char) : Bool := c = '\t' || (0x20 ≤ c.toNat && c.toNat ≠ 0x7F)

/-- Takes a line break, if there is one. -/
def newline? : Reader Bool := do
  if ← skip? "\n" then return true
  skip? "\r\n"

/-- The character whose code point the next `n` hexadecimal digits give. -/
def codePoint (n : Nat) : Reader Char := do
  match numeral? 16 (← take n) with
  | some value =>
    guard (value < 0xD800 ∨ (0xE000 ≤ value ∧ value < 0x110000))
    return Char.ofNat value
  | none => failure

/-- The character after a backslash. -/
def escaped : Reader Char := do
  match ← next with
  | 'b' => return '\x08'
  | 't' => return '\t'
  | 'n' => return '\n'
  | 'f' => return '\x0C'
  | 'r' => return '\r'
  | '"' => return '"'
  | '\\' => return '\\'
  | 'u' => codePoint 4
  | 'U' => codePoint 8
  | _ => failure

/-- What stands behind a backslash that ends its line: everything up to the next character that is
neither a blank nor a line break. -/
def lineContinuation? : Reader Bool := fun input =>
  match newline? (input.dropWhile isSpaceOrTab) with
  | some (true, rest) =>
    (loop (fun (_ : Unit) => do
      skipWhile isSpaceOrTab
      if ← newline? then return .again () else return .done true) ()) rest
  | _ => some (false, input)

/-- The rest of a string on one line, kept in reverse while it is read. -/
def lineBody (quote : Char) (escapes : Bool) : Reader String :=
  loop (fun (reversed : List Char) => do
    let c ← next
    if c = quote then return .done (String.ofList reversed.reverse)
    else if c = '\\' ∧ escapes then return .again ((← escaped) :: reversed)
    else do guard (isPlain c); return .again (c :: reversed)) []

/-- The rest of a string over several lines, kept in reverse while it is read. -/
def blockBody (conventions : Conventions) (quote : Char) (escapes : Bool) : Reader String :=
  loop (fun (reversed : List Char) => do
    let quotes ← takeWhile (· = quote)
    if quotes.length ≥ 3 then
      guard (quotes.length ≤ 5)
      return .done (String.ofList (quotes.drop 3 ++ reversed).reverse)
    else if !quotes.isEmpty then return .again (quotes ++ reversed)
    else
      match ← next with
      | '\n' => return .again ('\n' :: reversed)
      | '\r' => do skip "\n"; return .again (conventions.lineBreaks.text.reverse ++ reversed)
      | c =>
        if c = '\\' ∧ escapes then
          if ← lineContinuation? then return .again reversed
          else return .again ((← escaped) :: reversed)
        else do guard (isPlain c); return .again (c :: reversed)) []

def line (quote : Char) : Reader String := do
  skip (String.singleton quote)
  lineBody quote (quote = '"')

/-- A string as a value: three quotes begin a block. -/
def string (conventions : Conventions) (quote : Char) : Reader String := do
  if ← skip? (String.ofList [quote, quote, quote]) then
    let _ ← newline?
    blockBody conventions quote (quote = '"')
  else line quote

end EnvSpec.Toml.Quoted
