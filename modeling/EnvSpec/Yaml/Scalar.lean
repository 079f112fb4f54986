import EnvSpec.Yaml.Resolved

/-!
# Writing strings in block style

A string is written plain where that reads back as the same string, else between single quotes, and
between double quotes where it holds characters that cannot stand for themselves. A string with a
line feed becomes a literal block if no blank stands at its end or before a line break. Lines are
never folded. Line breaks are the line feed and the two Unicode separators; after one, writing goes
on at the indentation of the scalar.
-/
namespace EnvSpec.Yaml

inductive Style where
  | plain
  | singleQuoted
  | doubleQuoted
  | literal
deriving Repr, DecidableEq

def isBreak (c : Char) : Bool := c = '\n' || c = '\u2028' || c = '\u2029'

/-- A character that can stand for itself. -/
def isPrintable (c : Char) : Bool :=
  let n := c.toNat
  n = 0x0A || (0x20 ≤ n && n ≤ 0x7E) ||
    (0xA0 ≤ n && n ≠ 0xFEFF && n ≠ 0xFFFE && n ≠ 0xFFFF)

/-- Whether `p` holds of some two characters in a row. -/
def anyAdjacent (p : Char → Char → Bool) : List Char → Bool
  | a :: b :: rest => p a b || anyAdjacent p (b :: rest)
  | _ => false

def endsWith (p : Char → Bool) (cs : List Char) : Bool := cs.getLast?.any p

def startsWith (p : Char → Bool) (cs : List Char) : Bool := cs.head?.any p

def isSpace (c : Char) : Bool := c = ' '

def spaceBeforeBreak (cs : List Char) : Bool := anyAdjacent (fun a b => isSpace a && isBreak b) cs

def spaceAfterBreak (cs : List Char) : Bool := anyAdjacent (fun a b => isBreak a && isSpace b) cs

/-- The text can be written as a literal block. -/
def allowsLiteral (cs : List Char) : Bool :=
  cs.all isPrintable && !spaceBeforeBreak cs && !endsWith isSpace cs

/-- The text can be written between single quotes. -/
def allowsSingleQuotes (cs : List Char) : Bool :=
  cs.all isPrintable && !spaceBeforeBreak cs && !spaceAfterBreak cs

/-- The characters that mean something at the start of a scalar. -/
def indicators : List Char :=
  ['#', ',', '[', ']', '{', '}', '&', '*', '!', '|', '>', '\'', '"', '%', '@', '\x60']

/-- The text begins with a mark of a list item, a key or a value, which is followed by a blank or
nothing. -/
def startsWithMark : List Char → Bool
  | c :: rest => ['-', '?', ':'].contains c && (rest.isEmpty || startsWith isSpace rest)
  | [] => false

/-- The text has the end of a key or the start of a comment in it. -/
def hasInnerMark (cs : List Char) : Bool :=
  anyAdjacent (fun a b => a = ':' && isSpace b || isSpace a && b = '#') cs || endsWith (· = ':') cs

def startsWithDocumentMark (cs : List Char) : Bool :=
  "---".toList.isPrefixOf cs || "...".toList.isPrefixOf cs

/-- The text can be written as it is. -/
def allowsPlain (cs : List Char) : Bool :=
  allowsSingleQuotes cs && !cs.any isBreak && !startsWith isSpace cs && !endsWith isSpace cs &&
    !startsWith indicators.contains cs && !startsWithMark cs && !hasInnerMark cs &&
    !startsWithDocumentMark cs

def style (cs : List Char) : Style :=
  if cs.contains '\n' then if allowsLiteral cs then .literal else .doubleQuoted
  else if allowsPlain cs && !isResolved cs then .plain
  else if allowsSingleQuotes cs then .singleQuoted
  else .doubleQuoted

/-- Text with every line after a break indented, empty lines apart. `atStart` says whether a line
begins here. -/
def indented (indent : Nat) (atStart : Bool) : List Char → List Char
  | [] => []
  | c :: rest =>
    if isBreak c then c :: indented indent true rest
    else (if atStart then List.replicate indent ' ' else []) ++ c :: indented indent false rest

/-- The marks after the bar of a literal block: the indentation, where the first line does not
show it, and what becomes of the line breaks at the end. -/
def literalMarks (cs : List Char) : List Char :=
  let indentation := if startsWith (fun c => isSpace c || isBreak c) cs then ['2'] else []
  let ending :=
    match cs.reverse with
    | [] => ['-']
    | [c] => if isBreak c then ['+'] else ['-']
    | c :: d :: _ => if !isBreak c then ['-'] else if isBreak d then ['+'] else []
  indentation ++ ending

def literalText (indent : Nat) (cs : List Char) : List Char :=
  '|' :: literalMarks cs ++ '\n' :: indented indent true cs

def singleQuotedText (indent : Nat) (cs : List Char) : List Char :=
  let doubled := cs.flatMap fun c => if c = '\'' then ['\'', '\''] else [c]
  let margin := if endsWith isBreak cs then List.replicate indent ' ' else []
  '\'' :: indented indent false doubled ++ margin ++ ['\'']

def upperHexDigit (n : Nat) : Char := (Nat.digitChar (n % 16)).toUpper

/-- The last `width` hexadecimal digits of a number. -/
def hexDigits (width n : Nat) : List Char :=
  (List.range width).reverse.map fun i => upperHexDigit (n >>> (4 * i))

/-- Escapes with a letter of their own. -/
def shortEscapes : List (Char × Char) :=
  [('\x00', '0'), ('\x07', 'a'), ('\x08', 'b'), ('\t', 't'), ('\n', 'n'), ('\x0B', 'v'),
   ('\x0C', 'f'), ('\r', 'r'), ('\x1B', 'e'), ('"', '"'), ('\\', '\\'), ('\u0085', 'N'),
   ('\u2028', 'L'), ('\u2029', 'P')]

def escape (c : Char) : List Char :=
  match shortEscapes.lookup c with
  | some letter => ['\\', letter]
  | none =>
    if isPrintable c then [c]
    else if c.toNat ≤ 0xFF then '\\' :: 'x' :: hexDigits 2 c.toNat
    else '\\' :: 'u' :: hexDigits 4 c.toNat

def doubleQuotedText (cs : List Char) : List Char := '"' :: cs.flatMap escape ++ ['"']

/-- A string as a scalar whose own lines, if it needs any, are indented by `indent`. -/
def scalar (indent : Nat) (s : String) : List Char :=
  let cs := s.toList
  match style cs with
  | .plain => cs
  | .singleQuoted => singleQuotedText indent cs
  | .doubleQuoted => doubleQuotedText cs
  | .literal => literalText indent cs

/-- The text of an item of a document with its line ended. A literal block that ends in a break
ends its line itself. -/
def endLine (cs : List Char) : List Char := if endsWith isBreak cs then cs else cs ++ ['\n']

end EnvSpec.Yaml
