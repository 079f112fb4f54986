import EnvSpec.Decimal.Basic

/-!
# Plain scalars that are not strings

A plain YAML scalar can stand for null, a boolean, an integer or a float. A string that looks like
one of these has to be quoted, and so has the empty one. Digits after a superfluous zero are quoted
too, since readers disagree on them.
-/
namespace EnvSpec.Yaml

def nullWords : List String := ["null", "Null", "NULL", "~"]

def booleanWords : List String := ["true", "True", "TRUE", "false", "False", "FALSE"]

def infinityWords : List String := [".inf", ".Inf", ".INF"]

def nanWords : List String := [".nan", ".NaN", ".NAN"]

/-- More than one digit, the first of them a zero, after an optional sign. -/
def isPaddedNumeral (cs : List Char) : Bool :=
  let digits :=
    match cs with
    | '+' :: rest => rest
    | '-' :: rest => rest
    | cs => cs
  digits.length > 1 && digits.head? == some '0' && digits.all Char.isDigit

/-- The size of an integer in base ten, or in another base behind its mark. -/
def magnitude? (cs : List Char) : Option Nat :=
  match cs with
  | '0' :: 'x' :: digits => Text.numeral? 16 digits
  | '0' :: 'o' :: digits => Text.numeral? 8 digits
  | '0' :: 'b' :: digits => Text.numeral? 2 digits
  | digits => Text.plainNumeral? digits

/-- An integer with an optional sign that fits 128 bits, signed if it has a minus. -/
def isInteger (cs : List Char) : Bool :=
  match cs with
  | '-' :: rest => (magnitude? rest).any (· ≤ Nat.pow 2 127)
  | '+' :: rest => (magnitude? rest).any (· < Nat.pow 2 128)
  | cs => (magnitude? cs).any (· < Nat.pow 2 128)

/-- A number that a double holds, an infinity or the value that is no number. -/
def isFloat (cs : List Char) : Bool :=
  let isNumber (digits : List Char) : Bool :=
    (Decimal.parse? digits).any fun d => !d.exceedsDouble
  let isWord (words : List String) (cs : List Char) : Bool := words.contains (String.ofList cs)
  match cs with
  | '-' :: rest => isNumber rest || isWord infinityWords rest
  | '+' :: rest => isNumber rest || isWord infinityWords rest
  | cs => isNumber cs || isWord infinityWords cs || isWord nanWords cs

/-- Whether a plain scalar with this text would be read as something other than a string. -/
def isResolved (cs : List Char) : Bool :=
  let text := String.ofList cs
  cs.isEmpty || nullWords.contains text || booleanWords.contains text || isInteger cs ||
    isFloat cs || isPaddedNumeral cs

end EnvSpec.Yaml
