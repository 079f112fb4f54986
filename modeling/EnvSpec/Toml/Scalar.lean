import EnvSpec.Decimal.Basic
import EnvSpec.Manifest.Node
import EnvSpec.Toml.Conventions
import EnvSpec.Toml.DateTime

/-!
# Unquoted values

An unquoted value is a boolean, an integer, a float or a date-time. Digits may be grouped by single
underscores between them. Integers fit 64 signed bits. Floats are finite unless they say otherwise,
or unless the conventions take a number below all doubles for negative infinity.
-/
namespace EnvSpec.Toml.Scalar

/-- Digits without the underscores that group them. -/
def ungroup? (cs : List Char) : Option (List Char) :=
  let groups := cs.splitOn '_'
  if groups.any List.isEmpty then none else some groups.flatten

/-- Integers without a minus are below this number. -/
def integerLimit : Nat := Nat.pow 2 63

def isInteger (cs : List Char) : Bool :=
  let below (limit : Nat) (n : Option Nat) : Bool := n.any (· < limit)
  let decimal (digits : List Char) := (ungroup? digits).bind Text.plainNumeral?
  let based (base : Nat) (digits : List Char) := (ungroup? digits).bind (Text.numeral? base)
  match cs with
  | '0' :: 'x' :: digits => below integerLimit (based 16 digits)
  | '0' :: 'o' :: digits => below integerLimit (based 8 digits)
  | '0' :: 'b' :: digits => below integerLimit (based 2 digits)
  | '-' :: digits => below (integerLimit + 1) (decimal digits)
  | '+' :: digits => below integerLimit (decimal digits)
  | digits => below integerLimit (decimal digits)

def dropSign : List Char → List Char
  | '+' :: cs => cs
  | '-' :: cs => cs
  | cs => cs

/-- Digits before the point, digits after it and digits of the exponent, the last two optional but
not both missing. -/
def finiteFloat? (cs : List Char) : Option Decimal := do
  let isMark (c : Char) := c = 'e' || c = 'E'
  let mantissa := cs.takeWhile fun c => !isMark c
  let whole ← ungroup? (mantissa.takeWhile (· ≠ '.'))
  let _ ← Text.plainNumeral? whole
  let fraction ←
    match mantissa.dropWhile (· ≠ '.') with
    | [] => some []
    | _ :: digits => ungroup? digits
  let exponent ←
    match cs.dropWhile fun c => !isMark c with
    | [] => if fraction.isEmpty then none else some []
    | mark :: '+' :: digits => (ungroup? digits).map ([mark, '+'] ++ ·)
    | mark :: '-' :: digits => (ungroup? digits).map ([mark, '-'] ++ ·)
    | mark :: digits => (ungroup? digits).map (mark :: ·)
  Decimal.parse? (whole ++ '.' :: fraction ++ exponent)

def isFloat (conventions : Conventions) (cs : List Char) : Bool :=
  let magnitude := dropSign cs
  let mayOverflow := conventions.negativeOverflow && cs.head? == some '-'
  magnitude == "inf".toList || magnitude == "nan".toList ||
    (finiteFloat? magnitude).any fun d => !d.exceedsDouble || mayOverflow

/-- The kind of an unquoted value, if it is one. -/
def kind? (conventions : Conventions) (cs : List Char) : Option ScalarKind :=
  if cs == "true".toList || cs == "false".toList then some .boolean
  else if isInteger cs then some .integer
  else if isFloat conventions cs then some .float
  else if DateTime.isDateTime cs then some .datetime
  else none

end EnvSpec.Toml.Scalar
