/-!
# Numerals

Reading digits in a base from two to thirty-six. A numeral has at least one digit and nothing
else: no sign, no blank, no digit separator.
-/
namespace EnvSpec.Text

/-- The value of one digit, letters of either case standing for ten and more. -/
def digit? (base : Nat) (c : Char) : Option Nat :=
  let value :=
    if c.isDigit then c.toNat - '0'.toNat
    else if c.isLower then c.toNat - 'a'.toNat + 10
    else if c.isUpper then c.toNat - 'A'.toNat + 10
    else base
  if value < base then some value else none

/-- The number that the digits write, most significant first. -/
def numeral? (base : Nat) (digits : List Char) : Option Nat :=
  if digits.isEmpty then none
  else digits.foldlM (fun n c => (digit? base c).map (n * base + ·)) 0

/-- A decimal numeral without superfluous zeros in front. -/
def plainNumeral? (digits : List Char) : Option Nat :=
  if digits.length > 1 && digits.head? == some '0' then none else numeral? 10 digits

end EnvSpec.Text
