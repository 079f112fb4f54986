import EnvSpec.Decimal.Basic

/-!
# JSON numbers

A number is a sign, a whole part without superfluous zeros, and optional fraction and exponent.
A reader holds the digits as a 64 bit significand with a power of ten, leaving out the digits that
no longer fit. A number whose value is then no finite double is out of range. The value is the
product of the significand and the power of ten, each rounded to a double before.
-/
namespace EnvSpec.Json

/-- A significand is kept below this number. -/
def significandLimit : Nat := UInt64.size

/-- The largest power of ten that a double can hold. -/
def maxPower : Nat := 308

/-- Rounds to 53 significant bits, a tie going to the even neighbour. -/
def roundToDouble (n : Nat) : Nat :=
  let unit := Nat.pow 2 (n.log2 + 1 - 53)
  let quotient := n / unit
  let rest := 2 * (n % unit)
  if rest > unit ∨ (rest = unit ∧ quotient % 2 = 1) then (quotient + 1) * unit
  else quotient * unit

/-- Adds digits to a significand while they fit; the second part is what does not fit any more. -/
def addDigits (significand : Nat) : List Char → Nat × List Char
  | [] => (significand, [])
  | c :: rest =>
    let next := significand * 10 + (c.toNat - '0'.toNat)
    if next < significandLimit then addDigits next rest else (significand, c :: rest)

/-- The significand and the power of ten of the digits before and after the point. Digits before
the point that do not fit count as powers of ten, those after it do not count at all. -/
def significandOf (whole fraction : List Char) : Decimal :=
  let (significand, dropped) := addDigits 0 whole
  let (significand, ignored) := addDigits significand fraction
  ⟨significand, dropped.length - (fraction.length - ignored.length : Nat)⟩

/-- Whether the value of a number with a fraction or an exponent, or with a whole part beyond 64
bits, is a finite double. -/
def isFinite (d : Decimal) : Bool :=
  match d.exponent with
  | .negSucc _ => true
  | .ofNat e =>
    d.significand = 0 ||
      (e ≤ maxPower &&
        roundToDouble d.significand * roundToDouble (Nat.pow 10 e) < Decimal.doubleLimit)

end EnvSpec.Json
