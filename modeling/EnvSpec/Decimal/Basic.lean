import EnvSpec.Text.Numeral

/-!
# Decimal numbers

A decimal number is written as digits with an optional point and an optional power of ten. What
matters of its size is whether a binary double can hold it: from the middle between the largest
finite double and the next power of two on, a number rounds to infinity.
-/
namespace EnvSpec

/-- The number `significand * 10 ^ exponent`. -/
structure Decimal where
  significand : Nat
  exponent : Int
deriving Repr, DecidableEq

namespace Decimal

/-- The least number that rounds to infinity as a binary double. -/
def doubleLimit : Nat := Nat.pow 2 1024 - Nat.pow 2 970

/-- Decides whether the number rounds to infinity. It has as many digits before the point as its
significand and exponent add up to, the limit has 309, so powers of ten are computed only for
numbers of about that size. -/
def exceedsDouble (d : Decimal) : Bool :=
  let places : Int := d.significand.repr.length + d.exponent
  if d.significand = 0 ∨ places < 309 then false
  else if places > 309 then true
  else
    match d.exponent with
    | .ofNat e => doubleLimit ≤ d.significand * Nat.pow 10 e
    | .negSucc e => doubleLimit * Nat.pow 10 (e + 1) ≤ d.significand

/-- A whole number with an optional sign. -/
def signed? : List Char → Option Int
  | '+' :: digits => (Text.numeral? 10 digits).map Int.ofNat
  | '-' :: digits => (Text.numeral? 10 digits).map fun n => -Int.ofNat n
  | digits => (Text.numeral? 10 digits).map Int.ofNat

/-- Reads digits with at most one point, before, after or between them, and then perhaps an
exponent. At least one digit has to stand before the exponent. -/
def parse? (cs : List Char) : Option Decimal := do
  let whole := cs.takeWhile Char.isDigit
  let rest := cs.dropWhile Char.isDigit
  let (fraction, rest) :=
    match rest with
    | '.' :: rest => (rest.takeWhile Char.isDigit, rest.dropWhile Char.isDigit)
    | _ => ([], rest)
  let significand ← Text.numeral? 10 (whole ++ fraction)
  let exponent ←
    match rest with
    | [] => some 0
    | c :: rest => if c = 'e' ∨ c = 'E' then signed? rest else none
  return ⟨significand, exponent - fraction.length⟩

end Decimal

end EnvSpec
