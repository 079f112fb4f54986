import EnvSpec.Text.Blank
import EnvSpec.Text.Numeral
import EnvSpec.Text.Pieces

/-!
# Release numbers

A release number is one to three numerals joined by dots, without superfluous zeros and each below
`2 ^ 64`. Texts with a fourth component, a pre-release or a build tag are versions but no release
numbers. For release numbers there are upper bounds: the caret allows changes to the right of the
leftmost component that is not zero, the tilde to the right of the minor one.
-/
namespace EnvSpec.Version

/-- Components are kept below this number. -/
def componentLimit : Nat := UInt64.size

def component? (digits : String) : Option Nat := do
  let n ← Text.plainNumeral? digits.toList
  if n < componentLimit then some n else none

/-- The written components of a release number, major first. -/
def release? (version : String) : Option (List Nat) :=
  let parts := Text.pieces '.' (Text.trim version)
  if parts.length ≤ 3 then parts.mapM component? else none

/-- The components before the one at `index`, and that one plus one. -/
def raise? (components : List Nat) (index : Nat) : Option (List Nat) := do
  let n ← components[index]?
  if n + 1 < componentLimit then some (components.take index ++ [n + 1]) else none

def text (components : List Nat) : String := Text.join '.' (components.map Nat.repr)

/-- The component that a caret bounds: the leftmost that is not zero, else the last. -/
def caretIndex (components : List Nat) : Nat :=
  (components.findIdx? (· ≠ 0)).getD (components.length - 1)

/-- The component that a tilde bounds: the minor one if it is written, else the major one. -/
def tildeIndex (components : List Nat) : Nat := if components.length ≥ 2 then 1 else 0

def caretBound? (version : String) : Option String := do
  let components ← release? version
  (raise? components (caretIndex components)).map text

def tildeBound? (version : String) : Option String := do
  let components ← release? version
  (raise? components (tildeIndex components)).map text

end EnvSpec.Version
