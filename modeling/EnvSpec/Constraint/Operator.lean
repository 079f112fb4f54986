/-!
# Comparison operators

A clause of a version constraint begins with the symbol of its operator, or with no symbol at all.
Some symbols begin another one, so the longer ones are tried first.
-/
namespace EnvSpec

inductive Operator where
  | caret | tilde | compatible | exact | equal | notEqual | greaterEq | lessEq | greater | less
  | bare
deriving Repr, DecidableEq

namespace Operator

def symbol : Operator → String
  | caret => "^"
  | tilde => "~"
  | compatible => "~="
  | exact => "=="
  | equal => "="
  | notEqual => "!="
  | greaterEq => ">="
  | lessEq => "<="
  | greater => ">"
  | less => "<"
  | bare => ""

/-- The operators that have a symbol, none after one whose symbol begins its own. -/
def marked : List Operator :=
  [compatible, exact, notEqual, greaterEq, lessEq, caret, tilde, greater, less, equal]

/-- The operator with the longest symbol that `cs` begins with. -/
def leading (cs : List Char) : Operator :=
  (marked.find? fun op => op.symbol.toList.isPrefixOf cs).getD bare

end Operator

end EnvSpec
