import EnvSpec.Constraint.Operator
import EnvSpec.Text.Blank
import EnvSpec.Text.Pieces

/-!
# Version constraints

A constraint is a list of clauses between commas, each an operator and a version. The empty text
and a lone star constrain nothing. Blanks are allowed around clauses and after an operator, not
inside a version. The text is kept as it was written.
-/
namespace EnvSpec

structure Clause where
  operator : Operator
  version : String
deriving Repr, DecidableEq

namespace Clause

def text (c : Clause) : String := c.operator.symbol ++ c.version

/-- Reads one part between commas. Its version must be there and have no blank in it. -/
def parse? (part : String) : Option Clause :=
  let cs := Text.trimChars part.toList
  let operator := Operator.leading cs
  let version := Text.trimStartChars (cs.drop operator.symbol.length)
  if version.isEmpty || version.any Text.isBlank then none
  else some ⟨operator, String.ofList version⟩

end Clause

structure Constraint where
  text : String
  clauses : List Clause
deriving Repr, DecidableEq

namespace Constraint

def parse? (text : String) : Option Constraint :=
  let trimmed := Text.trim text
  if trimmed = "" ∨ trimmed = "*" then some ⟨text, []⟩
  else ((Text.pieces ',' trimmed).mapM Clause.parse?).map (⟨text, ·⟩)

/-- A constraint that every version meets. -/
def isAny (c : Constraint) : Bool := c.clauses.isEmpty

end Constraint

end EnvSpec
