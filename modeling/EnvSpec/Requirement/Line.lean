import EnvSpec.Record.Basic
import EnvSpec.Requirement.Target
import EnvSpec.Version.Release

/-!
# Requirement lines

A record is written as one line for a target: the package name, then its clauses between commas in
the target's grammar. Caret and tilde have no counterpart there. For conda they become a fuzzy
match on the version, for pip a lower bound and, where the version is a release number, an upper
one. A line is read back as a name and the rest of the line.
-/
namespace EnvSpec

namespace Clause

def condaText (c : Clause) : String :=
  match c.operator with
  | .caret | .tilde | .bare => "=" ++ c.version
  | _ => c.text

/-- The range from `lower` up to but without `upper`, which may be open. -/
def range (lower : String) (upper : Option String) : String :=
  match upper with
  | some upper => ">=" ++ lower ++ ",<" ++ upper
  | none => ">=" ++ lower

def pipText (c : Clause) : String :=
  match c.operator with
  | .caret => range c.version (Version.caretBound? c.version)
  | .tilde => range c.version (Version.tildeBound? c.version)
  | .bare | .equal => "==" ++ c.version
  | _ => c.text

def textFor (target : Target) (c : Clause) : String :=
  match target with
  | .conda => c.condaText
  | .pip => c.pipText

end Clause

/-- The part of a line after the name. -/
def Constraint.specifier (target : Target) (c : Constraint) : String :=
  Text.join ',' (c.clauses.map (Clause.textFor target))

namespace Record

/-- The requirement line of a record. -/
def line (target : Target) (r : Record) : String := r.name ++ r.constraint.specifier target

/-- The lines of records, each ended by a line break. -/
def linesText (target : Target) (records : List Record) : String :=
  String.join (records.map fun r => r.line target ++ "\n")

theorem linesText_eq (target : Target) (records : List Record) :
    linesText target records = String.join ((records.map (line target)).map (· ++ "\n")) := by
  rw [linesText, List.map_map]
  rfl

end Record

namespace Requirement

/-- A character that ends the name at the start of a requirement line. -/
def endsName (c : Char) : Bool := ['=', '<', '>', '!', '~', '^'].contains c || Text.isBlank c

/-- Drops one equals sign in front, unless another follows. -/
def dropEquals : List Char → List Char
  | ['='] => []
  | '=' :: c :: rest => if c = '=' then '=' :: c :: rest else c :: rest
  | cs => cs

/-- The name and the constraint of a line; none for blank lines, comments and lines without a
name. -/
def readLine? (line : String) : Option (String × String) :=
  let cs := Text.trimChars line.toList
  if cs.head? = some '#' then none
  else
    let name := cs.takeWhile fun c => !endsName c
    if name.isEmpty then none
    else
      let rest := Text.trimChars (cs.dropWhile fun c => !endsName c)
      some (String.ofList name, String.ofList (dropEquals rest))

end Requirement

end EnvSpec
