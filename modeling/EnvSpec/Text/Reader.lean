/-!
# Readers

A reader takes characters from the front of a text and fails or returns a value with the rest.
Repetition has as many rounds as there are characters left, so that every reader built here ends.
-/
namespace EnvSpec.Text

abbrev Reader := StateT (List Char) Option

namespace Reader

/-- The next character, which stays in the input. -/
def peek : Reader (Option Char) := fun input => some (input.head?, input)

/-- The whole rest, which stays in the input. -/
def rest : Reader (List Char) := fun input => some (input, input)

def next : Reader Char := fun input => input.head?.map (·, input.tail)

def takeWhile (p : Char → Bool) : Reader (List Char) := fun input =>
  some (input.takeWhile p, input.dropWhile p)

def skipWhile (p : Char → Bool) : Reader Unit := fun input => some ((), input.dropWhile p)

/-- Takes `text` if the input starts with it, and says whether it did. -/
def skip? (text : String) : Reader Bool := fun input =>
  if text.toList.isPrefixOf input then some (true, input.drop text.toList.length)
  else some (false, input)

/-- Takes `text`, which the input has to start with. -/
def skip (text : String) : Reader Unit := do guard ((← skip? text) = true)

/-- Exactly `n` characters. -/
def take (n : Nat) : Reader (List Char) := fun input =>
  if input.length < n then none else some (input.take n, input.drop n)

def atEnd : Reader Bool := fun input => some (input.isEmpty, input)

/-- What a step of a repetition asks for: another round from a new state, or the end. -/
inductive Round (α β : Type) where
  | again (state : α)
  | done (result : β)

/-- At most `n` rounds of `step`, one of which has to be the last. -/
def rounds {α β : Type} (step : α → Reader (Round α β)) : Nat → α → Reader β
  | 0, _ => failure
  | n + 1, state => do
    match ← step state with
    | .done result => return result
    | .again state => rounds step n state

/-- Repeats `step` until it is done. There can be one round more than there are characters, which is
enough for a step that consumes input in every round but the last. -/
def loop {α β : Type} (step : α → Reader (Round α β)) (state : α) : Reader β := fun input =>
  rounds step (input.length + 1) state input

/-- The value that `reader` gives to the whole text. -/
def runAll {α : Type} (reader : Reader α) (text : String) : Option α :=
  match reader text.toList with
  | some (value, []) => some value
  | _ => none

end Reader

end EnvSpec.Text
