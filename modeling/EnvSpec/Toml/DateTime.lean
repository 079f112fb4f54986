import EnvSpec.Text.Numeral
import EnvSpec.Text.Reader

/-!
# Dates and times

A date, a time, or both with an optional offset, as digits of fixed number. Dates have to exist in
the calendar. The sixtieth second is allowed for leap seconds.
-/
namespace EnvSpec.Toml.DateTime

open Text Text.Reader

/-- A number of exactly `n` digits. -/
def digits (n : Nat) : Reader Nat := do
  match numeral? 10 (← take n) with
  | some value => return value
  | none => failure

def isLeap (year : Nat) : Bool := year % 4 = 0 && (year % 100 ≠ 0 || year % 400 = 0)

def daysIn (year month : Nat) : Nat :=
  if month = 2 then if isLeap year then 29 else 28
  else if [4, 6, 9, 11].contains month then 30
  else 31

def date : Reader Unit := do
  let year ← digits 4
  skip "-"
  let month ← digits 2
  guard (1 ≤ month ∧ month ≤ 12)
  skip "-"
  let day ← digits 2
  guard (1 ≤ day ∧ day ≤ daysIn year month)

def hourAndMinute : Reader Unit := do
  guard ((← digits 2) ≤ 23)
  skip ":"
  guard ((← digits 2) ≤ 59)

def time : Reader Unit := do
  hourAndMinute
  skip ":"
  guard ((← digits 2) ≤ 60)
  if ← skip? "." then
    let fraction ← takeWhile Char.isDigit
    guard (!fraction.isEmpty)

def offset : Reader Unit := do
  match ← next with
  | 'Z' | 'z' => return
  | '+' | '-' => hourAndMinute
  | _ => failure

def dateTime : Reader Unit := do
  date
  unless ← atEnd do
    guard (['T', 't', ' '].contains (← next))
    time
    unless ← atEnd do offset

def isDate (cs : List Char) : Bool := date cs == some ((), [])

def isDateTime (cs : List Char) : Bool := dateTime cs == some ((), []) || time cs == some ((), [])

end EnvSpec.Toml.DateTime
