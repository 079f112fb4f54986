/-!
# Lower case, for comparison with ASCII words

Words such as channel names are compared after lower-casing. A lower-cased text can equal an ASCII
word only if each of its characters lower-cases to one ASCII letter or is left alone, and outside
ASCII the Kelvin sign is the one character that does. So the map below decides such comparisons
exactly although it leaves all other capitals as they are.
-/
namespace EnvSpec.Text

def kelvinSign : Char := '\u212A'

def lowerChar (c : Char) : Char := if c = kelvinSign then 'k' else c.toLower

/-- The text with every character that has an ASCII letter as its lower case replaced by it. -/
def lower (s : String) : String := String.ofList (s.toList.map lowerChar)

end EnvSpec.Text
