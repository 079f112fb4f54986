import EnvSpec.Command.Invocation

/-!
# Reading the command line

Options stand before or after operands, in short form alone or in a cluster and in long form, their
value attached or in the next argument. Two dashes end the options. The value of an option is
judged when the next option or operand begins, so the order of two faults decides which of them is
reported. The options of the whole program may stand before the command or among its own.
-/
namespace EnvSpec

/-- Why a command line asks for no command. -/
inductive UsageError where
  | helpRequested
  | versionRequested
  | nothingGiven
  | commandMissing
  | commandUnknown
  | argumentUnknown
  | valueInvalid
  | valueRejected
  | valueUnexpected
  | requiredMissing
  | repeated
deriving Repr, DecidableEq

namespace CommandLine

inductive Flag where
  | help | version | verbose | config | variant | target | channel | manifest | json | name
  | channelUrl | output
deriving Repr, DecidableEq

namespace Flag

def takesValue : Flag → Bool
  | help | version | verbose | json => false
  | _ => true

def mayRepeat (flag : Flag) : Bool := flag = channelUrl

/-- Judges a value: a path may not be empty, and words have to be known. -/
def check (flag : Flag) (value : String) : Except UsageError Unit :=
  match flag with
  | config | manifest | output => if value = "" then .error .valueInvalid else .ok ()
  | channel => if (ChannelChoice.named? value).isSome then .ok () else .error .valueInvalid
  | variant => if (Variant.parse value).isOk then .ok () else .error .valueRejected
  | target => if (Target.parse value).isOk then .ok () else .error .valueRejected
  | _ => .ok ()

end Flag

/-- The names of an option. -/
structure FlagNames where
  flag : Flag
  short : Option Char
  long : String

/-- The options that stand before the command or among its own. -/
def sharedFlags : List FlagNames :=
  [⟨.help, some 'h', "help"⟩, ⟨.verbose, some 'v', "verbose"⟩, ⟨.config, some 'c', "config"⟩]

inductive CommandName where
  | extract | sections | envFile
deriving Repr, DecidableEq

namespace CommandName

def ofWord? : String → Option CommandName
  | "extract" => some extract
  | "sections" => some sections
  | "env-file" => some envFile
  | _ => none

/-- The options that stand only behind the command. -/
def flags : CommandName → List FlagNames
  | extract =>
    [⟨.variant, none, "variant"⟩, ⟨.target, some 't', "target"⟩, ⟨.channel, none, "channel"⟩,
     ⟨.manifest, some 'm', "manifest"⟩]
  | sections => [⟨.manifest, some 'm', "manifest"⟩, ⟨.json, none, "json"⟩]
  | envFile =>
    [⟨.variant, none, "variant"⟩, ⟨.name, some 'n', "name"⟩,
     ⟨.channelUrl, none, "channel-url"⟩, ⟨.manifest, some 'm', "manifest"⟩,
     ⟨.output, some 'o', "output"⟩]

def takesOperand : CommandName → Bool
  | extract | envFile => true
  | sections => false

end CommandName

/-- A place on the command line: before the command, or behind it. -/
inductive Scope where
  | program
  | behind (command : CommandName)
deriving Repr, DecidableEq

namespace Scope

def flags : Scope → List FlagNames
  | program => sharedFlags ++ [⟨.version, some 'V', "version"⟩]
  | behind command => sharedFlags ++ command.flags

def short? (scope : Scope) (letter : Char) : Option Flag :=
  (scope.flags.find? fun names => names.short == some letter).map (·.flag)

def long? (scope : Scope) (word : String) : Option Flag :=
  (scope.flags.find? fun names => names.long == word).map (·.flag)

def takesOperand : Scope → Bool
  | program => false
  | behind command => command.takesOperand

end Scope

/-- What was read in one scope so far. An option that was named last is pending until its value has
been judged, and may still wait for the value. -/
structure Given where
  values : List (Flag × String) := []
  operand : Option String := none
  pending : Option (Flag × Option String) := none

namespace Given

def has (given : Given) (flag : Flag) : Bool := given.values.any fun v => v.1 = flag

def value? (given : Given) (flag : Flag) : Option String := given.values.lookup flag

def allValues (given : Given) (flag : Flag) : List String :=
  (given.values.filter fun v => v.1 = flag).map Prod.snd

def isWaiting (given : Given) : Bool := given.pending.any fun p => p.2.isNone

/-- Records the value of an option. -/
def add (given : Given) (flag : Flag) (value : String) : Except UsageError Given := do
  if given.has flag && !flag.mayRepeat then throw .repeated
  flag.check value
  return { given with values := given.values ++ [(flag, value)] }

/-- Judges the pending option. -/
def settle (given : Given) : Except UsageError Given :=
  match given.pending with
  | none => .ok given
  | some (_, none) => .error .valueInvalid
  | some (flag, some value) => { given with pending := none }.add flag value

/-- Takes an option with its value attached. -/
def addAttached (given : Given) (flag : Flag) (value : String) : Except UsageError Given := do
  (← given.settle).add flag value

/-- Takes an option whose value comes next. -/
def await (given : Given) (flag : Flag) : Except UsageError Given :=
  return { (← given.settle) with pending := some (flag, none) }

/-- Takes an option that has no value. -/
def addSwitch (given : Given) (flag : Flag) : Except UsageError Given := do
  let given ← given.settle
  match flag with
  | .help => throw .helpRequested
  | .version => throw .versionRequested
  | _ => given.add flag ""

/-- Takes an argument that is no option where no value is awaited. -/
def addOperand (scope : Scope) (given : Given) (word : String) : Except UsageError Given := do
  if !scope.takesOperand || given.operand.isSome then throw .argumentUnknown
  return { (← given.settle) with operand := some word }

/-- Takes a long option, without its dashes. -/
def addLong (scope : Scope) (given : Given) (body : List Char) : Except UsageError Given := do
  let word := String.ofList (body.takeWhile (· ≠ '='))
  let attached :=
    match body.dropWhile (· ≠ '=') with
    | [] => none
    | _ :: value => some (String.ofList value)
  match scope.long? word, attached with
  | none, _ => throw .argumentUnknown
  | some flag, none => if flag.takesValue then given.await flag else given.addSwitch flag
  | some flag, some value =>
    if flag.takesValue then given.addAttached flag value else throw .valueUnexpected

/-- Takes a cluster of short options, without its dash. The first one with a value takes the rest
of the cluster as that value, less an equals sign in front. -/
def addShort (scope : Scope) (given : Given) : List Char → Except UsageError Given
  | [] => .ok given
  | letter :: rest => do
    match scope.short? letter with
    | none => throw .argumentUnknown
    | some flag =>
      if flag.takesValue then
        match rest with
        | [] => given.await flag
        | '=' :: value => given.addAttached flag (String.ofList value)
        | value => given.addAttached flag (String.ofList value)
      else addShort scope (← given.addSwitch flag) rest

/-- Takes one argument before the options end. -/
def addArgument (scope : Scope) (given : Given) (word : String) : Except UsageError Given :=
  match word.toList with
  | '-' :: '-' :: body => given.addLong scope body
  | '-' :: letter :: rest => given.addShort scope (letter :: rest)
  | _ =>
    match given.pending with
    | some (flag, none) => .ok { given with pending := some (flag, some word) }
    | _ => given.addOperand scope word

/-- Takes the arguments of a command, up to the last. -/
def addAll (scope : Scope) (given : Given) : List String → Except UsageError Given
  | [] => given.settle
  | "--" :: words => do (← words.foldlM (addOperand scope) given).settle
  | word :: words => do addAll scope (← given.addArgument scope word) words

end Given

/-- Reads a value that has been judged before. -/
def wordOf {ε α : Type} (parse : String → Except ε α) (value : Option String) : Option α :=
  value.bind fun word => (parse word).toOption

/-- The command that the values of its options and its operand make. -/
def commandOf (name : CommandName) (given : Given) : Except UsageError Command :=
  let variant := wordOf Variant.parse (given.value? .variant)
  match name, variant with
  | .extract, _ =>
    return .extract {
      path := given.operand
      variant
      target := wordOf Target.parse (given.value? .target)
      channel := ((given.value? .channel).bind ChannelChoice.named?).getD .all
      manifest := given.value? .manifest }
  | .sections, _ =>
    return .sections { manifest := given.value? .manifest, json := given.has .json }
  | .envFile, none => throw .requiredMissing
  | .envFile, some variant =>
    return .envFile {
      base := given.operand
      variant
      name := given.value? .name
      channels := given.allValues .channelUrl
      manifest := given.value? .manifest
      output := given.value? .output }

/-- Reads what stands behind a command. Where no manifest is named, `manifest` gives one, which is
judged like an argument. -/
def readBehind (name : CommandName) (manifest : Option String) (words : List String) :
    Except UsageError (Given × Command) := do
  let given ← Given.addAll (.behind name) {} words
  let given ←
    match manifest with
    | some path => if given.has .manifest then pure given else given.add .manifest path
    | none => pure given
  return (given, ← commandOf name given)

def isCommandWord (word : String) : Bool := word = "help" || (CommandName.ofWord? word).isSome

/-- A request for help may name one command, or the request for help itself. -/
def helpError : List String → UsageError
  | [] => .helpRequested
  | [word] => if isCommandWord word then .helpRequested else .commandUnknown
  | _ => .commandUnknown

/-- Why a command line that ends before a command asks for none. -/
def endError (given : Given) : UsageError :=
  match given.settle with
  | .error e => e
  | .ok given => if given.values.isEmpty then .nothingGiven else .commandMissing

/-- Why no command can follow two dashes. -/
def afterDashesError (given : Given) : List String → UsageError
  | [] => endError given
  | word :: _ => if isCommandWord word then .argumentUnknown else .commandUnknown

/-- A word in the form of an option. -/
def isOption (word : String) : Bool := word.toList.head? = some '-' && word ≠ "-"

/-- Reads the arguments before the command, and then the command. -/
def readFrom (manifest : Option String) (given : Given) : List String → Except UsageError Invocation
  | [] => .error (endError given)
  | word :: words => do
    if word = "--" then throw (afterDashesError given words)
    else if given.isWaiting || isOption word then
      readFrom manifest (← given.addArgument .program word) words
    else if word = "help" then throw (helpError words)
    else
      match CommandName.ofWord? word with
      | none => throw .commandUnknown
      | some name =>
        let (inner, command) ← readBehind name manifest words
        let outer ← given.settle
        return {
          verbose := inner.has .verbose || outer.has .verbose
          config := (inner.value? .config).or (outer.value? .config)
          command }

/-- Reads a whole command line; `manifest` is the manifest that the environment names. -/
def read (manifest : Option String) (words : List String) : Except UsageError Invocation :=
  readFrom manifest {} words

end CommandLine

end EnvSpec
