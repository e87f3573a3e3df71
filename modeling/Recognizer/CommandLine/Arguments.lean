/-!
The arguments of the program. Options and switches belong to a scope: one scope for the program and
one for each command. An option takes a value, in its own argument or behind it; after two hyphens
all arguments are words. Arguments are read from left to right, and a request for the version or for
help ends the reading where it stands.
-/

namespace Recognizer.CommandLine

inductive Setting where
  | regex
  | file
  | config
  | output
  deriving DecidableEq

inductive Switch where
  | verbose
  | strict
  | version
  | help
  deriving DecidableEq

inductive Scope where
  | program
  | postorder
  | describe
  | validate
  | check
  deriving DecidableEq

namespace Setting

def long : Setting → String
  | regex => "regex"
  | file => "file"
  | config => "config"
  | output => "output"

def short : Setting → Char
  | regex => 'r'
  | file => 'f'
  | config => 'c'
  | output => 'o'

end Setting

namespace Switch

def long : Switch → String
  | verbose => "verbose"
  | strict => "strict"
  | version => "version"
  | help => "help"

def short? : Switch → Option Char
  | verbose => some 'v'
  | strict => none
  | version => some 'V'
  | help => some 'h'

end Switch

namespace Scope

def settings : Scope → List Setting
  | program => [.regex, .file, .config]
  | describe => [.output]
  | postorder | validate | check => []

def switches : Scope → List Switch
  | program => [.verbose, .version, .help]
  | check => [.verbose, .strict, .help]
  | postorder | describe | validate => [.verbose, .help]

def ofName? (name : String) : Option Scope :=
  match name with
  | "postfix" => some postorder
  | "describe" => some describe
  | "validate" => some validate
  | "check" => some check
  | _ => none

end Scope

inductive UsageFault where
  | unknown (argument : String)
  | repeated (name : String)
  | valueMissing (setting : Setting)
  | valueUnexpected (switch : Switch)
  | sourceMissing
  | sourcesConflict
  | commandMissing
  deriving DecidableEq

namespace UsageFault

def message : UsageFault → String
  | unknown argument => s!"unexpected argument '{argument}'"
  | repeated name => s!"'--{name}' cannot be used more than once"
  | valueMissing setting => s!"a value is required for '--{setting.long}'"
  | valueUnexpected switch => s!"'--{switch.long}' takes no value"
  | sourceMissing => "one of '--regex', '--file' and '--config' is required"
  | sourcesConflict => "only one of '--regex', '--file' and '--config' can be used"
  | commandMissing => "a command is required"

end UsageFault

inductive Halt where
  | version
  | help
  | fault (cause : UsageFault)
  deriving DecidableEq

structure Given where
  settings : List (Setting × String)
  switches : List Switch
  words : List String
  deriving DecidableEq

namespace Given

def nothing : Given := ⟨[], [], []⟩

def addSetting (given : Given) (setting : Setting) (value : String) : Except Halt Given :=
  if (given.settings.lookup setting).isSome then .error (.fault (.repeated setting.long))
  else .ok { given with settings := given.settings ++ [(setting, value)] }

def addSwitch (given : Given) (switch : Switch) : Except Halt Given :=
  match switch with
  | .version => .error .version
  | .help => .error .help
  | other =>
    if other ∈ given.switches then .error (.fault (.repeated other.long))
    else .ok { given with switches := given.switches ++ [other] }

def addWords (given : Given) (words : List String) : Given :=
  { given with words := given.words ++ words }

end Given

/-- The kinds of arguments by their hyphens; a hyphen alone is a word. -/
inductive Shape where
  | separator
  | long (name : List Char) (value : Option (List Char))
  | cluster (letters : List Char)
  | word
  deriving DecidableEq

def shapeOf (argument : List Char) : Shape :=
  match argument with
  | ['-', '-'] => .separator
  | '-' :: '-' :: rest =>
    match rest.dropWhile (· ≠ '=') with
    | [] => .long rest none
    | _ :: value => .long (rest.takeWhile (· ≠ '=')) (some value)
  | '-' :: letter :: rest => .cluster (letter :: rest)
  | _ => .word

abbrev Step := Except Halt (Given × Option Setting)

def readLong (scope : Scope) (given : Given) (argument : String) (name : List Char)
    (value : Option (List Char)) : Step :=
  match scope.settings.find? (·.long.toList = name), value with
  | some setting, some value =>
    (given.addSetting setting (String.ofList value)).map fun after => (after, none)
  | some setting, none => .ok (given, some setting)
  | none, _ =>
    match scope.switches.find? (·.long.toList = name), value with
    | some switch, none => (given.addSwitch switch).map fun after => (after, none)
    | some switch, some _ => .error (.fault (.valueUnexpected switch))
    | none, _ => .error (.fault (.unknown argument))

/-- Switches may share a hyphen. What follows the letter of an option is its value, where an equals
sign may stand between them. -/
def readCluster (scope : Scope) (given : Given) (argument : String) : List Char → Step
  | [] => .ok (given, none)
  | letter :: rest =>
    match scope.settings.find? (·.short = letter) with
    | some setting =>
      match rest with
      | [] => .ok (given, some setting)
      | '=' :: value =>
        (given.addSetting setting (String.ofList value)).map fun after => (after, none)
      | value => (given.addSetting setting (String.ofList value)).map fun after => (after, none)
    | none =>
      match scope.switches.find? (·.short? = some letter) with
      | some switch =>
        match given.addSwitch switch with
        | .error halt => .error halt
        | .ok after => readCluster scope after argument rest
      | none => .error (.fault (.unknown argument))

abbrev Read := Except Halt (Given × Option (Scope × List String))

def readTrailing (scope : Scope) (given : Given) (rest : List String) : Read :=
  match scope, rest with
  | .check, words => .ok (given.addWords words, none)
  | _, [] => .ok (given, none)
  | _, argument :: _ => .error (.fault (.unknown argument))

def helpOn : List String → Halt
  | [] => .help
  | [command] =>
    if command = "help" || (Scope.ofName? command).isSome then .help
    else .fault (.unknown command)
  | _ :: excess :: _ => .fault (.unknown excess)

/-- Reads arguments in a scope; `awaiting` is the option whose value comes next. -/
def readScope (scope : Scope) (awaiting : Option Setting) (given : Given) :
    List String → Read
  | [] =>
    match awaiting with
    | some setting => .error (.fault (.valueMissing setting))
    | none => .ok (given, none)
  | argument :: rest =>
    match shapeOf argument.toList, awaiting with
    | .word, some setting =>
      match given.addSetting setting argument with
      | .error halt => .error halt
      | .ok after => readScope scope none after rest
    | _, some setting => .error (.fault (.valueMissing setting))
    | .separator, none => readTrailing scope given rest
    | .long name value, none =>
      match readLong scope given argument name value with
      | .error halt => .error halt
      | .ok (after, next) => readScope scope next after rest
    | .cluster letters, none =>
      match readCluster scope given argument letters with
      | .error halt => .error halt
      | .ok (after, next) => readScope scope next after rest
    | .word, none =>
      match scope with
      | .check => readScope scope none (given.addWords [argument]) rest
      | .program =>
        if argument = "help" then .error (helpOn rest)
        else
          match Scope.ofName? argument with
          | some command => .ok (given, some (command, rest))
          | none => .error (.fault (.unknown argument))
      | _ => .error (.fault (.unknown argument))

inductive Source where
  | regex (text : String)
  | file (path : String)
  | config (path : String)
  deriving DecidableEq

inductive Command where
  | postorder
  | describe (output : Option String)
  | validate
  | check (words : List String) (strict : Bool)
  deriving DecidableEq

structure Invocation where
  source : Source
  command : Command
  verbose : Bool
  deriving DecidableEq

def sourceOf (given : Given) : Except UsageFault Source :=
  match given.settings with
  | [] => .error .sourceMissing
  | [(.regex, text)] => .ok (.regex text)
  | [(.file, path)] => .ok (.file path)
  | [(.config, path)] => .ok (.config path)
  | _ => .error .sourcesConflict

def commandOf (scope : Scope) (given : Given) : Except UsageFault Command :=
  match scope with
  | .program => .error .commandMissing
  | .postorder => .ok .postorder
  | .describe => .ok (.describe (given.settings.lookup .output))
  | .validate => .ok .validate
  | .check => .ok (.check given.words (.strict ∈ given.switches))

def readCommand (given : Given) (scope : Scope) (arguments : List String) :
    Except Halt Invocation := do
  let (own, _) ← readScope scope none Given.nothing arguments
  let command ← (commandOf scope own).mapError Halt.fault
  let source ← (sourceOf given).mapError Halt.fault
  return ⟨source, command, .verbose ∈ given.switches || .verbose ∈ own.switches⟩

/-- The program's own options stand before the command, and `verbose` in either place. -/
def readArguments (arguments : List String) : Except Halt Invocation := do
  match ← readScope .program none Given.nothing arguments with
  | (given, some (scope, rest)) => readCommand given scope rest
  | (_, none) => throw (.fault .commandMissing)

end Recognizer.CommandLine
