/-!
# The command line

A command line is read from left to right into a `Request`. Options are written `--name value` or `--name=value`; those
with a letter also `-o value`, `-ovalue` and `-o=value`, and the letters of options without a value can be written
together. A value does not begin with a dash, unless it is attached or is the dash alone. Everything behind `--` is an
input. Every option is written at most once.
-/

namespace AdviceWeaving

/-- What is written out. -/
inductive Stage
  /-- The woven modules, each to its file. -/
  | module
  /-- The woven module, printed in JSON. -/
  | json
  /-- The advice model of the module, which is not woven. -/
  | advice
  /-- The provenance of the module. -/
  | buildInfo
  deriving DecidableEq, Inhabited

/-- The stage with the given name. -/
def Stage.ofText? : String → Option Stage
  | "module" => some .module
  | "json" => some .json
  | "advice" => some .advice
  | "build-info" => some .buildInfo
  | _ => none

/-- The options that have a value. -/
inductive ValueOption
  | output
  | emit
  | settings
  | markerNamespace
  | manifest
  deriving DecidableEq, Inhabited

/-- The options that have no value. -/
inductive Flag
  | noVerify
  | verbose
  | help
  | version
  deriving DecidableEq, Inhabited

/-- An option. -/
inductive CliOption
  | value (option : ValueOption)
  | flag (flag : Flag)
  deriving DecidableEq, Inhabited

/-- The option with the given long name. -/
def CliOption.ofName? : String → Option CliOption
  | "output" => some (.value .output)
  | "emit" => some (.value .emit)
  | "settings" => some (.value .settings)
  | "marker-namespace" => some (.value .markerNamespace)
  | "manifest" => some (.value .manifest)
  | "no-verify" => some (.flag .noVerify)
  | "verbose" => some (.flag .verbose)
  | "help" => some (.flag .help)
  | "version" => some (.flag .version)
  | _ => none

/-- The option with the given letter. -/
def CliOption.ofLetter? : Char → Option CliOption
  | 'o' => some (.value .output)
  | 'h' => some (.flag .help)
  | 'V' => some (.flag .version)
  | _ => none

/-- What a command line asks for. -/
structure Arguments where
  inputs : List String := []
  output : Option String := none
  emit : Option Stage := none
  settings : Option String := none
  markerNamespace : Option String := none
  manifest : Option String := none
  noVerify : Bool := false
  verbose : Bool := false
  deriving DecidableEq, Inhabited

/-- What is wrong with a command line. -/
inductive UsageFault
  | unknownOption (text : String)
  | missingValue
  | unexpectedValue
  | repeatedOption
  | badValue (text : String)
  | noInputs
  deriving DecidableEq, Inhabited

/-- The message about a command line. -/
def UsageFault.message : UsageFault → String
  | unknownOption text => s!"unexpected argument '{text}'"
  | missingValue => "an option has no value"
  | unexpectedValue => "an option has a value that takes none"
  | repeatedOption => "an option is used more than once"
  | badValue text => s!"invalid value '{text}'"
  | noInputs => "no inputs are given"

/-- What a valid command line asks to do. -/
inductive Request
  | run (arguments : Arguments)
  | showHelp
  | showVersion
  deriving DecidableEq, Inhabited

namespace Arguments

/-- A value for an option that has none yet. -/
def once {α : Type} (old : Option α) (new : α) : Except UsageFault (Option α) :=
  if old.isSome then .error .repeatedOption else .ok (some new)

/-- A path; it is not empty. -/
def path (text : String) : Except UsageFault String :=
  if text.isEmpty then .error (.badValue text) else .ok text

/-- Give an option its value. -/
def setValue (a : Arguments) (text : String) : ValueOption → Except UsageFault Arguments
  | .output => do return { a with output := ← once a.output (← path text) }
  | .emit =>
    match Stage.ofText? text with
    | some stage => do return { a with emit := ← once a.emit stage }
    | none => .error (.badValue text)
  | .settings => do return { a with settings := ← once a.settings (← path text) }
  | .markerNamespace => do return { a with markerNamespace := ← once a.markerNamespace text }
  | .manifest => do return { a with manifest := ← once a.manifest (← path text) }

/-- Add an input. -/
def addInput (a : Arguments) (text : String) : Except UsageFault Arguments := do
  return { a with inputs := a.inputs ++ [← path text] }

end Arguments

/-! ### Reading a command line -/

/-- What has been read so far: what is asked for, and the option whose value comes next, if one does. Nothing more is
read once help or the version is asked for. -/
inductive Progress
  | reading (arguments : Arguments) (awaiting : Option ValueOption)
  | finished (request : Request)
  deriving DecidableEq, Inhabited

namespace Progress

/-- Read an option without a value. -/
def raise (a : Arguments) : Flag → Except UsageFault Progress
  | .help => .ok (.finished .showHelp)
  | .version => .ok (.finished .showVersion)
  | .noVerify => if a.noVerify then .error .repeatedOption else .ok (.reading { a with noVerify := true } none)
  | .verbose => if a.verbose then .error .repeatedOption else .ok (.reading { a with verbose := true } none)

/-- Read an option by its long name, and its value, if one is attached. -/
def long (a : Arguments) (name : String) (value? : Option String) : Except UsageFault Progress :=
  match CliOption.ofName? name, value? with
  | none, _ => .error (.unknownOption ("--" ++ name))
  | some (.value option), some value => (a.setValue value option).map (.reading · none)
  | some (.value option), none => .ok (.reading a (some option))
  | some (.flag flag), none => raise a flag
  | some (.flag _), some _ => .error .unexpectedValue

/-- A value that is attached to a letter; an equals sign may stand between them. -/
def attached : List Char → String
  | '=' :: value => String.ofList value
  | value => String.ofList value

/-- Read options by their letters. The first that takes a value takes what is left. -/
def letters (a : Arguments) : List Char → Except UsageFault Progress
  | [] => .ok (.reading a none)
  | c :: rest =>
    match CliOption.ofLetter? c with
    | none => .error (.unknownOption (String.ofList ['-', c]))
    | some (.value option) =>
      if rest.isEmpty then .ok (.reading a (some option))
      else (a.setValue (attached rest) option).map (.reading · none)
    | some (.flag flag) => do
      match ← raise a flag with
      | .reading a _ => letters a rest
      | .finished request => .ok (.finished request)

/-- Read one argument, before `--`. -/
def step (a : Arguments) (awaiting : Option ValueOption) (text : String) : Except UsageFault Progress :=
  match text.toList, awaiting with
  | '-' :: _ :: _, some _ => .error .missingValue
  | '-' :: '-' :: option, none =>
    match option.span (· ≠ '=') with
    | (name, _ :: value) => long a (String.ofList name) (some (String.ofList value))
    | (name, []) => long a (String.ofList name) none
  | '-' :: c :: rest, none => letters a (c :: rest)
  | _, some option => (a.setValue text option).map (.reading · none)
  | _, none => (a.addInput text).map (.reading · none)

end Progress

namespace Request

/-- The request of a command line that has been read to its end. -/
def ofArguments (a : Arguments) : Except UsageFault Request :=
  if a.inputs.isEmpty then .error .noInputs else .ok (.run a)

/-- Read the arguments behind those that have been read. -/
def parseFrom (a : Arguments) (awaiting : Option ValueOption) : List String → Except UsageFault Request
  | [] => if awaiting.isSome then .error .missingValue else ofArguments a
  | "--" :: inputs =>
    if awaiting.isSome then .error .missingValue
    else do ofArguments (← inputs.foldlM (·.addInput ·) a)
  | text :: rest => do
    match ← Progress.step a awaiting text with
    | .reading a awaiting => parseFrom a awaiting rest
    | .finished request => .ok request

/-- Read a command line, without the name of the program. -/
def parse (arguments : List String) : Except UsageFault Request :=
  parseFrom {} none arguments

end Request

end AdviceWeaving
