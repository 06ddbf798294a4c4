import AdviceWeaving.Batch
import AdviceWeaving.CommandLine.Arguments
import AdviceWeaving.Provenance

/-!
# The program

`runCommandLine` is what the program does: it reads the command line, works on files, and tells what to print and with
which status to end. The status is 0 if all went well, 1 if errors were found in a module, and 2 if something could not
be done.
-/

namespace AdviceWeaving

/-- What a run leaves behind, besides the files that it wrote. -/
structure RunResult where
  exitCode : UInt8 := 0
  stdout : String := ""
  stderr : String := ""
  deriving DecidableEq, Inhabited

/-- The name of the program. -/
def programName : String := "aiw"

/-- The text that explains the command line. -/
def helpText : String :=
  joinLines
    ["Usage: aiw [OPTIONS] <INPUTS>...",
      "",
      "  -o, --output <PATH>            write the result of a single input there",
      "      --emit <STAGE>             module, json, advice or build-info",
      "      --settings <PATH>          read settings in JSON",
      "      --marker-namespace <NAME>  the namespace of the markers",
      "      --manifest <PATH>          remember results, and skip unchanged inputs",
      "      --no-verify                do not verify the result",
      "      --verbose                  log more",
      "  -h, --help                     print help",
      "  -V, --version                  print the version"]

namespace RunResult

/-- The run ends because something cannot be done. -/
def failure (message : String) : RunResult where
  exitCode := 2
  stderr := s!"{programName}: error: {message}\n"

/-- The command line is wrong. -/
def usage (fault : UsageFault) : RunResult where
  exitCode := 2
  stderr := s!"error: {fault.message}\n\n{helpText}"

/-- The run stops, since a target has moved beyond the numbers of 64 bits. -/
def stopped : RunResult where
  exitCode := 101
  stderr := "attempt to add with overflow\n"

/-- The run prints a text. -/
def print (text : String) : RunResult where
  stdout := text

/-- What a run leaves that may fail. -/
def ofExcept : Except FileFailure RunResult → RunResult
  | .ok result => result
  | .error e => failure e.message

end RunResult

/-- The status of a report. -/
def PassReport.exitCode (r : PassReport) : UInt8 :=
  if r.hasErrors then 1 else 0

/-- The lines that tell of diagnostics. -/
def diagnosticLines (label : String) (diagnostics : List Diagnostic) : String :=
  joinLines (diagnostics.map fun d => s!"{label}: {d.text}")

/-- What is told of a job. -/
def JobOutcome.text (o : JobOutcome) : String :=
  match o.status with
  | .skipped _ => ""
  | .woven report _ => diagnosticLines s!"{programName}: {o.job.input.display}" report.diagnostics
  | .failed e => s!"{programName}: error: {e.message}\n"

/-- The status of a job. -/
def JobOutcome.exitCode (o : JobOutcome) : UInt8 :=
  match o.status with
  | .skipped _ => 0
  | .woven report _ => report.exitCode
  | .failed _ => 2

/-- What is told of a list of jobs. The worst status counts. -/
def RunResult.ofOutcomes (outcomes : List JobOutcome) : RunResult where
  exitCode := outcomes.foldl (fun worst o => max worst o.exitCode) 0
  stderr := String.join (outcomes.map (·.text))

/-- The only input, for the stages that print. -/
def Arguments.singleInput? (a : Arguments) : Option String :=
  match a.inputs with
  | [input] => some input
  | _ => none

/-- The jobs of a command line. There are none if an output is given for several inputs. -/
def Arguments.jobs? (a : Arguments) : Option (List Job) :=
  match a.output, a.inputs with
  | none, inputs => some (inputs.map fun input => .inPlace (.ofString input))
  | some output, [input] => some [⟨input, output⟩]
  | some _, _ => none

/-- Settings, with those that the command line gives in their place. -/
def Settings.withArguments (s : Settings) (a : Arguments) : Settings :=
  { s with
    markerNamespace := a.markerNamespace.getD s.markerNamespace
    verify := s.verify && !a.noVerify }

section

variable {m : Type → Type} [Monad m] [MonadFiles m]

/-- The settings in a file. -/
def Settings.load (path : OsString) : ExceptT FileFailure m Settings := do
  match Settings.ofJson (← readText path) with
  | .ok settings => pure settings
  | .error e => throw (.source path (.json e))

/-- The settings that a command line asks for. -/
def Arguments.loadSettings (a : Arguments) : ExceptT FileFailure m Settings := do
  let settings ← match a.settings with
    | some path => Settings.load path
    | none => pure {}
  pure (settings.withArguments a)

/-- Print the provenance of a module. -/
def runBuildInfo (settings : Settings) (input : String) : ExceptT FileFailure m RunResult := do
  pure (.print (Provenance.of (← readText input) settings).text)

/-- Print the advice model of a module. -/
def runAdvice (settings : Settings) (input : String) : ExceptT FileFailure m RunResult := do
  let module ← readModule input
  match module.markerTypes settings.markers with
  | .ok found => pure (.print ((Json.ofList MarkerType.toJson found).pretty ++ "\n"))
  | .error failure => throw (.weaving failure)

/-- Weave a module and print it in JSON. -/
def runJson (settings : Settings) (input : String) : ExceptT FileFailure (OptionT m) RunResult := do
  let module ← readModule input
  match module.weave settings with
  | (.error .overflow, _) => ExceptT.lift OptionT.fail
  | (.ok report, woven) =>
    pure
      { exitCode := report.exitCode
        stdout := Encoding.json.encode woven
        stderr := diagnosticLines programName report.diagnostics }
  | (.error failure, _) => throw (.weaving failure)

/-- Weave files, with the manifest in a file, if there is one. -/
def runJobs (settings : Settings) (jobs : List Job) : Option String → ExceptT FileFailure (OptionT m) RunResult
  | none => do
    let (outcomes, _) ← ExceptT.lift (weaveBatch settings jobs none)
    pure (.ofOutcomes outcomes)
  | some path => do
    let manifest ← Manifest.load path
    let (outcomes, manifest?) ← ExceptT.lift (weaveBatch settings jobs (some manifest))
    let result := RunResult.ofOutcomes outcomes
    match ← ExceptT.lift ((manifest?.getD manifest).save path).run with
    | .ok () => pure result
    | .error e =>
      let failure := RunResult.failure e.message
      pure { failure with stderr := result.stderr ++ failure.stderr }

/-- Do what a command line asks for, with its settings. -/
def runStage (settings : Settings) (a : Arguments) : ExceptT FileFailure (OptionT m) RunResult :=
  let single (run : String → ExceptT FileFailure (OptionT m) RunResult) : ExceptT FileFailure (OptionT m) RunResult :=
    match a.singleInput? with
    | some input => run input
    | none => pure (.failure "this --emit stage takes exactly one input")
  match a.emit.getD .module with
  | .buildInfo => single (runBuildInfo settings)
  | .advice => single (runAdvice settings)
  | .json => single (runJson settings)
  | .module =>
    match a.jobs? with
    | some jobs => runJobs settings jobs a.manifest
    | none => pure (.failure "--output requires exactly one input")

/-- Do what a command line asks for. -/
def runArguments (a : Arguments) : m RunResult := do
  match ← (do runStage (← a.loadSettings) a : ExceptT FileFailure (OptionT m) RunResult).run.run with
  | some result => pure (.ofExcept result)
  | none => pure .stopped

/-- Run the program. -/
def runCommandLine (arguments : List String) : m RunResult :=
  match Request.parse arguments with
  | .error fault => pure (.usage fault)
  | .ok .showHelp => pure (.print helpText)
  | .ok .showVersion => pure (.print s!"{programName} {weaverVersion}\n")
  | .ok (.run a) => runArguments a

end

end AdviceWeaving
