import AdviceWeaving.Manifest

/-!
# Weaving files

`weaveBatch` weaves a list of files. With a manifest it first decides which of them to skip, and in the end remembers
what it wrote. A file that fails does not keep the others from being woven. Only a target that moves beyond the numbers
of 64 bits does: there the program stops, and the batch has no outcome.
-/

namespace AdviceWeaving

/-- A file to weave, and where to write the result. -/
structure Job where
  input : OsString
  output : OsString
  deriving DecidableEq, Inhabited

/-- Weave a file in its place. -/
def Job.inPlace (path : OsString) : Job :=
  ⟨path, path⟩

/-- What became of a job. -/
inductive JobStatus
  | skipped (reason : SkipReason)
  /-- The result was written, and has the given digest. -/
  | woven (report : PassReport) (digest : String)
  | failed (failure : FileFailure)
  deriving DecidableEq, Inhabited

/-- A job, and what became of it. -/
structure JobOutcome where
  job : Job
  status : JobStatus
  deriving DecidableEq, Inhabited

/-- The job failed, or errors were found. -/
def JobOutcome.isFailure (o : JobOutcome) : Bool :=
  match o.status with
  | .skipped _ => false
  | .woven report _ => report.hasErrors
  | .failed _ => true

/-- Remember what the jobs that were woven wrote. -/
def Manifest.recordAll (manifest : Manifest) (outcomes : List JobOutcome) : Manifest :=
  outcomes.foldl (fun manifest o =>
    match o.status with
    | .woven _ digest => manifest.record o.job.output.display digest
    | _ => manifest) manifest

section

variable {m : Type → Type} [Monad m] [MonadFiles m]

/-- Weave one file. The result is written even if some marker types were rejected. -/
def weaveFile (settings : Settings) (job : Job) : ExceptT FileFailure (OptionT m) (PassReport × String) := do
  let module ← readModule job.input
  match module.weave settings with
  | (.error .overflow, _) => ExceptT.lift OptionT.fail
  | (.error failure, _) => throw (.weaving failure)
  | (.ok report, woven) => pure (report, ← writeModule job.output woven)

/-- Why a job is to be skipped. A file that cannot be read is never skipped. -/
def skipReason? (manifest : Manifest) (job : Job) : m (Option SkipReason) := do
  match ← (readText job.input).run with
  | .error _ => pure none
  | .ok source => pure (manifest.skipReason? job.input.display (sha256Hex source))

/-- Do a job, unless there is a reason to skip it. -/
def runJob (settings : Settings) : Job × Option SkipReason → OptionT m JobOutcome
  | (job, some reason) => pure ⟨job, .skipped reason⟩
  | (job, none) => do
    match ← (weaveFile settings job).run with
    | .ok (report, digest) => pure ⟨job, .woven report digest⟩
    | .error failure => pure ⟨job, .failed failure⟩

/-- Weave files in order. Gives the outcomes, and the manifest as it is afterwards. -/
def weaveBatch (settings : Settings) (jobs : List Job) (manifest? : Option Manifest) :
    OptionT m (List JobOutcome × Option Manifest) := do
  let plan ← jobs.mapM fun job => do
    pure (job, ← match manifest? with
      | some manifest => skipReason? manifest job
      | none => pure none)
  let outcomes ← plan.mapM (runJob settings)
  pure (outcomes, manifest?.map (·.recordAll outcomes))

end

end AdviceWeaving
