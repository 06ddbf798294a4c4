import AdviceWeaving.Batch
import AdviceWeaving.Proofs.Files

/-!
# Jobs

What becomes of a job that weaves a file in its place depends on that file alone, and on what its place takes
(`Batch.verdict`): whether the manifest lets it be skipped, whether its text can be woven, and what is then written
(`Batch.perform_runJob`). A batch of any jobs decides for all of them whether they are skipped, as the files are before
it, and then does one after the other (`Batch.doJobs_eq`). It stops where a job stops.
-/

namespace AdviceWeaving

/-! ### Single jobs -/

namespace Batch

variable {settings : Settings} {manifest? : Option Manifest} {fs fs' cur : FileSystem} {path path' : OsString}

/-- The text in a file. -/
def textAt (fs : FileSystem) (path : OsString) : Except FileFailure String :=
  match fs.read path with
  | .error e => .error (.io path e)
  | .ok content =>
    match String.fromUTF8? content with
    | some text => .ok text
    | none => .error (.io path .invalidText)

private theorem fromUTF8?_eq_some_iff {content : ByteArray} {text : String} :
    String.fromUTF8? content = some text ↔ content = text.toUTF8 := by
  constructor
  · intro h
    unfold String.fromUTF8? at h
    split at h
    · cases h
      rfl
    · cases h
  · rintro rfl
    simp only [String.fromUTF8?, String.toUTF8_eq_toByteArray, dif_pos text.isValidUTF8]
    rfl

theorem textAt_eq_ok_iff {text : String} : textAt fs path = .ok text ↔ fs.read path = .ok text.toUTF8 := by
  unfold textAt
  cases hread : fs.read path with
  | error e => simp
  | ok content =>
    rw [Except.ok.injEq, ← fromUTF8?_eq_some_iff]
    cases htext : String.fromUTF8? content <;> simp [htext]

/-- What weaving makes of the text of a file. -/
def weaveText (settings : Settings) (path : OsString) (text : String) : Except FileFailure (PassReport × String) :=
  match (Encoding.ofPath path).decode text with
  | .error e => .error (.source path e)
  | .ok module =>
    match module.weave settings with
    | (.error failure, _) => .error (.weaving failure)
    | (.ok report, woven) => .ok (report, (Encoding.ofPath path).encode woven)

/-- Why a file is to be skipped. -/
def skipReason? (manifest? : Option Manifest) (fs : FileSystem) (path : OsString) : Option SkipReason :=
  manifest?.bind fun manifest =>
    match textAt fs path with
    | .error _ => none
    | .ok source => manifest.skipReason? path.display (sha256Hex source)

/-- What becomes of a job that is not skipped, and where it leaves what. -/
def written (fs : FileSystem) (path : OsString) :
    Except FileFailure (PassReport × String) → JobStatus × Option (Location × ByteArray)
  | .error failure => (.failed failure, none)
  | .ok (report, text) =>
    match fs.locate path with
    | .error e => (.failed (.io path e), none)
    | .ok l =>
      match fs.accept l text.toUTF8 with
      | (.ok (), written?) => (.woven report (sha256Hex text), written?.map (l, ·))
      | (.error e, written?) => (.failed (.io path e), written?.map (l, ·))

/-- What becomes of a job, and where it leaves what. -/
def verdict (settings : Settings) (manifest? : Option Manifest) (fs : FileSystem) (path : OsString) :
    JobStatus × Option (Location × ByteArray) :=
  match skipReason? manifest? fs path with
  | some reason => (.skipped reason, none)
  | none => written fs path (textAt fs path >>= weaveText settings path)

theorem verdict_of_skipped {reason : SkipReason} (h : skipReason? manifest? fs path = some reason) :
    verdict settings manifest? fs path = (.skipped reason, none) := by
  rw [verdict, h]

theorem verdict_of_not_skipped (h : skipReason? manifest? fs path = none) :
    verdict settings manifest? fs path = written fs path (textAt fs path >>= weaveText settings path) := by
  rw [verdict, h]

/-- The program stops at the job. -/
def Stops (settings : Settings) (manifest? : Option Manifest) (fs : FileSystem) (path : OsString) : Prop :=
  (verdict settings manifest? fs path).1 = .failed (.weaving .overflow)

instance (settings : Settings) (manifest? : Option Manifest) (fs : FileSystem) (path : OsString) :
    Decidable (Stops settings manifest? fs path) :=
  inferInstanceAs (Decidable (_ = _))

/-! ### Work on files -/

/-- Work on files, which may fail, and may stop. -/
abbrev Filing (α : Type) : Type :=
  ExceptT FileFailure (OptionT (StateM FileSystem)) α

/-- Do some work. Gives nothing if it stops. -/
def perform {α : Type} (x : OptionT (StateM FileSystem) α) (fs : FileSystem) : Option α × FileSystem :=
  x.run.run fs

private theorem perform_bind {α β : Type} (x : OptionT (StateM FileSystem) α) (f : α → OptionT (StateM FileSystem) β)
    (fs : FileSystem) :
    perform (x >>= f) fs = match perform x fs with
      | (some a, fs') => perform (f a) fs'
      | (none, fs') => (none, fs') := by
  simp only [perform, OptionT.run, bind, OptionT.bind, OptionT.mk, StateT.bind, StateT.run]
  rcases (x fs : Option α × FileSystem) with ⟨_ | _, _⟩ <;> rfl

theorem perform_map {α β : Type} (f : α → β) (x : OptionT (StateM FileSystem) α) (fs : FileSystem) :
    perform (f <$> x) fs = ((perform x fs).1.map f, (perform x fs).2) := by
  rw [map_eq_pure_bind, perform_bind]
  rcases perform x fs with ⟨_ | _, _⟩ <;> rfl

theorem perform_run_bind {α β : Type} (x : Filing α) (f : α → Filing β) (fs : FileSystem) :
    perform (x >>= f).run fs = match perform x.run fs with
      | (some (.ok a), fs') => perform (f a).run fs'
      | (some (.error failure), fs') => (some (.error failure), fs')
      | (none, fs') => (none, fs') := by
  show perform (x.run >>= ExceptT.bindCont f) fs = _
  rw [perform_bind]
  rcases perform x.run fs with ⟨_ | _ | _, _⟩ <;> rfl

private theorem perform_run_pure {α : Type} (a : α) (fs : FileSystem) :
    perform (pure a : Filing α).run fs = (some (.ok a), fs) := rfl

theorem perform_readText (fs : FileSystem) (path : OsString) :
    perform (readText path : Filing String).run fs = (some (textAt fs path), fs) := by
  rw [readText, perform_run_bind]
  unfold textAt
  show perform (match fs.read path with
    | .error e => (throw (FileFailure.io path e) : Filing String)
    | .ok content =>
      match String.fromUTF8? content with
      | some text => pure text
      | none => throw (FileFailure.io path .invalidText)).run fs = _
  split
  · rfl
  · split <;> rfl

theorem perform_writeText (fs : FileSystem) (path : OsString) (text : String) :
    perform (writeText path text : Filing Unit).run fs =
      (some ((fs.write path text.toUTF8).1.mapError (.io path)), (fs.write path text.toUTF8).2) := by
  have hwrite : perform (liftM (MonadFiles.write path text.toUTF8 : OptionT (StateM FileSystem) (Except IoError Unit)) :
      Filing (Except IoError Unit)).run fs =
        (some (.ok (fs.write path text.toUTF8).1), (fs.write path text.toUTF8).2) := rfl
  rw [writeText, perform_run_bind, hwrite]
  cases (fs.write path text.toUTF8).1 <;> rfl

/-- What comes of weaving a file in its place. -/
def filed (fs : FileSystem) (path : OsString) :
    Except FileFailure (PassReport × String) → Option (Except FileFailure (PassReport × String)) × FileSystem
  | .error (.weaving .overflow) => (none, fs)
  | .error failure => (some (.error failure), fs)
  | .ok (report, text) =>
    (some ((fs.write path text.toUTF8).1.mapError (.io path) |>.map fun _ => (report, sha256Hex text)),
      (fs.write path text.toUTF8).2)

private theorem filed_error {failure : FileFailure} (h : failure ≠ .weaving .overflow) :
    filed fs path (.error failure) = (some (.error failure), fs) := by
  unfold filed
  split
  · next heq => exact absurd (Except.error.inj heq) h
  · next heq =>
    cases heq
    rfl
  · next heq => cases heq

/-- A text is never read with an overflow. -/
private theorem ne_overflow_of_textAt {failure : FileFailure} (h : textAt fs path = .error failure) :
    failure ≠ .weaving .overflow := by
  rintro rfl
  unfold textAt at h
  split at h
  · cases h
  · split at h <;> cases h

theorem perform_weaveFile (settings : Settings) (fs : FileSystem) (path : OsString) :
    perform (weaveFile settings (.inPlace path) : Filing (PassReport × String)).run fs =
      filed fs path (textAt fs path >>= weaveText settings path) := by
  rw [weaveFile, perform_run_bind, readModule, perform_run_bind, show (Job.inPlace path).input = path from rfl,
    perform_readText]
  cases htext : textAt fs path with
  | error failure =>
    exact (filed_error (ne_overflow_of_textAt htext)).symm
  | ok text =>
    have hbind : (Except.ok text >>= weaveText settings path) = weaveText settings path text := rfl
    rw [hbind, weaveText]
    dsimp only
    cases (Encoding.ofPath path).decode text with
    | error e => rfl
    | ok m =>
      rw [perform_run_pure]
      dsimp only
      rcases m.weave settings with ⟨failure | report, woven⟩
      · cases failure <;> rfl
      · dsimp only
        rw [perform_run_bind, writeModule, perform_run_bind, perform_writeText,
          show (Job.inPlace path).output = path from rfl]
        show _ = (some (((fs.write path ((Encoding.ofPath path).encode woven).toUTF8).1.mapError
          (FileFailure.io path)).map fun _ => (report, sha256Hex ((Encoding.ofPath path).encode woven))), _)
        cases (fs.write path ((Encoding.ofPath path).encode woven).toUTF8).1 <;> rfl

theorem textAt_congr (h : cur.read path = fs.read path) : textAt cur path = textAt fs path := by
  rw [textAt, textAt, h]

theorem exists_text_of_woven {result : PassReport × String}
    (h : textAt fs path >>= weaveText settings path = .ok result) :
    ∃ source, textAt fs path = .ok source ∧ weaveText settings path source = .ok result := by
  cases htext : textAt fs path with
  | error failure =>
    rw [htext] at h
    cases h
  | ok source =>
    rw [htext] at h
    exact ⟨source, rfl, h⟩

/-- Only files that can be read are woven. -/
private theorem exists_read_of_woven {report : PassReport} {text : String}
    (h : textAt fs path >>= weaveText settings path = .ok (report, text)) :
    ∃ content l, fs.read path = .ok content ∧ fs.locate path = .ok l := by
  obtain ⟨source, htext, -⟩ := exists_text_of_woven h
  have hread := textAt_eq_ok_iff.1 htext
  obtain ⟨l, hl, -⟩ := FileSystem.read_eq_ok_iff.1 hread
  exact ⟨source.toUTF8, l, hread, hl⟩

/-- How a job ends that was not skipped. -/
def ended (job : Job) : Except FileFailure (PassReport × String) → JobOutcome
  | .ok (report, digest) => ⟨job, .woven report digest⟩
  | .error failure => ⟨job, .failed failure⟩

theorem perform_runJob_of_not_skipped (settings : Settings) (job : Job) (fs : FileSystem) :
    perform (runJob settings (job, none)) fs =
      ((perform (weaveFile settings job : Filing (PassReport × String)).run fs).1.map (ended job),
        (perform (weaveFile settings job : Filing (PassReport × String)).run fs).2) := by
  rw [runJob, perform_bind]
  rcases perform (weaveFile settings job : Filing (PassReport × String)).run fs with ⟨_ | _ | _, _⟩ <;> rfl

theorem perform_runJob_self (settings : Settings) (manifest? : Option Manifest) (fs : FileSystem)
    (path : OsString) : perform (runJob settings (.inPlace path, skipReason? manifest? fs path)) fs =
      if Stops settings manifest? fs path then (none, fs)
      else (some ⟨.inPlace path, (verdict settings manifest? fs path).1⟩,
        fs.put (verdict settings manifest? fs path).2) := by
  cases hskip : skipReason? manifest? fs path with
  | some reason =>
    simp only [Stops, verdict_of_skipped hskip]
    rfl
  | none =>
    rw [perform_runJob_of_not_skipped, perform_weaveFile]
    cases hwoven : textAt fs path >>= weaveText settings path with
    | error failure =>
      have hverdict : verdict settings manifest? fs path = (.failed failure, none) := by
        rw [verdict_of_not_skipped hskip, hwoven]
        rfl
      simp only [Stops, hverdict, JobStatus.failed.injEq]
      by_cases hstops : failure = .weaving .overflow
      · rw [if_pos hstops, hstops]
        rfl
      · rw [if_neg hstops, filed_error hstops]
        rfl
    | ok woven =>
      obtain ⟨report, text⟩ := woven
      obtain ⟨content, l, hcontent, hl⟩ := exists_read_of_woven hwoven
      have hverdict := @verdict_of_not_skipped settings manifest? fs path hskip
      rw [hwoven, written, hl] at hverdict
      simp only [Stops, hverdict, filed, FileSystem.write_eq_put hcontent hl]
      rcases fs.accept l text.toUTF8 with ⟨e | _, written?⟩ <;> rfl

/-- A job that is skipped or not as it was before does as it did, if its file is as it was. -/
theorem verdict_congr {manifest?' : Option Manifest} (hroom : fs.WritesApart) (hsame : fs.Unchanged cur path)
    (hskip : skipReason? manifest?' cur path = skipReason? manifest? fs path) :
    verdict settings manifest?' cur path = verdict settings manifest? fs path := by
  rw [verdict, verdict, hskip, textAt_congr hsame.read_eq]
  cases skipReason? manifest? fs path with
  | some reason => rfl
  | none =>
    dsimp only
    cases hwoven : textAt fs path >>= weaveText settings path with
    | error failure => rfl
    | ok woven =>
      obtain ⟨report, text⟩ := woven
      obtain ⟨content, l, hcontent, hl⟩ := exists_read_of_woven hwoven
      simp only [written, hsame.locate_eq, hl, hroom.accept_eq hsame hcontent hl]

/-- A job that is done while its file is as it was before the batch. -/
theorem perform_runJob (hroom : fs.WritesApart) (hsame : fs.Unchanged cur path) :
    perform (runJob settings (.inPlace path, skipReason? manifest? fs path)) cur =
      if Stops settings manifest? fs path then (none, cur)
      else (some ⟨.inPlace path, (verdict settings manifest? fs path).1⟩,
        cur.put (verdict settings manifest? fs path).2) := by
  have hskip : skipReason? manifest? cur path = skipReason? manifest? fs path := by
    simp only [skipReason?, textAt_congr hsame.read_eq]
  have hverdict : verdict settings manifest? cur path = verdict settings manifest? fs path :=
    verdict_congr hroom hsame hskip
  have hstops : Stops settings manifest? cur path ↔ Stops settings manifest? fs path := by
    rw [Stops, Stops, hverdict]
  rw [← hskip, perform_runJob_self, hverdict]
  simp only [hstops]

/-- The ways in which a job can end. -/
theorem verdict_cases (settings : Settings) (manifest? : Option Manifest) (fs : FileSystem) (path : OsString) :
    (∃ reason, verdict settings manifest? fs path = (.skipped reason, none)) ∨
    (∃ failure, verdict settings manifest? fs path = (.failed failure, none)) ∨
    (∃ content l report text, fs.read path = .ok content ∧ fs.locate path = .ok l ∧
      verdict settings manifest? fs path = (.woven report (sha256Hex text), some (l, text.toUTF8))) ∨
    ∃ content l report text length e, fs.read path = .ok content ∧ fs.locate path = .ok l ∧
      textAt fs path >>= weaveText settings path = .ok (report, text) ∧
      fs.writeFault? fs.entries l text.toUTF8 = some (.cutOff length e) ∧
      verdict settings manifest? fs path = (.failed (.io path e), some (l, text.toUTF8.extract 0 length)) := by
  cases hskip : skipReason? manifest? fs path with
  | some reason => exact .inl ⟨reason, verdict_of_skipped hskip⟩
  | none =>
    rw [verdict_of_not_skipped hskip]
    cases hwoven : textAt fs path >>= weaveText settings path with
    | error failure => exact .inr (.inl ⟨failure, rfl⟩)
    | ok woven =>
      obtain ⟨report, text⟩ := woven
      obtain ⟨content, l, hcontent, hl⟩ := exists_read_of_woven hwoven
      rw [written, hl]
      dsimp only
      rcases fs.accept_cases l text.toUTF8 with haccept | ⟨e, haccept⟩ | ⟨length, e, hfault, haccept⟩
      · exact .inr (.inr (.inl ⟨content, l, report, text, hcontent, rfl, by rw [haccept]; rfl⟩))
      · exact .inr (.inl ⟨.io path e, by rw [haccept]; rfl⟩)
      · exact .inr (.inr (.inr
          ⟨content, l, report, text, length, e, hcontent, rfl, rfl, hfault, by rw [haccept]; rfl⟩))

/-- A job that is skipped leaves nothing. -/
theorem nothing_of_skipped {reason : SkipReason} (h : (verdict settings manifest? fs path).1 = .skipped reason) :
    (verdict settings manifest? fs path).2 = none := by
  rcases verdict_cases settings manifest? fs path with
    ⟨_, h'⟩ | ⟨_, h'⟩ | ⟨_, _, _, _, -, -, h'⟩ | ⟨_, _, _, _, _, _, -, -, -, -, h'⟩ <;> rw [h'] at h ⊢
  · cases h
  · cases h

/-- A job leaves nothing, or something in its own file. -/
theorem verdict_snd_cases (settings : Settings) (manifest? : Option Manifest) (fs : FileSystem) (path : OsString) :
    (verdict settings manifest? fs path).2 = none ∨
    ∃ content l kept, fs.read path = .ok content ∧ fs.locate path = .ok l ∧
      (verdict settings manifest? fs path).2 = some (l, kept) := by
  rcases verdict_cases settings manifest? fs path with
    ⟨_, h⟩ | ⟨_, h⟩ | ⟨content, l, _, text, hcontent, hl, h⟩ | ⟨content, l, _, text, length, _, hcontent, hl, -, -, h⟩
  · exact .inl (congrArg Prod.snd h)
  · exact .inl (congrArg Prod.snd h)
  · exact .inr ⟨content, l, text.toUTF8, hcontent, hl, congrArg Prod.snd h⟩
  · exact .inr ⟨content, l, text.toUTF8.extract 0 length, hcontent, hl, congrArg Prod.snd h⟩

/-- A job leaves all files but its own as they are. -/
theorem put_verdict (settings : Settings) (manifest? : Option Manifest) (htree : fs.SameTree cur)
    (hread : cur.read path = fs.read path) :
    fs.SameTree (cur.put (verdict settings manifest? fs path).2) ∧
      ∀ path', ¬ fs.SameFile path path' →
        (cur.put (verdict settings manifest? fs path).2).read path' = cur.read path' := by
  rcases verdict_snd_cases settings manifest? fs path with h | ⟨content, l, kept, hcontent, hl, h⟩
  · rw [h]
    exact ⟨htree, fun _ _ => rfl⟩
  · rw [h]
    have hlocate := (htree.locate_eq path).trans hl
    obtain ⟨_, hl', hentry, -⟩ := FileSystem.read_eq_ok_iff.1 (hread.trans hcontent)
    cases hlocate.symm.trans hl'
    refine ⟨htree.trans (FileSystem.sameTree_overwrite hentry kept), fun path' hother => ?_⟩
    exact FileSystem.read_overwrite_of_not_sameFile (hread.trans hcontent) hlocate
      (fun hsame => hother (htree.sameFile hsame)) kept

/-! ### Batches -/

/-- What is decided about a job before any is done. -/
private def decide? (manifest? : Option Manifest) (job : Job) :
    OptionT (StateM FileSystem) (Job × Option SkipReason) := do
  pure (job, ← match manifest? with
    | some manifest => AdviceWeaving.skipReason? manifest job
    | none => pure none)

private theorem perform_decide? (manifest? : Option Manifest) (fs : FileSystem) (job : Job) :
    perform (decide? manifest? job) fs = (some (job, skipReason? manifest? fs job.input), fs) := by
  cases manifest? with
  | none => rfl
  | some manifest =>
    have hskip : perform (AdviceWeaving.skipReason? manifest job) fs =
        (some (skipReason? (some manifest) fs job.input), fs) := by
      rw [AdviceWeaving.skipReason?, perform_bind, perform_readText]
      unfold skipReason?
      dsimp only [Option.bind_some]
      cases textAt fs job.input <;> rfl
    rw [decide?, perform_bind, hskip]
    rfl

/-- The jobs, and why they are to be skipped. -/
def plan (manifest? : Option Manifest) (fs : FileSystem) (jobs : List Job) : List (Job × Option SkipReason) :=
  jobs.map fun job => (job, skipReason? manifest? fs job.input)

private theorem perform_plan (manifest? : Option Manifest) (fs : FileSystem) (jobs : List Job) :
    perform (jobs.mapM (decide? manifest?)) fs = (some (plan manifest? fs jobs), fs) := by
  induction jobs with
  | nil => rfl
  | cons job jobs ih =>
    rw [List.mapM_cons, perform_bind, perform_decide?]
    dsimp only
    rw [perform_bind, ih]
    rfl

/-- Do the jobs of a plan. Gives the outcomes, unless a job stops, and the files as they are afterwards. -/
def carryOut (settings : Settings) (plan : List (Job × Option SkipReason)) (fs : FileSystem) :
    Option (List JobOutcome) × FileSystem :=
  perform (plan.mapM (runJob settings)) fs

theorem carryOut_cons (settings : Settings) (entry : Job × Option SkipReason) (back : List (Job × Option SkipReason))
    (fs : FileSystem) :
    carryOut settings (entry :: back) fs = match perform (runJob settings entry) fs with
      | (some o, fs') => ((carryOut settings back fs').1.map (o :: ·), (carryOut settings back fs').2)
      | (none, fs') => (none, fs') := by
  rw [carryOut, List.mapM_cons, perform_bind]
  rcases perform (runJob settings entry) fs with ⟨_ | o, fs'⟩
  · rfl
  · dsimp only
    rw [perform_bind, ← carryOut]
    rcases carryOut settings back fs' with ⟨_ | _, _⟩ <;> rfl

theorem carryOut_append (settings : Settings) (front back : List (Job × Option SkipReason)) (fs : FileSystem) :
    carryOut settings (front ++ back) fs = match carryOut settings front fs with
      | (some os, fs') => ((carryOut settings back fs').1.map (os ++ ·), (carryOut settings back fs').2)
      | (none, fs') => (none, fs') := by
  induction front generalizing fs with
  | nil =>
    show carryOut settings back fs = ((carryOut settings back fs).1.map ([] ++ ·), (carryOut settings back fs).2)
    simp
  | cons entry front ih =>
    rw [List.cons_append, carryOut_cons, carryOut_cons]
    rcases perform (runJob settings entry) fs with ⟨_ | o, fs'⟩
    · rfl
    · dsimp only
      rw [ih]
      rcases carryOut settings front fs' with ⟨_ | os, fs''⟩
      · rfl
      · simp [Function.comp_def]

/-- What a batch leaves. -/
structure Result where
  outcomes : List JobOutcome
  manifest? : Option Manifest
  files : FileSystem

/-- Do jobs, with a manifest or without one. Gives nothing if the program stops. -/
def doJobs (settings : Settings) (manifest? : Option Manifest) (fs : FileSystem) (jobs : List Job) : Option Result :=
  match perform (weaveBatch settings jobs manifest?) fs with
  | (some (outcomes, manifest?), files) => some { outcomes, manifest?, files }
  | (none, _) => none

/-- Everything is decided before anything is done. -/
theorem doJobs_eq (settings : Settings) (manifest? : Option Manifest) (fs : FileSystem) (jobs : List Job) :
    doJobs settings manifest? fs jobs = (carryOut settings (plan manifest? fs jobs) fs).1.map fun outcomes =>
      { outcomes
        manifest? := manifest?.map (·.recordAll outcomes)
        files := (carryOut settings (plan manifest? fs jobs) fs).2 } := by
  have hbatch : perform (weaveBatch settings jobs manifest?) fs =
      ((carryOut settings (plan manifest? fs jobs) fs).1.map fun outcomes =>
          (outcomes, manifest?.map (·.recordAll outcomes)),
        (carryOut settings (plan manifest? fs jobs) fs).2) := by
    show perform (jobs.mapM (decide? manifest?) >>= _) fs = _
    rw [perform_bind, perform_plan]
    dsimp only
    rw [perform_bind, ← carryOut]
    rcases carryOut settings (plan manifest? fs jobs) fs with ⟨_ | _, _⟩ <;> rfl
  rw [doJobs, hbatch]
  rcases carryOut settings (plan manifest? fs jobs) fs with ⟨_ | _, _⟩ <;> rfl

/-- A batch that ends has done its whole plan. -/
theorem doJobs_eq_some_iff {jobs : List Job} {r : Result} : doJobs settings manifest? fs jobs = some r ↔
    carryOut settings (plan manifest? fs jobs) fs = (some r.outcomes, r.files) ∧
      r.manifest? = manifest?.map (·.recordAll r.outcomes) := by
  rw [doJobs_eq]
  rcases carryOut settings (plan manifest? fs jobs) fs with ⟨_ | outcomes, files⟩
  · simp
  · obtain ⟨outcomes', manifest?', files'⟩ := r
    simp only [Option.map_some, Option.some.injEq, Result.mk.injEq, Prod.mk.injEq]
    constructor
    · rintro ⟨rfl, rfl, rfl⟩
      exact ⟨⟨rfl, rfl⟩, rfl⟩
    · rintro ⟨⟨rfl, rfl⟩, rfl⟩
      exact ⟨rfl, rfl, rfl⟩

end Batch

end AdviceWeaving
