import AdviceWeaving.Proofs.Batches
import AdviceWeaving.Proofs.Skipping

/-!
# Batches that are run again

A batch with the manifest that an earlier run of it has left finds nothing to do (`Batch.rerun_settled`): a file that
was woven still holds what is remembered of it, so that it is skipped, and jobs that were skipped or failed end as they
did. Nothing is written, and the manifest stays as it is. This needs independent jobs, and that no write has broken off:
if one file has two jobs, or two files have one entry, what is written last is not what is remembered of the other, and
of a file that was cut off nothing is remembered (`Batch.rerun_weaves_again`).
-/

namespace AdviceWeaving

/-- What becomes of a job when it is done once more: what was woven is unchanged then. -/
def JobOutcome.settled (o : JobOutcome) : JobOutcome :=
  match o.status with
  | .woven _ _ => ⟨o.job, .skipped .unchanged⟩
  | .skipped _ | .failed _ => o

namespace Batch

variable {settings : Settings} {manifest? manifest?' : Option Manifest} {manifest : Manifest}
  {fs fs' : FileSystem} {path : OsString} {paths : List OsString} {report : PassReport} {digest : String}

/-! ### Batches that write nothing -/

/-- A job that neither stops nor writes anything. -/
structure Idle (settings : Settings) (manifest? : Option Manifest) (fs : FileSystem) (path : OsString) : Prop where
  ends : ¬ Stops settings manifest? fs path
  writes_nothing : (verdict settings manifest? fs path).2 = none

/-- What a job writes nothing for is not woven. -/
private theorem Idle.not_woven (h : Idle settings manifest? fs path) (report : PassReport) (digest : String) :
    (outcome settings manifest? fs path).status ≠ .woven report digest := by
  intro hwoven
  rw [outcome] at hwoven
  have hnothing := h.writes_nothing
  rcases verdict_cases settings manifest? fs path with
    ⟨_, h'⟩ | ⟨_, h'⟩ | ⟨_, _, _, _, -, -, h'⟩ | ⟨_, _, _, _, _, _, -, -, -, -, h'⟩ <;>
    rw [h'] at hwoven hnothing
  · cases hwoven
  · cases hwoven
  · cases hnothing
  · cases hwoven

private theorem recordAll_of_not_woven {outcomes : List JobOutcome}
    (h : ∀ o ∈ outcomes, ∀ report digest, o.status ≠ .woven report digest) :
    manifest.recordAll outcomes = manifest := by
  induction outcomes generalizing manifest with
  | nil => rfl
  | cons o outcomes ih =>
    have hfirst : remember manifest o = manifest := by
      unfold remember
      split
      · next heq => exact absurd heq (h o List.mem_cons_self _ _)
      · rfl
    show (remember manifest o).recordAll outcomes = manifest
    rw [hfirst]
    exact ih fun o' ho' => h o' (List.mem_cons_of_mem o ho')

private theorem carryOut_of_idle (h : ∀ path ∈ paths, Idle settings manifest? fs path) :
    carryOut settings (plan manifest? fs (paths.map .inPlace)) fs =
      (some (paths.map (outcome settings manifest? fs)), fs) := by
  rw [plan_inPlace]
  induction paths with
  | nil => rfl
  | cons path paths ih =>
    obtain ⟨hends, hnothing⟩ := h path List.mem_cons_self
    rw [List.map_cons, carryOut_cons, perform_runJob_self, if_neg hends, hnothing]
    show ((carryOut settings _ fs).1.map _, (carryOut settings _ fs).2) = _
    rw [ih fun p hp => h p (List.mem_cons_of_mem path hp)]
    rfl

/-- A batch of such jobs leaves the files and the manifest as they are, whether or not the jobs are apart. -/
private theorem inPlace_of_idle (h : ∀ path ∈ paths, Idle settings manifest? fs path) :
    inPlace settings manifest? fs paths = some ⟨paths.map (outcome settings manifest? fs), manifest?, fs⟩ := by
  have houtcomes : ∀ o ∈ paths.map (outcome settings manifest? fs), ∀ report digest,
      o.status ≠ .woven report digest := by
    intro o ho
    obtain ⟨path, hpath, rfl⟩ := List.mem_map.1 ho
    exact (h path hpath).not_woven
  refine doJobs_eq_some_iff.2 ⟨carryOut_of_idle h, ?_⟩
  cases manifest? with
  | none => rfl
  | some manifest => exact congrArg some (recordAll_of_not_woven houtcomes).symm

/-! ### The second run -/

/-- A job is woven if it is not skipped and its text can be woven. -/
private theorem exists_of_woven (h : (outcome settings manifest? fs path).status = .woven report digest) :
    skipReason? manifest? fs path = none ∧ ∃ source, textAt fs path = .ok source := by
  rw [outcome] at h
  cases hskip : skipReason? manifest? fs path with
  | some reason =>
    rw [verdict_of_skipped hskip] at h
    cases h
  | none =>
    refine ⟨rfl, ?_⟩
    rw [verdict_of_not_skipped hskip] at h
    cases htext : textAt fs path with
    | ok source => exact ⟨source, rfl⟩
    | error failure =>
      rw [htext] at h
      cases h

/-- Only paths that take part are woven. -/
private theorem active_of_woven (h : (outcome settings (some manifest) fs path).status = .woven report digest) :
    ((manifest.entry? path.display).getD {}).active = true := by
  obtain ⟨hskip, source, htext⟩ := exists_of_woven h
  cases hentry : manifest.entry? path.display with
  | none => rfl
  | some entry =>
    cases hactive : entry.active with
    | true => exact hactive
    | false =>
      have hinactive : skipReason? (some manifest) fs path = some .inactive :=
        skipReason?_eq_inactive_iff.2 ⟨⟨entry, hentry, hactive⟩, source, textAt_eq_ok_iff.1 htext⟩
      cases hskip.symm.trans hinactive

/-- What a batch leaves remembered. -/
def kept (settings : Settings) (manifest : Manifest) (fs : FileSystem) (paths : List OsString) : Manifest :=
  manifest.recordAll (paths.map (outcome settings (some manifest) fs))

/-- The file of a job that has written nothing is as it was before the batch, if it is as it was behind it. -/
private theorem unchanged_after (hapart : Apart fs paths) (hpath : path ∈ paths)
    (hnothing : (verdict settings manifest? fs path).2 = none)
    (hsame : (after settings manifest? fs paths).files.Unchanged fs' path) : fs.Unchanged fs' path := by
  have htree : fs.SameTree (after settings manifest? fs paths).files :=
    (putAll_apart settings manifest? hapart (.refl fs) fun _ _ => rfl).1
  exact ⟨hsame.locate_eq.trans (htree.locate_eq path),
    hsame.read_eq.trans (read_after_of_nothing hapart hpath hnothing),
    hsame.writeFault?_eq.trans htree.writeFault?_eq⟩

/-- What a job does in the second run, if its file is as the first run has left it. -/
private theorem verdict_rerun (hroom : fs.WritesApart) (hapart : Apart fs paths) (hshown : ShownApart paths)
    (hpath : path ∈ paths) (hends : ¬ Stops settings (some manifest) fs path)
    (hwhole : ∀ failure, (outcome settings (some manifest) fs path).status = .failed failure →
      ¬ CutOff settings fs path failure (after settings (some manifest) fs paths).files)
    (hsame : (after settings (some manifest) fs paths).files.Unchanged fs' path) :
    Idle settings (some (kept settings manifest fs paths)) fs' path ∧
      outcome settings (some (kept settings manifest fs paths)) fs' path =
        (outcome settings (some manifest) fs path).settled := by
  -- a job that has written nothing writes nothing once more
  have hagain (hnothing : (verdict settings (some manifest) fs path).2 = none)
      (hsettled : (outcome settings (some manifest) fs path).settled = outcome settings (some manifest) fs path) :
      Idle settings (some (kept settings manifest fs paths)) fs' path ∧
        outcome settings (some (kept settings manifest fs paths)) fs' path =
          (outcome settings (some manifest) fs path).settled := by
    have hidle : Idle settings (some manifest) fs path := ⟨hends, hnothing⟩
    have hsame := unchanged_after hapart hpath hnothing hsame
    have hverdict : verdict settings (some (kept settings manifest fs paths)) fs' path =
        verdict settings (some manifest) fs path := by
      refine verdict_congr hroom hsame ?_
      simp only [skipReason?, Option.bind_some, textAt_congr hsame.read_eq, Manifest.skipReason?, kept,
        entry?_recordAll_of_not_woven hshown hpath hidle.not_woven]
    refine ⟨⟨?_, hverdict ▸ hnothing⟩, ?_⟩
    · rw [Stops, hverdict]
      exact hends
    · rw [hsettled, outcome, outcome, hverdict]
  cases hstatus : (outcome settings (some manifest) fs path).status with
  | woven report digest =>
    obtain ⟨text, htext, hdigest⟩ := read_after_of_woven hapart hpath hstatus
    have hskip : skipReason? (some (kept settings manifest fs paths)) fs' path = some .unchanged :=
      skipReason?_eq_unchanged_iff.2 ⟨_, text, entry?_recordAll_of_woven hshown hpath hstatus, active_of_woven hstatus,
        hsame.read_eq.trans htext, congrArg some hdigest⟩
    have hverdict := @verdict_of_skipped settings _ _ _ _ hskip
    refine ⟨⟨?_, congrArg Prod.snd hverdict⟩, ?_⟩
    · rw [Stops, hverdict]
      exact JobStatus.noConfusion
    · rw [JobOutcome.settled, hstatus, outcome, hverdict]
      rfl
  | skipped reason =>
    exact hagain (nothing_of_skipped hstatus) (by rw [JobOutcome.settled, hstatus])
  | failed failure =>
    exact hagain ((nothing_or_cutOff_of_failed hapart hpath hstatus).resolve_right (hwhole failure hstatus))
      (by rw [JobOutcome.settled, hstatus])

/-- Let the jobs of a batch be independent, and let no write have broken off. Then the batch leaves a manifest that can
be put into a file and is found there again, if the file can be read; and with this manifest, and with the files as the
batch has left them, the same batch skips what it has woven and does the same as before with all other jobs, and leaves
the files and the manifest as they are. -/
theorem rerun_settled (settings : Settings) (manifest : Manifest) (fs : FileSystem) (paths : List OsString)
    (first : Result) (apart : Apart fs paths) (shownApart : ShownApart paths) (room : fs.WritesApart)
    (done : inPlace settings (some manifest) fs paths = some first)
    (whole : ∀ path failure, ⟨.inPlace path, .failed failure⟩ ∈ first.outcomes →
      ¬ CutOff settings fs path failure first.files) :
    ∃ kept, first.manifest? = some kept ∧
      (∀ (target : OsString) (before after : FileSystem) (found : ByteArray),
        perform (kept.save target : Filing Unit).run before = (some (.ok ()), after) → after.read target = .ok found →
          perform (Manifest.load target : Filing Manifest).run after = (some (.ok kept), after)) ∧
      ∀ fs', (∀ path ∈ paths, first.files.Unchanged fs' path) →
        inPlace settings (some kept) fs' paths =
          some { outcomes := first.outcomes.map (·.settled), manifest? := some kept, files := fs' } := by
  obtain ⟨hends, rfl⟩ := (inPlace_eq_some_iff room apart).1 done
  refine ⟨kept settings manifest fs paths, rfl, fun _ _ _ _ hsave hopen => Manifest.load_of_save hsave hopen,
    fun fs' hsame => ?_⟩
  have hrerun (path : OsString) (hpath : path ∈ paths) :=
    verdict_rerun room apart shownApart hpath (hends path hpath)
      (fun failure hfailed => whole path failure (mem_outcomes_iff.2 ⟨hpath, hfailed⟩)) (hsame path hpath)
  rw [inPlace_of_idle fun path hpath => (hrerun path hpath).1]
  have houtcomes : paths.map (outcome settings (some (kept settings manifest fs paths)) fs') =
      (paths.map (outcome settings (some manifest) fs)).map (·.settled) := by
    rw [List.map_map]
    exact List.map_congr_left fun path hpath => (hrerun path hpath).2
  rw [houtcomes]
  rfl

/-- The second run skips what the first has woven, with the manifest that is read from the file it was put into. -/
theorem rerun_settled_sample :
    Apart Sample.files ["a.wil", "b.wil"] ∧ ShownApart ["a.wil", "b.wil"] ∧ Sample.files.WritesApart ∧
      ∃ first kept saved, inPlace {} (some {}) Sample.files ["a.wil", "b.wil"] = some first ∧
        (∀ path failure, ⟨.inPlace path, .failed failure⟩ ∈ first.outcomes →
          ¬ CutOff {} Sample.files path failure first.files) ∧
        first.manifest? = some kept ∧
        perform (kept.save "manifest.json" : Filing Unit).run first.files = (some (.ok ()), saved) ∧
        perform (Manifest.load "manifest.json" : Filing Manifest).run saved = (some (.ok kept), saved) ∧
        first.outcomes.map (·.status.skipReason?) = [none, none] ∧
        ∃ second, inPlace {} (some kept) first.files ["a.wil", "b.wil"] = some second ∧
          second.outcomes.map (·.status.skipReason?) = [some .unchanged, none] ∧ second.manifest? = some kept := by
  have hshown : ShownApart ["a.wil", "b.wil"] := by decide +kernel
  -- one evaluation of the first run tells all
  have heval : (inPlace {} (some {}) Sample.files ["a.wil", "b.wil"]).any fun first =>
      let save : Filing Unit := (first.manifest?.getD {}).save "manifest.json"
      (perform save.run first.files).1.any (·.isOk) &&
        ((perform save.run first.files).2.read "manifest.json").isOk &&
        decide (first.outcomes.map (·.status.skipReason?) = [none, none] ∧
          (first.outcomes.map (·.settled)).map (·.status.skipReason?) = [some .unchanged, none]) := by
    decide +kernel
  obtain ⟨first, hfirst, heval⟩ := (Option.any_eq_true _ _).1 heval
  simp only [Bool.and_eq_true, decide_eq_true_eq] at heval
  obtain ⟨⟨hsaves, hreads⟩, hskips, hsettled⟩ := heval
  have hwhole : ∀ path failure, ⟨.inPlace path, .failed failure⟩ ∈ first.outcomes →
      ¬ CutOff {} Sample.files path failure first.files := by
    rintro path failure - ⟨_, _, _, _, _, -, -, hfault, -⟩
    cases hfault
  obtain ⟨kept, hkept, hload, hrerun⟩ := rerun_settled {} {} Sample.files ["a.wil", "b.wil"] first Sample.apart hshown
    Sample.writesApart hfirst hwhole
  rw [hkept, Option.getD_some] at hsaves hreads
  rcases hsave : perform (kept.save "manifest.json" : Filing Unit).run first.files with ⟨_ | _ | _, saved⟩
  · rw [hsave] at hsaves
    cases hsaves
  · rw [hsave] at hsaves
    cases hsaves
  · rw [hsave] at hreads
    cases hread : saved.read "manifest.json" with
    | error e =>
      rw [hread] at hreads
      cases hreads
    | ok found =>
      exact ⟨Sample.apart, hshown, Sample.writesApart, first, kept, saved, hfirst, hwhole, hkept, hsave,
        hload _ _ _ _ hsave hread, hskips, _, hrerun first.files fun _ _ => ⟨rfl, rfl, rfl⟩, hsettled, rfl⟩

namespace Sample

/-- The second run of a batch, with what the first has left, does not skip what the first has woven, or does something
else with the other jobs. -/
def Unsettled (manifest : Manifest) (fs : FileSystem) (paths : List OsString) : Prop :=
  (inPlace {} (some manifest) fs paths).any fun first =>
    (inPlace {} first.manifest? first.files paths).any fun second =>
      decide (second.outcomes ≠ first.outcomes.map (·.settled))

/-- A file that is the weaver's own output, as the manifest tells. -/
def output : FileSystem where
  entries := [(⟨false, ["a.wil"]⟩, .file "module m".toUTF8)]

def outputManifest : Manifest where
  entries := [("a.wil", { wovenDigest := some (sha256Hex "module m") })]

end Sample

/-- That the paths differ is not enough: a second run is not what it should be if two jobs share a file or an entry, or
if a job first finds too little room, whether its file is cut off then or stays as it is. -/
theorem rerun_weaves_again :
    Sample.Unsettled Sample.outputManifest Sample.output ["a.wil", "./a.wil"] ∧
      Sample.Unsettled {} Sample.garbledFiles [Sample.garbled, Sample.garbled'] ∧
      Sample.Unsettled {} (Sample.crowded .cutOff) ["b.wil", "a.wil"] ∧
      Sample.Unsettled {} (Sample.crowded fun _ => .refused) ["b.wil", "a.wil"] := by
  unfold Sample.Unsettled
  refine ⟨?_, ?_, ?_, ?_⟩ <;> decide +kernel

end Batch

end AdviceWeaving
