import AdviceWeaving.Proofs.Jobs
import AdviceWeaving.Proofs.OsStrings

/-!
# Jobs that are skipped

A manifest and the content of the input decide whether a job is skipped, before any job of the batch is done; a batch
does nothing for such a job, so that it could as well be left out (`Batch.manifest_decides_skips`).  A file that holds no
text is never skipped, even if its entry tells that it takes no part.
-/

namespace AdviceWeaving

/-- Why a job was skipped, if it was. -/
def JobStatus.skipReason? : JobStatus → Option SkipReason
  | skipped reason => some reason
  | woven _ _ | failed _ => none

namespace Batch

variable {settings : Settings} {manifest? : Option Manifest} {manifest : Manifest} {fs : FileSystem} {path : OsString}

/-! ### One job after the other -/

/-- What is done with a job tells why it was skipped. -/
private theorem skipReason?_runJob {entry : Job × Option SkipReason} {o : JobOutcome}
    (h : (perform (runJob settings entry) fs).1 = some o) : o.job = entry.1 ∧ o.status.skipReason? = entry.2 := by
  obtain ⟨job, reason?⟩ := entry
  cases reason? with
  | some reason =>
    cases h
    exact ⟨rfl, rfl⟩
  | none =>
    rw [perform_runJob_of_not_skipped] at h
    obtain ⟨result, -, rfl⟩ := Option.map_eq_some_iff.1 h
    cases result <;> exact ⟨rfl, rfl⟩

/-- The outcomes of a plan are those of its jobs, and they tell what was skipped. -/
private theorem map_carryOut {plan : List (Job × Option SkipReason)} {os : List JobOutcome}
    (h : (carryOut settings plan fs).1 = some os) : os.map (fun o => (o.job, o.status.skipReason?)) = plan := by
  induction plan generalizing fs os with
  | nil =>
    cases h
    rfl
  | cons entry plan ih =>
    rw [carryOut_cons] at h
    rcases hfirst : perform (runJob settings entry) fs with ⟨_ | o, fs'⟩
    · rw [hfirst] at h
      cases h
    · rw [hfirst] at h
      obtain ⟨os, hrest, rfl⟩ := Option.map_eq_some_iff.1 h
      obtain ⟨hjob, hreason⟩ := skipReason?_runJob (congrArg Prod.fst hfirst)
      rw [List.map_cons, ih hrest, hjob, hreason]

theorem length_carryOut {plan : List (Job × Option SkipReason)} {os : List JobOutcome}
    (h : (carryOut settings plan fs).1 = some os) : os.length = plan.length := by
  rw [← map_carryOut h, List.length_map]

/-! ### Whether a job is skipped -/

variable {r : Result}

/-- The outcomes of a batch are those of its jobs, and they tell what was to be skipped. -/
theorem map_outcomes {jobs : List Job} (h : doJobs settings manifest? fs jobs = some r) :
    r.outcomes.map (fun o => (o.job, o.status.skipReason?)) = plan manifest? fs jobs :=
  map_carryOut (congrArg Prod.fst (doJobs_eq_some_iff.1 h).1)

private theorem getElem?_outcomes {jobs : List Job} (h : doJobs settings manifest? fs jobs = some r) {index : Nat}
    {job : Job}
    (hjob : jobs[index]? = some job) :
    ∃ status, r.outcomes[index]? = some ⟨job, status⟩ ∧
      status.skipReason? = skipReason? manifest? fs job.input := by
  have hmap := congrArg (·[index]?) (map_outcomes h)
  simp only [plan, List.getElem?_map, hjob, Option.map_some, Option.map_eq_some_iff, Prod.mk.injEq] at hmap
  obtain ⟨o, ho, rfl, hreason⟩ := hmap
  exact ⟨o.status, ho, hreason⟩

theorem skipReason?_eq_inactive_iff : skipReason? (some manifest) fs path = some .inactive ↔
    (∃ entry, manifest.entry? path.display = some entry ∧ entry.active = false) ∧
      ∃ text : String, fs.read path = .ok text.toUTF8 := by
  simp only [← textAt_eq_ok_iff, skipReason?, Option.bind_some, Manifest.skipReason?]
  cases textAt fs path with
  | error failure => simp
  | ok text =>
    cases manifest.entry? path.display with
    | none => simp
    | some entry => cases hactive : entry.active <;> simp [hactive]

theorem skipReason?_eq_unchanged_iff : skipReason? (some manifest) fs path = some .unchanged ↔
    ∃ entry text, manifest.entry? path.display = some entry ∧ entry.active = true ∧
      fs.read path = .ok text.toUTF8 ∧ entry.wovenDigest = some (sha256Hex text) := by
  simp only [← textAt_eq_ok_iff, skipReason?, Option.bind_some, Manifest.skipReason?]
  cases textAt fs path with
  | error failure => simp
  | ok text =>
    cases manifest.entry? path.display with
    | none => simp
    | some entry => cases hactive : entry.active <;> simp [hactive]

/-! ### Leaving skipped jobs out -/

private theorem recordAll_append (manifest : Manifest) (os os' : List JobOutcome) :
    manifest.recordAll (os ++ os') = (manifest.recordAll os).recordAll os' :=
  List.foldl_append

/-- A job that is to be skipped could as well be left out. -/
private theorem carryOut_of_skipped {front back : List (Job × Option SkipReason)} {job : Job} {reason : SkipReason}
    {os : List JobOutcome} {files : FileSystem}
    (h : carryOut settings (front ++ (job, some reason) :: back) fs = (some os, files)) :
    ∃ before behind, before.length = front.length ∧ os = before ++ ⟨job, .skipped reason⟩ :: behind ∧
      carryOut settings (front ++ back) fs = (some (before ++ behind), files) := by
  rw [carryOut_append] at h ⊢
  rcases hfront : carryOut settings front fs with ⟨_ | before, fs'⟩
  · rw [hfront] at h
    cases h
  · rw [hfront] at h
    dsimp only at h
    rw [carryOut_cons, show perform (runJob settings (job, some reason)) fs' =
      (some ⟨job, .skipped reason⟩, fs') from rfl] at h
    dsimp only at h ⊢
    rcases hback : carryOut settings back fs' with ⟨_ | behind, files'⟩
    · rw [hback] at h
      cases h
    · rw [hback] at h
      cases h
      exact ⟨before, behind, length_carryOut (congrArg Prod.fst hfront), rfl, rfl⟩

private theorem doJobs_of_skipped {front back : List Job} {job : Job} {reason : SkipReason}
    (hdone : doJobs settings manifest? fs (front ++ job :: back) = some r)
    (h : skipReason? manifest? fs job.input = some reason) :
    doJobs settings manifest? fs (front ++ back) = some { r with outcomes := r.outcomes.eraseIdx front.length } := by
  have hplan : plan manifest? fs (front ++ job :: back) =
      plan manifest? fs front ++ (job, some reason) :: plan manifest? fs back := by
    rw [plan, List.map_append, List.map_cons, h]
    rfl
  have hplan' : plan manifest? fs (front ++ back) = plan manifest? fs front ++ plan manifest? fs back :=
    List.map_append
  obtain ⟨hrun, hmanifest⟩ := doJobs_eq_some_iff.1 hdone
  obtain ⟨before, behind, hlength, houtcomes, hwithout⟩ := carryOut_of_skipped (hplan ▸ hrun)
  have hfront : before.length = front.length := hlength.trans (List.length_map _)
  have herase : r.outcomes.eraseIdx front.length = before ++ behind := by
    rw [houtcomes, ← hfront, List.eraseIdx_append_of_length_le (Nat.le_refl _), Nat.sub_self]
    rfl
  refine doJobs_eq_some_iff.2 ⟨by rw [hplan', herase, hwithout], ?_⟩
  rw [hmanifest, herase, houtcomes]
  simp only [recordAll_append]
  rfl

/-! ### The manifest decides -/

/-- What becomes of a job whose input is at the given path. -/
structure StatusFollows (manifest : Manifest) (fs : FileSystem) (path : OsString) (status : JobStatus) : Prop where
  /-- It is skipped because it takes no part: this needs a file that holds a text. -/
  inactive : status = .skipped .inactive ↔
    (∃ entry, manifest.entry? path.display = some entry ∧ entry.active = false) ∧
      ∃ text : String, fs.read path = .ok text.toUTF8
  /-- It is skipped because its text has the digest that was remembered. -/
  unchanged : status = .skipped .unchanged ↔
    ∃ entry text, manifest.entry? path.display = some entry ∧ entry.active = true ∧
      fs.read path = .ok text.toUTF8 ∧ entry.wovenDigest = some (sha256Hex text)
  /-- In all other cases it is done, or it fails. -/
  others : ¬ (status = .skipped .inactive ∨ status = .skipped .unchanged) ↔
    (∃ report digest, status = .woven report digest) ∨ ∃ failure, status = .failed failure

private theorem statusFollows_of_skipReason? {status : JobStatus}
    (h : status.skipReason? = skipReason? (some manifest) fs path) : StatusFollows manifest fs path status := by
  have hskipped (reason : SkipReason) :
      status = .skipped reason ↔ skipReason? (some manifest) fs path = some reason := by
    rw [← h]
    cases status <;> simp [JobStatus.skipReason?]
  refine ⟨(hskipped _).trans skipReason?_eq_inactive_iff, (hskipped _).trans skipReason?_eq_unchanged_iff, ?_⟩
  cases status with
  | skipped reason => cases reason <;> simp
  | woven report digest => simp
  | failed failure => simp

/-- A batch with a manifest that comes to its end tells of each job, in order, what becomes of it; and a job that is
skipped writes nothing and is not remembered: without it the files, the manifest and the outcomes of the others are the
same. -/
theorem manifest_decides_skips (settings : Settings) (manifest : Manifest) (fs : FileSystem) (jobs : List Job)
    (r : Result) (done : doJobs settings (some manifest) fs jobs = some r) :
    (∀ (index : Nat) (job : Job), jobs[index]? = some job →
      ∃ status, r.outcomes[index]? = some ⟨job, status⟩ ∧ StatusFollows manifest fs job.input status) ∧
    r.outcomes.length = jobs.length ∧
    ∀ front job back reason, jobs = front ++ job :: back →
      r.outcomes[front.length]? = some ⟨job, .skipped reason⟩ →
      doJobs settings (some manifest) fs (front ++ back) =
        some { r with outcomes := r.outcomes.eraseIdx front.length } := by
  refine ⟨?_, ?_, ?_⟩
  · intro index job hjob
    obtain ⟨status, hstatus, hreason⟩ := getElem?_outcomes done hjob
    exact ⟨status, hstatus, statusFollows_of_skipReason? hreason⟩
  · rw [← List.length_map, map_outcomes done, plan, List.length_map]
  · rintro front job back reason rfl hskipped
    have hjob : (front ++ job :: back)[front.length]? = some job := by simp
    obtain ⟨status, hstatus, hreason⟩ := getElem?_outcomes done hjob
    obtain rfl : status = .skipped reason := by
      simpa using hstatus.symm.trans hskipped
    exact doJobs_of_skipped done hreason.symm

namespace Sample

/-- Two files. -/
def twoFiles : FileSystem where
  entries := [(⟨false, ["a.wil"]⟩, .file "module a".toUTF8), (⟨false, ["b.wil"]⟩, .file "module b".toUTF8)]

/-- The first file takes no part, the second is remembered, and a file that is not there takes no part. -/
def memory : Manifest where
  entries :=
    [("a.wil", { active := false }), ("b.wil", { wovenDigest := some (sha256Hex "module b") }),
      ("c.wil", { active := false })]

/-- The jobs that weave these files in their places. -/
def jobs : List Job :=
  [.inPlace "a.wil", .inPlace "b.wil", .inPlace "c.wil"]

end Sample

/-- Both files are skipped, each for its reason; the file that is not there is not skipped, though its entry tells that
it takes no part. -/
theorem manifest_decides_skips_sample :
    ∃ r, doJobs {} (some Sample.memory) Sample.twoFiles Sample.jobs = some r ∧
      r.outcomes[0]? = some ⟨.inPlace "a.wil", .skipped .inactive⟩ ∧
      r.outcomes[1]? = some ⟨.inPlace "b.wil", .skipped .unchanged⟩ ∧
      (∃ status, r.outcomes[2]? = some ⟨.inPlace "c.wil", status⟩ ∧ status.skipReason? = none) ∧
      ∃ r', doJobs {} (some Sample.memory) Sample.twoFiles Sample.jobs.tail = some r' ∧ r'.files = r.files := by
  have hends : (doJobs {} (some Sample.memory) Sample.twoFiles Sample.jobs).isSome := by decide +kernel
  obtain ⟨r, hr⟩ := Option.isSome_iff_exists.1 hends
  obtain ⟨hstatus, -, hleave⟩ := manifest_decides_skips {} Sample.memory Sample.twoFiles Sample.jobs r hr
  have hentry (name : String) {found : Option ManifestEntry} (h : Sample.memory.entry? name = found) :
      Sample.memory.entry? (OsString.display name) = found := by
    rw [OsString.display_ofString]
    exact h
  have hfirst : r.outcomes[0]? = some ⟨.inPlace "a.wil", .skipped .inactive⟩ := by
    obtain ⟨status, houtcome, hfollows⟩ := hstatus 0 (.inPlace "a.wil") rfl
    obtain rfl := hfollows.inactive.2 ⟨⟨{ active := false }, hentry "a.wil" rfl, rfl⟩, "module a", rfl⟩
    exact houtcome
  have hsecond : r.outcomes[1]? = some ⟨.inPlace "b.wil", .skipped .unchanged⟩ := by
    obtain ⟨status, houtcome, hfollows⟩ := hstatus 1 (.inPlace "b.wil") rfl
    obtain rfl := hfollows.unchanged.2
      ⟨{ wovenDigest := some (sha256Hex "module b") }, "module b", hentry "b.wil" rfl, rfl, rfl, rfl⟩
    exact houtcome
  obtain ⟨status, hthird, hfollows⟩ := hstatus 2 (.inPlace "c.wil") rfl
  have hmissing : Sample.twoFiles.read "c.wil" = .error .notFound := rfl
  have hnotSkipped : status.skipReason? = none := by
    cases status with
    | skipped reason =>
      cases reason with
      | inactive =>
        obtain ⟨-, text, hread⟩ := hfollows.inactive.1 rfl
        cases hmissing.symm.trans hread
      | unchanged =>
        obtain ⟨_, text, -, -, hread, -⟩ := hfollows.unchanged.1 rfl
        cases hmissing.symm.trans hread
    | woven _ _ | failed _ => rfl
  exact ⟨r, hr, hfirst, hsecond, ⟨status, hthird, hnotSkipped⟩, _,
    hleave [] (.inPlace "a.wil") Sample.jobs.tail .inactive rfl hfirst, rfl⟩

end Batch

end AdviceWeaving
