import AdviceWeaving.CommandLine.Run
import AdviceWeaving.Proofs.Rereading
import AdviceWeaving.Proofs.Reruns
import AdviceWeaving.Proofs.Verified

/-!
# Skipped files, woven

A file that a batch skips as unchanged is what an earlier batch has written there, unless two texts have one digest. If
it were woven in place of being skipped, and if it still can be written, it would stay the same, and the pass would find
just what verification finds (`Batch.skip_agrees_if_verified`). So whether the file counts as a failure is the same for
both if all its bodies kept their obligations in the earlier batch; a file whose bodies break some is a failure whenever
it is woven, and so is a file that is closed to writing, and none of them when it is skipped
(`Batch.skip_hides_faults`).
-/

namespace AdviceWeaving

/-! ### Reports -/

namespace Module

variable {m m' : Module} {settings : Settings} {report : PassReport}

/-- The certificate is that of the module as it is after the pass. -/
private theorem certificate_of_weave (hm : m.Numbered) (h : m.weave settings = (.ok report, m')) :
    report.certificate = if settings.verify then some m'.verify.certificate else none := by
  obtain ⟨w, rfl, rfl, hfollows⟩ := follows_weave hm h
  obtain ⟨handles, wrap, ⟨bodies, hholds⟩, -, -⟩ := hfollows.at_outline
  simp only [Workspace.report, hholds.settings_eq]
  cases settings.verify <;> rfl

/-- A pass that has found no marker finds errors just if some obligation is not kept. -/
private theorem hasErrors_quietReport (m : Module) (settings : Settings) :
    (m.quietReport settings).hasErrors = false ↔ ∀ c ∈ (m.quietReport settings).certificate, c.allPass := by
  cases hverify : settings.verify with
  | false => simp [quietReport, hverify, PassReport.hasErrors, hasErrors]
  | true =>
    have hdiagnostics : hasErrors m.verify.diagnostics = false ↔ ∀ p ∈ m.methods, p.2.findings = [] := by
      simp [hasErrors, verify, findings, Diagnostic.isError, Finding.diagnostic, List.eq_nil_iff_forall_not_mem]
    simp only [quietReport, hverify, if_true, PassReport.hasErrors, hdiagnostics, Option.mem_def, Option.some.injEq,
      forall_eq', allPass_verify_iff]

end Module

namespace Batch

variable {settings : Settings} {manifest? : Option Manifest} {manifest : Manifest} {fs : FileSystem}
  {path : OsString} {source written digest : String} {report : PassReport}

/-! ### Weaving once more -/

/-- What a pass has written can be woven again and comes out as it is. -/
private theorem exists_weaveText_again (h : weaveText settings path source = .ok (report, written)) :
    ∃ again, weaveText settings path written = .ok (again, written) ∧ again.certificate = report.certificate ∧
      (again.hasErrors = false ↔ ∀ c ∈ report.certificate, c.allPass) := by
  unfold weaveText at h
  cases hdecode : (Encoding.ofPath path).decode source with
  | error e =>
    rw [hdecode] at h
    cases h
  | ok m =>
    rw [hdecode] at h
    dsimp only at h
    rcases hweave : m.weave settings with ⟨failure | report', m₁⟩
    · rw [hweave] at h
      cases h
    · rw [hweave] at h
      cases h
      have hm := Module.numbered_of_decode hdecode
      obtain ⟨vs, _, hvs, -⟩ := Module.weave_eq_ok_iff.1 hweave
      obtain ⟨m₂, hreread, hencode, hm₂, hinert⟩ := Module.exists_decode_encode_of_weave hdecode hweave
      have hcertificate : (m₂.quietReport settings).certificate = report.certificate := by
        rw [Module.certificate_of_weave hm hweave, ← Module.verify_of_decode_encode hdecode hweave hreread]
        rfl
      refine ⟨m₂.quietReport settings, ?_, hcertificate, hcertificate ▸ m₂.hasErrors_quietReport settings⟩
      simp only [weaveText, hreread, Module.weave_of_inert hm₂ hinert hvs, hencode]

/-! ### What a batch tells of its jobs -/

/-- A job that was skipped had a reason to be. -/
private theorem skipReason?_of_mem {jobs : List Job} {r : Result} {o : JobOutcome}
    (hdone : doJobs settings manifest? fs jobs = some r) (h : o ∈ r.outcomes) :
    o.status.skipReason? = skipReason? manifest? fs o.job.input := by
  have hmem : (o.job, o.status.skipReason?) ∈ plan manifest? fs jobs := map_outcomes hdone ▸ List.mem_map_of_mem h
  obtain ⟨job, -, hpair⟩ := List.mem_map.1 hmem
  obtain ⟨rfl, hreason⟩ := Prod.mk.inj hpair
  exact hreason.symm

/-- A file that is woven gets a text of the digest that is told. -/
private theorem exists_written_of_runJob {cur files : FileSystem}
    (h : perform (runJob settings (.inPlace path, none)) cur =
      (some ⟨.inPlace path, .woven report digest⟩, files)) :
    ∃ source written, weaveText settings path source = .ok (report, written) ∧ digest = sha256Hex written ∧
      files.read path = .ok written.toUTF8 := by
  rw [perform_runJob_of_not_skipped, perform_weaveFile] at h
  cases hwoven : textAt cur path >>= weaveText settings path with
  | error failure =>
    rw [hwoven] at h
    unfold filed at h
    split at h
    · cases h
    · cases h
    · next heq => cases heq
  | ok woven =>
    obtain ⟨report', written⟩ := woven
    obtain ⟨source, hsource, hweave⟩ := exists_text_of_woven hwoven
    have hread := textAt_eq_ok_iff.1 hsource
    obtain ⟨l, hl, -⟩ := FileSystem.read_eq_ok_iff.1 hread
    rw [hwoven, filed, FileSystem.write_eq_put hread hl] at h
    rcases cur.accept_cases l written.toUTF8 with haccept | ⟨e, haccept⟩ | ⟨length, e, -, haccept⟩
    · rw [haccept] at h
      cases h
      exact ⟨source, written, hweave, rfl, FileSystem.read_overwrite_self hread hl _⟩
    · rw [haccept] at h
      cases h
    · rw [haccept] at h
      cases h

/-- What a batch does with one of its jobs, after those in front of it. -/
private theorem exists_doJobs_front {front back : List Job} {job : Job} {r : Result}
    (h : doJobs settings manifest? fs (front ++ job :: back) = some r) :
    ∃ cur o r', perform (runJob settings (job, skipReason? manifest? fs job.input)) cur = (some o, r'.files) ∧
      r.outcomes[front.length]? = some o ∧ doJobs settings manifest? fs (front ++ [job]) = some r' := by
  have hplan (rest : List Job) : plan manifest? fs (front ++ job :: rest) =
      plan manifest? fs front ++ (job, skipReason? manifest? fs job.input) :: plan manifest? fs rest :=
    List.map_append
  have hrun := (doJobs_eq_some_iff.1 h).1
  rw [hplan, carryOut_append] at hrun
  rcases hfront : carryOut settings (plan manifest? fs front) fs with ⟨_ | before, cur⟩
  · rw [hfront] at hrun
    cases hrun
  · rw [hfront] at hrun
    dsimp only at hrun
    rw [carryOut_cons] at hrun
    rcases hjob : perform (runJob settings (job, skipReason? manifest? fs job.input)) cur with ⟨_ | o, files⟩
    · rw [hjob] at hrun
      cases hrun
    · rw [hjob] at hrun
      have hlength : before.length = front.length :=
        (length_carryOut (congrArg Prod.fst hfront)).trans (List.length_map _)
      refine ⟨cur, o, ⟨before ++ [o], manifest?.map (·.recordAll (before ++ [o])), files⟩, hjob, ?_, ?_⟩
      · obtain ⟨rest, hrest, houtcomes⟩ := Option.map_eq_some_iff.1 (congrArg Prod.fst hrun)
        obtain ⟨behind, -, rfl⟩ := Option.map_eq_some_iff.1 hrest
        rw [← houtcomes, ← hlength, List.getElem?_append_right (Nat.le_refl _), Nat.sub_self]
        rfl
      · refine doJobs_eq_some_iff.2 ⟨?_, rfl⟩
        rw [hplan, carryOut_append, hfront]
        dsimp only
        rw [carryOut_cons, hjob]
        rfl

/-- A job that was woven has put into its file what has the digest. -/
private theorem exists_written_of_woven {front back : List Job} {r : Result}
    (hdone : doJobs settings manifest? fs (front ++ .inPlace path :: back) = some r)
    (h : r.outcomes[front.length]? = some ⟨.inPlace path, .woven report digest⟩) :
    ∃ source written r', weaveText settings path source = .ok (report, written) ∧ digest = sha256Hex written ∧
      doJobs settings manifest? fs (front ++ [.inPlace path]) = some r' ∧
      r'.files.read path = .ok written.toUTF8 := by
  have hskip : skipReason? manifest? fs (Job.inPlace path).input = none :=
    (skipReason?_of_mem hdone (List.mem_of_getElem? h)).symm
  obtain ⟨cur, o, r', hjob, houtcome, hfront⟩ := exists_doJobs_front hdone
  obtain rfl : o = ⟨.inPlace path, .woven report digest⟩ := Option.some.inj (houtcome.symm.trans h)
  rw [hskip] at hjob
  obtain ⟨source, written, hweave, hdigest, hread⟩ := exists_written_of_runJob hjob
  exact ⟨source, written, r', hweave, hdigest, hfront, hread⟩

/-! ### Weaving instead of skipping -/

private theorem exitCode_ofOutcomes_eq_iff {o o' : JobOutcome} :
    (∀ front back, (RunResult.ofOutcomes (front ++ o :: back)).exitCode =
      (RunResult.ofOutcomes (front ++ o' :: back)).exitCode) ↔ o.exitCode = o'.exitCode := by
  have hmax (code : UInt8) : max 0 code = code :=
    if_pos (UInt8.le_iff_toNat_le.2 (Nat.zero_le _))
  constructor
  · intro h
    have halone := h [] []
    simpa only [RunResult.ofOutcomes, List.nil_append, List.foldl_cons, List.foldl_nil, hmax] using halone
  · intro h front back
    simp only [RunResult.ofOutcomes, List.foldl_append, List.foldl_cons, h]

/-- The file at a path, which an earlier pass with the given report has woven, is woven in its place. -/
structure WovenAgain (settings : Settings) (fs : FileSystem) (path : OsString) (digest : String)
    (report again : PassReport) (files : FileSystem) : Prop where
  done : doJobs settings none fs [.inPlace path] = some ⟨[⟨.inPlace path, .woven again digest⟩], none, files⟩
  /-- All files stay as they are. -/
  tree : fs.SameTree files
  reads : ∀ path', files.read path' = fs.read path'
  /-- The bodies are as they were found to be. -/
  certificate_eq : again.certificate = report.certificate
  /-- It counts like the skip just if all obligations were kept. -/
  isFailure : (⟨.inPlace path, .woven again digest⟩ : JobOutcome).isFailure =
    (⟨.inPlace path, .skipped .unchanged⟩ : JobOutcome).isFailure ↔ ∀ c ∈ report.certificate, c.allPass
  exitCode : (∀ front back,
      (RunResult.ofOutcomes (front ++ ⟨.inPlace path, .woven again digest⟩ :: back)).exitCode =
        (RunResult.ofOutcomes (front ++ ⟨.inPlace path, .skipped .unchanged⟩ :: back)).exitCode) ↔
    ∀ c ∈ report.certificate, c.allPass

private theorem doJobs_of_verdict {status : JobStatus} {written? : Option (Location × ByteArray)}
    (h : verdict settings none fs path = (status, written?)) (hends : status ≠ .failed (.weaving .overflow)) :
    doJobs settings none fs [.inPlace path] = some ⟨[⟨.inPlace path, status⟩], none, fs.put written?⟩ := by
  have hnot : ¬ Stops settings none fs path := by
    rw [Stops, h]
    exact hends
  have hbatch := inPlace_singleton settings none fs path
  rw [if_neg hnot, after, putAll] at hbatch
  simp only [List.map_singleton, outcome, h, List.foldl_cons, List.foldl_nil] at hbatch
  exact hbatch

/-- A file that holds what a pass has written is woven once more, if it can be written. -/
private theorem exists_wovenAgain (hwoven : weaveText settings path source = .ok (report, written))
    (hread : fs.read path = .ok written.toUTF8) {files : FileSystem}
    (hwrite : fs.write path written.toUTF8 = (.ok (), files)) :
    ∃ again, WovenAgain settings fs path (sha256Hex written) report again files := by
  obtain ⟨again, hagain, hcertificate, herrors⟩ := exists_weaveText_again hwoven
  obtain ⟨l, hl, hentry, -⟩ := FileSystem.read_eq_ok_iff.1 hread
  have htext : textAt fs path >>= weaveText settings path = .ok (again, written) := by
    rw [textAt_eq_ok_iff.2 hread]
    exact hagain
  rw [FileSystem.write_eq_put hread hl] at hwrite
  have haccept := FileSystem.accept_of_ok (congrArg Prod.fst hwrite)
  rw [haccept] at hwrite
  obtain rfl : fs.overwrite l written.toUTF8 = files := congrArg Prod.snd hwrite
  have hverdict : verdict settings none fs path =
      (.woven again (sha256Hex written), some (l, written.toUTF8)) := by
    rw [verdict_of_not_skipped rfl, htext, Batch.written, hl]
    dsimp only
    rw [haccept]
    rfl
  refine ⟨again, doJobs_of_verdict hverdict JobStatus.noConfusion, FileSystem.sameTree_overwrite hentry _,
    FileSystem.read_overwrite_of_read hread hl, hcertificate, herrors, ?_⟩
  rw [exitCode_ofOutcomes_eq_iff, ← herrors]
  simp only [JobOutcome.exitCode, PassReport.exitCode]
  cases again.hasErrors <;> simp

/-- A file that holds what a pass has written, and that cannot be written, is a failure. -/
private theorem doJobs_of_closed (hwoven : weaveText settings path source = .ok (report, written))
    (hread : fs.read path = .ok written.toUTF8) {e : IoError} {files : FileSystem}
    (hwrite : fs.write path written.toUTF8 = (.error e, files)) :
    doJobs settings none fs [.inPlace path] = some ⟨[⟨.inPlace path, .failed (.io path e)⟩], none, files⟩ := by
  obtain ⟨again, hagain, -⟩ := exists_weaveText_again hwoven
  obtain ⟨l, hl, -⟩ := FileSystem.read_eq_ok_iff.1 hread
  have htext : textAt fs path >>= weaveText settings path = .ok (again, written) := by
    rw [textAt_eq_ok_iff.2 hread]
    exact hagain
  rw [FileSystem.write_eq_put hread hl] at hwrite
  obtain rfl : fs.put ((fs.accept l written.toUTF8).2.map (l, ·)) = files := congrArg Prod.snd hwrite
  have hverdict : verdict settings none fs path =
      (.failed (.io path e), (fs.accept l written.toUTF8).2.map (l, ·)) := by
    rw [verdict_of_not_skipped rfl, htext, Batch.written, hl]
    dsimp only
    rcases haccept : fs.accept l written.toUTF8 with ⟨result, written?⟩
    rw [haccept] at hwrite
    obtain rfl : result = .error e := congrArg Prod.fst hwrite
    rfl
  exact doJobs_of_verdict hverdict (by simp)

/-- A batch has woven the file at a path in its place, a manifest remembers what it wrote there, and a later batch with
the same settings skips the file as unchanged. Then the file holds what the earlier batch wrote, or a text with the same
digest; and if it holds what was written, and can be written, it comes out the same if it is woven in place of being
skipped, and is found in order just if all bodies kept their obligations in the earlier batch. If it cannot be written,
it is a failure then. -/
theorem skip_agrees_if_verified {before fs : FileSystem} {remembered? : Option Manifest} {manifest : Manifest}
    {front back jobs : List Job} {earlier later : Result}
    (wove : doJobs settings remembered? before (front ++ .inPlace path :: back) = some earlier)
    (woven : earlier.outcomes[front.length]? = some ⟨.inPlace path, .woven report digest⟩)
    (recorded : (manifest.entry? path.display).bind (·.wovenDigest) = some digest)
    (done : doJobs settings (some manifest) fs jobs = some later)
    (skipped : ⟨.inPlace path, .skipped .unchanged⟩ ∈ later.outcomes) :
    ∃ (text written : String) (left : Result), fs.read path = .ok text.toUTF8 ∧
      doJobs settings remembered? before (front ++ [.inPlace path]) = some left ∧
      left.files.read path = .ok written.toUTF8 ∧ sha256Hex text = sha256Hex written ∧
      (text = written →
        (∀ files, fs.write path written.toUTF8 = (.ok (), files) →
          ∃ again, WovenAgain settings fs path digest report again files) ∧
        ∀ e files, fs.write path written.toUTF8 = (.error e, files) →
          doJobs settings none fs [.inPlace path] = some ⟨[⟨.inPlace path, .failed (.io path e)⟩], none, files⟩) := by
  obtain ⟨source, written, left, hwoven, rfl, hleft, hwritten⟩ := exists_written_of_woven wove woven
  have hskip : skipReason? (some manifest) fs path = some .unchanged := (skipReason?_of_mem done skipped).symm
  obtain ⟨entry, text, hentry, -, hread, hdigest⟩ := skipReason?_eq_unchanged_iff.1 hskip
  rw [hentry, Option.bind_some, hdigest, Option.some.injEq] at recorded
  refine ⟨text, written, left, hread, hleft, hwritten, recorded, ?_⟩
  rintro rfl
  exact ⟨fun _ hwrite => exists_wovenAgain hwoven hread hwrite, fun _ _ hwrite => doJobs_of_closed hwoven hread hwrite⟩

/-! ### Samples -/

namespace Sample

/-- A file with a body that takes a value from the empty stack. -/
def faulty : FileSystem where
  entries :=
    [(⟨false, ["a.wil"]⟩, .file "module m class C \x7b method F() -> void \x7b pop ret \x7d \x7d".toUTF8)]

/-- The same files, closed to writing. -/
def closed (fs : FileSystem) : FileSystem :=
  { fs with writeFault? := fun _ _ _ => some (.refused (.other "Permission denied (os error 13)")) }

/-- The outcome of the first batch is that `a.wil` is woven with a certificate that passes; the second batch skips the
file, which could be written again. -/
def settles (first second : Result) (o : JobOutcome) : Bool :=
  match o.status with
  | .woven report digest =>
    report.certificate.all (·.allPass) &&
    (first.files.write "a.wil" ((first.files.read "a.wil").toOption.getD .empty)).1.isOk &&
    decide (first.outcomes[0]? = some ⟨.inPlace "a.wil", .woven report digest⟩ ∧
      ⟨.inPlace "a.wil", .skipped .unchanged⟩ ∈ second.outcomes ∧
      (first.entryFor? (OsString.display "a.wil")).bind (·.wovenDigest) = some digest)
  | _ => false

end Sample

/-- The file of the sample is woven and is then skipped; woven once more, it is in order as well. -/
theorem skip_agrees_if_verified_sample :
    ∃ first kept second report digest again files,
      doJobs {} (some {}) Sample.files [.inPlace "a.wil"] = some first ∧
      first.outcomes[0]? = some ⟨.inPlace "a.wil", .woven report digest⟩ ∧ first.manifest? = some kept ∧
      (kept.entry? (OsString.display "a.wil")).bind (·.wovenDigest) = some digest ∧
      doJobs {} (some kept) first.files [.inPlace "a.wil"] = some second ∧
      ⟨.inPlace "a.wil", .skipped .unchanged⟩ ∈ second.outcomes ∧
      WovenAgain {} first.files "a.wil" digest report again files ∧
      (⟨.inPlace "a.wil", .woven again digest⟩ : JobOutcome).isFailure = false := by
  -- one evaluation of both runs tells all
  have heval : (doJobs {} (some {}) Sample.files [.inPlace "a.wil"]).any fun first =>
      (doJobs {} (some (first.manifest?.getD {})) first.files [.inPlace "a.wil"]).any fun second =>
        first.outcomes.any (Sample.settles first second) := by
    decide +kernel
  obtain ⟨first, wove, heval⟩ := (Option.any_eq_true _ _).1 heval
  obtain ⟨second, done, heval⟩ := (Option.any_eq_true _ _).1 heval
  obtain ⟨o, -, heval⟩ := List.any_eq_true.1 heval
  unfold Sample.settles at heval
  split at heval
  · next report digest _ =>
    simp only [Bool.and_eq_true, decide_eq_true_eq] at heval
    obtain ⟨⟨hclean, hopen⟩, woven, skipped, recorded⟩ := heval
    have hkept := (doJobs_eq_some_iff.1 wove).2
    rw [Option.map_some] at hkept
    rw [hkept, Option.getD_some] at done
    rw [Result.entryFor?, hkept, Option.bind_some] at recorded
    obtain ⟨text, written, left, hread, hleft, hwritten, -, hagain⟩ :=
      @skip_agrees_if_verified {} "a.wil" digest report Sample.files first.files (some {}) _ [] [] [.inPlace "a.wil"]
        first second wove woven recorded done skipped
    obtain rfl : first = left := Option.some.inj (wove.symm.trans hleft)
    have htext : text = written :=
      Except.ok.inj ((textAt_eq_ok_iff.2 hread).symm.trans (textAt_eq_ok_iff.2 hwritten))
    rw [hwritten] at hopen
    change (first.files.write "a.wil" written.toUTF8).1.isOk = true at hopen
    rcases hwrite : first.files.write "a.wil" written.toUTF8 with ⟨e | _, files⟩
    · rw [hwrite] at hopen
      cases hopen
    · obtain ⟨again, hagain⟩ := (hagain htext).1 files hwrite
      refine ⟨first, _, second, report, digest, again, files, wove, woven, hkept, recorded, done, skipped, hagain,
        hagain.isFailure.2 fun c hc => ?_⟩
      rw [Option.mem_def] at hc
      rw [hc] at hclean
      exact hclean
  · cases heval

/-- A file that breaks an obligation is a failure when it is woven, but not when it is skipped later on; if it were
woven then, it would be a failure again. So would be a file that has been closed to writing since it was woven, even if
it is in order. -/
theorem skip_hides_faults :
    (∃ first, doJobs {} (some {}) Sample.faulty [.inPlace "a.wil"] = some first ∧
      first.outcomes.map (·.isFailure) = [true] ∧
      (doJobs {} first.manifest? first.files [.inPlace "a.wil"]).map (·.outcomes) =
        some [⟨.inPlace "a.wil", .skipped .unchanged⟩] ∧
      (doJobs {} none first.files [.inPlace "a.wil"]).map (·.outcomes.map fun o => (o.isFailure, o.exitCode)) =
        some [(true, 1)]) ∧
    ∃ first, doJobs {} (some {}) Sample.files [.inPlace "a.wil"] = some first ∧
      first.outcomes.map (·.isFailure) = [false] ∧
      (doJobs {} first.manifest? (Sample.closed first.files) [.inPlace "a.wil"]).map (·.outcomes) =
        some [⟨.inPlace "a.wil", .skipped .unchanged⟩] ∧
      (doJobs {} none (Sample.closed first.files) [.inPlace "a.wil"]).map
        (·.outcomes.map fun o => (o.isFailure, o.exitCode)) = some [(true, 2)] := by
  have hfaulty : (doJobs {} (some {}) Sample.faulty [.inPlace "a.wil"]).any fun first => decide
      (first.outcomes.map (·.isFailure) = [true] ∧
      (doJobs {} first.manifest? first.files [.inPlace "a.wil"]).map (·.outcomes) =
        some [⟨.inPlace "a.wil", .skipped .unchanged⟩] ∧
      (doJobs {} none first.files [.inPlace "a.wil"]).map (·.outcomes.map fun o => (o.isFailure, o.exitCode)) =
        some [(true, 1)]) := by
    decide +kernel
  have hclosed : (doJobs {} (some {}) Sample.files [.inPlace "a.wil"]).any fun first => decide
      (first.outcomes.map (·.isFailure) = [false] ∧
      (doJobs {} first.manifest? (Sample.closed first.files) [.inPlace "a.wil"]).map (·.outcomes) =
        some [⟨.inPlace "a.wil", .skipped .unchanged⟩] ∧
      (doJobs {} none (Sample.closed first.files) [.inPlace "a.wil"]).map
        (·.outcomes.map fun o => (o.isFailure, o.exitCode)) = some [(true, 2)]) := by
    decide +kernel
  obtain ⟨first, hfirst, hends⟩ := (Option.any_eq_true _ _).1 hfaulty
  obtain ⟨first', hfirst', hends'⟩ := (Option.any_eq_true _ _).1 hclosed
  exact ⟨⟨first, hfirst, of_decide_eq_true hends⟩, first', hfirst', of_decide_eq_true hends'⟩

end Batch

end AdviceWeaving
