import AdviceWeaving.Proofs.Manifests
import Mathlib.Algebra.Ring.Nat
import Mathlib.Data.List.Nodup
import Mathlib.Data.List.Perm.Basic

/-!
# Jobs of a batch

A batch of jobs in their places, whose paths lead to different files, does for each what its verdict tells
(`Batch.inPlace_eq`), whatever the other jobs have done by then; it stops just if one of its jobs does. So the jobs are
independent (`Batch.jobs_independent`), if also their paths are shown in different ways, so that the manifest can tell
them apart, and if no write takes away the room of another. Jobs for which one of this fails can do something to each
other, although their paths differ (`Batch.jobs_interfere`).
-/

namespace AdviceWeaving

namespace Batch

variable {settings : Settings} {manifest? : Option Manifest} {fs cur : FileSystem} {path path' : OsString}

/-! ### Lists of jobs -/

/-- No two of the paths lead to one file. -/
def Apart (fs : FileSystem) (paths : List OsString) : Prop :=
  paths.Pairwise fun path path' => ¬ fs.SameFile path path'

/-- No two of the paths are shown alike, so that each has an entry of its own in a manifest. -/
def ShownApart (paths : List OsString) : Prop :=
  (paths.map (·.display)).Nodup

instance (paths : List OsString) : Decidable (ShownApart paths) :=
  inferInstanceAs (Decidable (List.Nodup _))

/-- What becomes of a job. -/
def outcome (settings : Settings) (manifest? : Option Manifest) (fs : FileSystem) (path : OsString) : JobOutcome :=
  ⟨.inPlace path, (verdict settings manifest? fs path).1⟩

/-- The files after some jobs. -/
def putAll (settings : Settings) (manifest? : Option Manifest) (fs cur : FileSystem) (paths : List OsString) :
    FileSystem :=
  paths.foldl (fun cur path => cur.put (verdict settings manifest? fs path).2) cur

/-- What is left after some jobs. -/
def after (settings : Settings) (manifest? : Option Manifest) (fs : FileSystem) (paths : List OsString) : Result where
  outcomes := paths.map (outcome settings manifest? fs)
  manifest? := manifest?.map (·.recordAll (paths.map (outcome settings manifest? fs)))
  files := putAll settings manifest? fs fs paths

/-- Weave files in their places. Gives nothing if the program stops. -/
def inPlace (settings : Settings) (manifest? : Option Manifest) (fs : FileSystem) (paths : List OsString) :
    Option Result :=
  doJobs settings manifest? fs (paths.map .inPlace)

variable {paths paths' : List OsString}

private theorem Apart.tail (h : Apart fs (path :: paths)) : Apart fs paths :=
  (List.pairwise_cons.1 h).2

/-- The other jobs find their files as they were. -/
private theorem read_put_of_apart (settings : Settings) (manifest? : Option Manifest)
    (hapart : Apart fs (path :: paths))
    (htree : fs.SameTree cur) (hreads : ∀ p ∈ path :: paths, cur.read p = fs.read p) :
    ∀ p ∈ paths, (cur.put (verdict settings manifest? fs path).2).read p = fs.read p := fun p hp =>
  ((put_verdict settings manifest? htree (hreads path List.mem_cons_self)).2 p
    ((List.pairwise_cons.1 hapart).1 p hp)).trans (hreads p (List.mem_cons_of_mem path hp))

theorem plan_inPlace (manifest? : Option Manifest) (fs : FileSystem) (paths : List OsString) :
    plan manifest? fs (paths.map .inPlace) = paths.map fun p => (Job.inPlace p, skipReason? manifest? fs p) := by
  rw [plan, List.map_map]
  rfl

variable (settings manifest?) in
private theorem carryOut_inPlace (hroom : fs.WritesApart) (hapart : Apart fs paths) (htree : fs.SameTree cur)
    (hreads : ∀ p ∈ paths, cur.read p = fs.read p) :
    (∃ p ∈ paths, Stops settings manifest? fs p) ∧
        (carryOut settings (plan manifest? fs (paths.map .inPlace)) cur).1 = none ∨
      (∀ p ∈ paths, ¬ Stops settings manifest? fs p) ∧
        carryOut settings (plan manifest? fs (paths.map .inPlace)) cur =
          (some (paths.map (outcome settings manifest? fs)), putAll settings manifest? fs cur paths) := by
  rw [plan_inPlace]
  induction paths generalizing cur with
  | nil => exact .inr ⟨fun _ hp => (nomatch hp), rfl⟩
  | cons path paths ih =>
    have hread := hreads path List.mem_cons_self
    rw [List.map_cons, carryOut_cons, perform_runJob hroom (htree.unchanged hread)]
    by_cases hstops : Stops settings manifest? fs path
    · rw [if_pos hstops]
      exact .inl ⟨⟨path, List.mem_cons_self, hstops⟩, rfl⟩
    · rw [if_neg hstops]
      dsimp only
      rcases ih hapart.tail (put_verdict settings manifest? htree hread).1
        (read_put_of_apart settings manifest? hapart htree hreads) with ⟨⟨p, hp, hrest⟩, hnone⟩ | ⟨hrest, hrun⟩
      · exact .inl ⟨⟨p, List.mem_cons_of_mem path hp, hrest⟩, by rw [hnone]; rfl⟩
      · exact .inr ⟨List.forall_mem_cons.2 ⟨hstops, hrest⟩, by rw [hrun]; rfl⟩

/-- A batch does for each job what its verdict tells, unless one of them stops it. -/
theorem inPlace_eq (settings : Settings) (manifest? : Option Manifest) (hroom : fs.WritesApart)
    (hapart : Apart fs paths) : inPlace settings manifest? fs paths =
      if ∃ p ∈ paths, Stops settings manifest? fs p then none else some (after settings manifest? fs paths) := by
  rw [inPlace, doJobs_eq]
  rcases carryOut_inPlace settings manifest? hroom hapart (.refl fs) fun _ _ => rfl with
    ⟨hstops, hnone⟩ | ⟨hends, hrun⟩
  · rw [if_pos hstops, hnone]
    rfl
  · rw [if_neg (fun ⟨p, hp, hstops⟩ => hends p hp hstops), hrun]
    rfl

private theorem inPlace_eq_none_iff (hroom : fs.WritesApart) (hapart : Apart fs paths) :
    inPlace settings manifest? fs paths = none ↔ ∃ p ∈ paths, Stops settings manifest? fs p := by
  rw [inPlace_eq settings manifest? hroom hapart]
  split
  · next hstops => simp only [hstops]
  · next hends => simp only [hends, reduceCtorEq]

theorem inPlace_eq_some_iff (hroom : fs.WritesApart) (hapart : Apart fs paths) {r : Result} :
    inPlace settings manifest? fs paths = some r ↔
      (∀ p ∈ paths, ¬ Stops settings manifest? fs p) ∧ r = after settings manifest? fs paths := by
  have hends : (∀ p ∈ paths, ¬ Stops settings manifest? fs p) ↔ ¬ ∃ p ∈ paths, Stops settings manifest? fs p := by
    simp only [not_exists, not_and]
  rw [inPlace_eq settings manifest? hroom hapart, hends]
  split
  · next hstops => simp [hstops]
  · next hends => simp [hends, eq_comm]

/-- Alone, a job does what its verdict tells, whatever room there is. -/
theorem inPlace_singleton (settings : Settings) (manifest? : Option Manifest) (fs : FileSystem) (path : OsString) :
    inPlace settings manifest? fs [path] =
      if Stops settings manifest? fs path then none else some (after settings manifest? fs [path]) := by
  rw [inPlace, doJobs_eq, plan_inPlace, List.map_singleton, carryOut_cons, perform_runJob_self]
  by_cases hstops : Stops settings manifest? fs path
  · rw [if_pos hstops, if_pos hstops]
    rfl
  · rw [if_neg hstops, if_neg hstops]
    rfl

private theorem inPlace_singleton_eq_none_iff :
    inPlace settings manifest? fs [path] = none ↔ Stops settings manifest? fs path := by
  rw [inPlace_singleton]
  split <;> simp_all

/-! ### Files -/

private theorem Apart.perm (h : Apart fs paths) (hperm : paths'.Perm paths) : Apart fs paths' :=
  List.Perm.pairwise hperm.symm h fun hother hsame => hother hsame.symm

private theorem Apart.not_sameFile (h : Apart fs paths) (hpath : path ∈ paths) (hpath' : path' ∈ paths)
    (hne : path ≠ path') : ¬ fs.SameFile path path' := by
  have hfirst : Apart fs (path :: paths.erase path) := h.perm (List.perm_cons_erase hpath).symm
  exact (List.pairwise_cons.1 hfirst).1 path' ((List.mem_erase_of_ne hne.symm).2 hpath')

/-- The files that no job has. -/
theorem putAll_apart (settings : Settings) (manifest? : Option Manifest) (hapart : Apart fs paths)
    (htree : fs.SameTree cur) (hreads : ∀ p ∈ paths, cur.read p = fs.read p) :
    fs.SameTree (putAll settings manifest? fs cur paths) ∧
      ∀ path, (∀ p ∈ paths, ¬ fs.SameFile p path) →
        (putAll settings manifest? fs cur paths).read path = cur.read path := by
  induction paths generalizing cur with
  | nil => exact ⟨htree, fun _ _ => rfl⟩
  | cons p paths ih =>
    obtain ⟨htree', hothers⟩ := put_verdict settings manifest? htree (hreads p List.mem_cons_self)
    obtain ⟨hend, hrest⟩ := ih hapart.tail htree' (read_put_of_apart settings manifest? hapart htree hreads)
    refine ⟨hend, fun path hpath => (hrest path fun p' hp' => hpath p' (List.mem_cons_of_mem p hp')).trans ?_⟩
    exact hothers path (hpath p List.mem_cons_self)

/-- Two jobs write to different places, if they write at all. -/
private theorem put_comm (settings : Settings) (manifest? : Option Manifest) (hother : ¬ fs.SameFile path path')
    (cur : FileSystem) :
    (cur.put (verdict settings manifest? fs path).2).put (verdict settings manifest? fs path').2 =
      (cur.put (verdict settings manifest? fs path').2).put (verdict settings manifest? fs path).2 := by
  rcases verdict_snd_cases settings manifest? fs path with h | ⟨content, l, kept, hcontent, hl, h⟩
  · rw [h]
    rfl
  · rcases verdict_snd_cases settings manifest? fs path' with h' | ⟨content', l', kept', hcontent', hl', h'⟩
    · rw [h']
      rfl
    · have hne : l ≠ l' := fun heq =>
        hother ⟨⟨content, hcontent⟩, ⟨content', hcontent'⟩, by rw [hl, hl', heq]⟩
      rw [h, h']
      exact cur.overwrite_comm hne kept kept'

/-- The order of the jobs is not seen in the files. -/
private theorem putAll_perm (settings : Settings) (manifest? : Option Manifest) (hapart : Apart fs paths)
    (hperm : paths'.Perm paths) (cur : FileSystem) :
    putAll settings manifest? fs cur paths' = putAll settings manifest? fs cur paths := by
  refine hperm.foldl_eq' (fun p hp q hq cur => ?_) cur
  by_cases hpq : p = q
  · rw [hpq]
  · have hother := hapart.not_sameFile (hperm.mem_iff.1 hp) (hperm.mem_iff.1 hq) hpq
    exact put_comm settings manifest? hother cur

/-- A file that a job has is as if the job were alone. -/
private theorem read_putAll_of_mem (settings : Settings) (manifest? : Option Manifest) (hapart : Apart fs paths)
    (hpath : path ∈ paths) (hsame : fs.SameFile path path') :
    (putAll settings manifest? fs fs paths).read path' = (putAll settings manifest? fs fs [path]).read path' := by
  have hperm : paths.Perm (path :: paths.erase path) := List.perm_cons_erase hpath
  have hfirst : Apart fs (path :: paths.erase path) := hapart.perm hperm.symm
  rw [← putAll_perm settings manifest? hapart hperm.symm]
  refine (putAll_apart settings manifest? hfirst.tail (put_verdict settings manifest? (.refl fs) rfl).1
    (read_put_of_apart settings manifest? hfirst (.refl fs) fun _ _ => rfl)).2 path' fun p hp hp' => ?_
  exact (List.pairwise_cons.1 hfirst).1 p hp (hsame.trans hp'.symm)

/-- The file of a job is as if the job were alone, whether it can be read or not. -/
private theorem read_putAll_self (settings : Settings) (manifest? : Option Manifest) (hapart : Apart fs paths)
    (hpath : path ∈ paths) :
    (putAll settings manifest? fs fs paths).read path = (fs.put (verdict settings manifest? fs path).2).read path := by
  by_cases hreadable : ∃ content, fs.read path = .ok content
  · obtain ⟨content, hread⟩ := hreadable
    exact read_putAll_of_mem settings manifest? hapart hpath (.refl hread)
  · rw [(putAll_apart settings manifest? hapart (.refl fs) fun _ _ => rfl).2 path
      fun p _ hsame => hreadable hsame.2.1]
    rcases verdict_snd_cases settings manifest? fs path with h | ⟨content, _, _, hread, -⟩
    · rw [h]
      rfl
    · exact absurd ⟨content, hread⟩ hreadable

/-- A job of which one does not see what it has done is not missed. -/
private theorem read_putAll_filter (settings : Settings) (manifest? : Option Manifest) (hapart : Apart fs paths)
    (hother : ¬ fs.SameFile path path') :
    (putAll settings manifest? fs fs (paths.filter (· ≠ path))).read path' =
      (putAll settings manifest? fs fs paths).read path' := by
  have hfilter : Apart fs (paths.filter (· ≠ path)) := List.Pairwise.filter _ hapart
  by_cases hmem : ∃ p ∈ paths.filter (· ≠ path), fs.SameFile p path'
  · obtain ⟨p, hp, hsame⟩ := hmem
    rw [read_putAll_of_mem settings manifest? hfilter hp hsame,
      read_putAll_of_mem settings manifest? hapart (List.mem_filter.1 hp).1 hsame]
  · have hnone (p : OsString) (hp : p ∈ paths) (hsame : fs.SameFile p path') : False := by
      by_cases heq : p = path
      · exact hother (heq ▸ hsame)
      · exact hmem ⟨p, List.mem_filter.2 ⟨hp, by simpa using heq⟩, hsame⟩
    rw [(putAll_apart settings manifest? hfilter (.refl fs) fun _ _ => rfl).2 path' fun p hp hsame =>
        hmem ⟨p, hp, hsame⟩,
      (putAll_apart settings manifest? hapart (.refl fs) fun _ _ => rfl).2 path' hnone]

/-! ### Manifests -/

/-- What is remembered of a job. -/
def remember (manifest : Manifest) (o : JobOutcome) : Manifest :=
  match o.status with
  | .woven _ digest => manifest.record o.job.output.display digest
  | _ => manifest

variable {manifest : Manifest} {outcomes : List JobOutcome} {report : PassReport} {digest key : String}

private theorem recordAll_cons (manifest : Manifest) (o : JobOutcome) (outcomes : List JobOutcome) :
    manifest.recordAll (o :: outcomes) = (remember manifest o).recordAll outcomes := rfl

private theorem entry?_remember_of_ne (h : key ≠ path.display) :
    Manifest.entry? (remember manifest (outcome settings manifest? fs path)) key = manifest.entry? key := by
  unfold remember
  split
  · exact Manifest.entry?_record_of_ne h
  · rfl

/-- The manifest says the same about what no job weaves. -/
private theorem entry?_recordAll_of_unwoven (h : ∀ p ∈ paths, p.display = key → ∀ report digest,
    (outcome settings manifest? fs p).status ≠ .woven report digest) :
    Manifest.entry? (manifest.recordAll (paths.map (outcome settings manifest? fs))) key = manifest.entry? key := by
  induction paths generalizing manifest with
  | nil => rfl
  | cons p paths ih =>
    rw [List.map_cons, recordAll_cons, ih fun p' hp' => h p' (List.mem_cons_of_mem p hp')]
    by_cases hp : p.display = key
    · unfold remember
      split
      · next heq => exact absurd heq (h p List.mem_cons_self hp _ _)
      · rfl
    · exact entry?_remember_of_ne (Ne.symm hp)

private theorem ShownApart.eq_of_display_eq (h : ShownApart paths) (hpath : path ∈ paths) (hpath' : path' ∈ paths)
    (heq : path.display = path'.display) : path = path' :=
  List.inj_on_of_nodup_map h hpath hpath' heq

/-- The manifest says the same about a path that has not been woven. -/
theorem entry?_recordAll_of_not_woven (hshown : ShownApart paths) (hpath : path ∈ paths)
    (h : ∀ report digest, (outcome settings manifest? fs path).status ≠ .woven report digest) :
    Manifest.entry? (manifest.recordAll (paths.map (outcome settings manifest? fs))) path.display =
      manifest.entry? path.display :=
  entry?_recordAll_of_unwoven fun _ hp heq => hshown.eq_of_display_eq hp hpath heq ▸ h

/-- What was woven is remembered, and whether the path takes part stays as it is. -/
theorem entry?_recordAll_of_woven (hshown : ShownApart paths) (hpath : path ∈ paths)
    (h : (outcome settings manifest? fs path).status = .woven report digest) :
    Manifest.entry? (manifest.recordAll (paths.map (outcome settings manifest? fs))) path.display =
      some { (manifest.entry? path.display).getD {} with wovenDigest := some digest } := by
  induction paths generalizing manifest with
  | nil => cases hpath
  | cons p paths ih =>
    obtain ⟨hp, hrest⟩ := List.nodup_cons.1 hshown
    rw [List.map_cons, recordAll_cons]
    rcases List.mem_cons.1 hpath with rfl | hpath
    · have hothers (p' : OsString) (hp' : p' ∈ paths) (heq : p'.display = path.display) : False :=
        hp (List.mem_map.2 ⟨p', hp', heq⟩)
      rw [entry?_recordAll_of_unwoven fun p' hp' heq => (hothers p' hp' heq).elim, remember, h]
      exact Manifest.entry?_record_self
    · have hne : path.display ≠ p.display := fun heq => hp (List.mem_map.2 ⟨path, hpath, heq⟩)
      rw [ih hrest hpath, entry?_remember_of_ne hne]

/-- The order of the jobs is not seen in the manifest. -/
private theorem recordAll_perm (hshown : ShownApart paths) (hperm : paths'.Perm paths) :
    manifest.recordAll (paths'.map (outcome settings manifest? fs)) =
      manifest.recordAll (paths.map (outcome settings manifest? fs)) := by
  refine (hperm.map _).foldl_eq' (fun o ho o' ho' manifest => ?_) manifest
  obtain ⟨p, hp, rfl⟩ := List.mem_map.1 ho
  obtain ⟨p', hp', rfl⟩ := List.mem_map.1 ho'
  by_cases heq : p = p'
  · rw [heq]
  · have hne : p.display ≠ p'.display := fun hdisplay =>
      heq (hshown.eq_of_display_eq (hperm.mem_iff.1 hp) (hperm.mem_iff.1 hp') hdisplay)
    show remember (remember manifest _) _ = remember (remember manifest _) _
    unfold remember
    split <;> split <;> first | rfl | exact Manifest.record_comm hne

private theorem recordAll_filter_of_failed {failure : FileFailure}
    (h : (outcome settings manifest? fs path).status = .failed failure) :
    manifest.recordAll ((paths.filter (· ≠ path)).map (outcome settings manifest? fs)) =
      manifest.recordAll (paths.map (outcome settings manifest? fs)) := by
  induction paths generalizing manifest with
  | nil => rfl
  | cons p paths ih =>
    by_cases hp : p = path
    · rw [List.filter_cons_of_neg (by simpa using hp), ih, hp, List.map_cons, recordAll_cons, remember, h]
    · rw [List.filter_cons_of_pos (by simpa using hp), List.map_cons, recordAll_cons, ih]
      rfl

/-! ### What is left of a job -/

/-- What the manifest says after a batch. -/
def Result.entryFor? (r : Result) (key : String) : Option ManifestEntry :=
  r.manifest?.bind (fun m => m.entry? key)

/-- The write of what was woven has broken off: the file holds no more than the first part of it. -/
def CutOff (settings : Settings) (fs : FileSystem) (path : OsString) (failure : FileFailure) (files : FileSystem) :
    Prop :=
  ∃ report text l length e, textAt fs path >>= weaveText settings path = .ok (report, text) ∧
    fs.locate path = .ok l ∧ fs.writeFault? fs.entries l text.toUTF8 = some (.cutOff length e) ∧
    failure = .io path e ∧ files.read path = .ok (text.toUTF8.extract 0 length)

/-- The outcomes of a batch tell what became of each job. -/
theorem mem_outcomes_iff {status : JobStatus} :
    ⟨.inPlace path, status⟩ ∈ (after settings manifest? fs paths).outcomes ↔
      path ∈ paths ∧ (outcome settings manifest? fs path).status = status := by
  show _ ∈ paths.map _ ↔ _
  rw [List.mem_map]
  constructor
  · rintro ⟨p, hp, heq⟩
    have hjob : p = path := congrArg (·.job.input) heq
    exact ⟨hjob ▸ hp, by rw [← hjob, heq]⟩
  · rintro ⟨hp, rfl⟩
    exact ⟨path, hp, rfl⟩

private theorem entryFor?_after_of_not_woven (hshown : manifest? = none ∨ ShownApart paths) (hpath : path ∈ paths)
    (h : ∀ report digest, (outcome settings manifest? fs path).status ≠ .woven report digest) :
    (after settings manifest? fs paths).entryFor? path.display = manifest?.bind (fun m => m.entry? path.display) := by
  cases manifest? with
  | none => rfl
  | some manifest => exact entry?_recordAll_of_not_woven (hshown.resolve_left (Option.some_ne_none _)) hpath h

private theorem entryFor?_after_of_woven (hshown : ShownApart paths) (hpath : path ∈ paths)
    (h : (outcome settings (some manifest) fs path).status = .woven report digest) :
    (after settings (some manifest) fs paths).entryFor? path.display =
      some { (manifest.entry? path.display).getD {} with wovenDigest := some digest } :=
  entry?_recordAll_of_woven hshown hpath h

/-- The entry of a job is as if the job were alone. -/
private theorem entryFor?_after_eq (hshown : manifest? = none ∨ ShownApart paths) (hpath : path ∈ paths) :
    (after settings manifest? fs paths).entryFor? path.display =
      (after settings manifest? fs [path]).entryFor? path.display := by
  cases manifest? with
  | none => rfl
  | some manifest =>
    have hshown := hshown.resolve_left (Option.some_ne_none _)
    have halone : ShownApart [path] := List.nodup_singleton _
    by_cases hwoven : ∃ report digest, (outcome settings (some manifest) fs path).status = .woven report digest
    · obtain ⟨report, digest, hwoven⟩ := hwoven
      rw [entryFor?_after_of_woven hshown hpath hwoven,
        entryFor?_after_of_woven halone (List.mem_singleton_self path) hwoven]
    · simp only [not_exists] at hwoven
      rw [entryFor?_after_of_not_woven (.inr hshown) hpath hwoven,
        entryFor?_after_of_not_woven (.inr halone) (List.mem_singleton_self path) hwoven]

/-- The file of a job that writes nothing is as it was. -/
theorem read_after_of_nothing (hapart : Apart fs paths) (hpath : path ∈ paths)
    (h : (verdict settings manifest? fs path).2 = none) :
    (after settings manifest? fs paths).files.read path = fs.read path :=
  (read_putAll_self settings manifest? hapart hpath).trans (by rw [h]; rfl)

/-- A job that fails writes nothing, unless its write breaks off. -/
theorem nothing_or_cutOff_of_failed (hapart : Apart fs paths) (hpath : path ∈ paths) {failure : FileFailure}
    (h : (outcome settings manifest? fs path).status = .failed failure) :
    (verdict settings manifest? fs path).2 = none ∨
      CutOff settings fs path failure (after settings manifest? fs paths).files := by
  have hread : (after settings manifest? fs paths).files.read path = _ :=
    read_putAll_self settings manifest? hapart hpath
  rw [outcome] at h
  rcases verdict_cases settings manifest? fs path with
    ⟨_, h'⟩ | ⟨_, h'⟩ | ⟨_, _, _, _, -, -, h'⟩ |
      ⟨content, l, report, text, length, e, hcontent, hl, hwoven, hfault, h'⟩ <;>
    rw [h'] at h hread
  · cases h
  · exact .inl (congrArg Prod.snd h')
  · cases h
  · cases h
    exact .inr ⟨report, text, l, length, e, hwoven, hl, hfault, rfl,
      hread.trans (FileSystem.read_overwrite_self hcontent hl _)⟩

/-- The file of a job that is woven holds what the digest tells. -/
theorem read_after_of_woven (hapart : Apart fs paths) (hpath : path ∈ paths)
    (h : (outcome settings manifest? fs path).status = .woven report digest) :
    ∃ text : String, (after settings manifest? fs paths).files.read path = .ok text.toUTF8 ∧
      digest = sha256Hex text := by
  have hread : (after settings manifest? fs paths).files.read path = _ :=
    read_putAll_self settings manifest? hapart hpath
  rw [outcome] at h
  rcases verdict_cases settings manifest? fs path with
    ⟨_, h'⟩ | ⟨_, h'⟩ | ⟨content, l, _, text, hcontent, hl, h'⟩ | ⟨_, _, _, _, _, _, -, -, -, -, h'⟩ <;>
    rw [h'] at h hread
  · cases h
  · cases h
  · cases h
    exact ⟨text, hread.trans (FileSystem.read_overwrite_self hcontent hl _), rfl⟩
  · cases h

/-! ### Independence -/

/-- The jobs of a batch that leaves the given result do not depend on one another. -/
structure Independent (settings : Settings) (manifest? : Option Manifest) (fs : FileSystem)
    (paths : List OsString) (r : Result) : Prop where
  /-- In any order the same becomes of each job, of the manifest and of the files. -/
  order : ∀ paths' : List OsString, paths'.Perm paths →
    ∃ r', inPlace settings manifest? fs paths' = some r' ∧ r'.outcomes.Perm r.outcomes ∧
      r'.manifest? = r.manifest? ∧ r'.files = r.files
  /-- It is what becomes of each job alone, of its entry, and of its file through whatever path that is read. -/
  alone : List.Forall₂ (fun path o =>
    ∃ r', inPlace settings manifest? fs [path] = some r' ∧ r'.outcomes = [o] ∧
      r'.entryFor? path.display = r.entryFor? path.display ∧
      ∀ path', fs.SameFile path path' → r'.files.read path' = r.files.read path') paths r.outcomes
  /-- Other files stay as they are, and so do the directories. -/
  others : fs.SameTree r.files ∧
    ∀ path, (∀ p ∈ paths, ¬ fs.SameFile p path) → r.files.read path = fs.read path
  /-- A job that fails leaves its entry as it is, and its file unless the write breaks off; and all else ends as if it
  were not there. -/
  failed : ∀ path failure, ⟨.inPlace path, .failed failure⟩ ∈ r.outcomes →
    (r.files.read path = fs.read path ∨ CutOff settings fs path failure r.files) ∧
    r.entryFor? path.display = manifest?.bind (fun m => m.entry? path.display) ∧
    ∃ r', inPlace settings manifest? fs (paths.filter (· ≠ path)) = some r' ∧
      r'.outcomes = r.outcomes.filter (·.job ≠ .inPlace path) ∧ r'.manifest? = r.manifest? ∧
      ∀ path', ¬ fs.SameFile path path' → r'.files.read path' = r.files.read path'
  /-- The manifest changes only for paths that are woven. -/
  woven_of_entry?_ne : ∀ key, r.entryFor? key ≠ manifest?.bind (fun m => m.entry? key) →
    ∃ path report digest, path.display = key ∧ ⟨.inPlace path, .woven report digest⟩ ∈ r.outcomes
  /-- There it remembers the digest of what the file holds now, and that the path takes part as it did before. -/
  woven : ∀ path report digest, ⟨.inPlace path, .woven report digest⟩ ∈ r.outcomes →
    (∃ content, r.files.read path = .ok content ∧ digest = bytesHex (sha256 content)) ∧
    ∀ manifest, manifest? = some manifest → r.entryFor? path.display =
      some { active := ((manifest.entry? path.display).map (·.active)).getD true, wovenDigest := some digest }

private theorem independent_after (hroom : fs.WritesApart) (hapart : Apart fs paths)
    (hshown : manifest? = none ∨ ShownApart paths) (hends : ∀ p ∈ paths, ¬ Stops settings manifest? fs p) :
    Independent settings manifest? fs paths (after settings manifest? fs paths) where
  order paths' hperm := by
    refine ⟨after settings manifest? fs paths', ?_, hperm.map _, ?_, putAll_perm settings manifest? hapart hperm fs⟩
    · exact (inPlace_eq_some_iff hroom (hapart.perm hperm)).2 ⟨fun p hp => hends p (hperm.mem_iff.1 hp), rfl⟩
    · cases manifest? with
      | none => rfl
      | some manifest =>
        exact congrArg some (recordAll_perm (hshown.resolve_left (Option.some_ne_none _)) hperm)
  alone := by
    refine List.forall₂_map_right_iff.2 (List.forall₂_same.2 fun path hpath => ?_)
    refine ⟨after settings manifest? fs [path], ?_, rfl, (entryFor?_after_eq hshown hpath).symm, fun path' hsame =>
      (read_putAll_of_mem settings manifest? hapart hpath hsame).symm⟩
    rw [inPlace_singleton, if_neg (hends path hpath)]
  others := putAll_apart settings manifest? hapart (.refl fs) fun _ _ => rfl
  failed path failure hmem := by
    obtain ⟨hpath, hfailed⟩ := mem_outcomes_iff.1 hmem
    have hnot (report : PassReport) (digest : String) :
        (outcome settings manifest? fs path).status ≠ .woven report digest := fun hwoven =>
      nomatch hfailed.symm.trans hwoven
    refine ⟨(nothing_or_cutOff_of_failed hapart hpath hfailed).imp_left (read_after_of_nothing hapart hpath),
      entryFor?_after_of_not_woven hshown hpath hnot, after settings manifest? fs (paths.filter (· ≠ path)), ?_, ?_, ?_,
      fun path' hother => read_putAll_filter settings manifest? hapart hother⟩
    · exact (inPlace_eq_some_iff hroom (List.Pairwise.filter _ hapart)).2
        ⟨fun p hp => hends p (List.mem_filter.1 hp).1, rfl⟩
    · have hjob (p : OsString) : (outcome settings manifest? fs p).job = .inPlace path ↔ p = path :=
        ⟨fun heq => congrArg Job.input heq, fun heq => congrArg Job.inPlace heq⟩
      simp only [after, List.filter_map, Function.comp_def, ne_eq, hjob]
    · cases manifest? with
      | none => rfl
      | some manifest => exact congrArg some (recordAll_filter_of_failed hfailed)
  woven_of_entry?_ne key hne := by
    by_contra hnone
    simp only [not_exists, not_and] at hnone
    refine hne ?_
    cases manifest? with
    | none => rfl
    | some manifest =>
      exact entry?_recordAll_of_unwoven fun p hp hkey report digest hwoven =>
        hnone p report digest hkey (mem_outcomes_iff.2 ⟨hp, hwoven⟩)
  woven path report digest hmem := by
    obtain ⟨hpath, hwoven⟩ := mem_outcomes_iff.1 hmem
    obtain ⟨text, hread, hdigest⟩ := read_after_of_woven hapart hpath hwoven
    refine ⟨⟨text.toUTF8, hread, hdigest⟩, fun manifest hmanifest => ?_⟩
    subst hmanifest
    rw [entryFor?_after_of_woven (hshown.resolve_left (Option.some_ne_none _)) hpath hwoven]
    cases manifest.entry? path.display <;> rfl

/-- Let the paths of some jobs lead to different files, and be shown in different ways if there is a manifest, and let
what can be written to a file depend on no other. Then the batch stops just if one of the jobs stops when it is alone;
and otherwise its jobs are independent. -/
theorem jobs_independent (settings : Settings) (manifest? : Option Manifest) (fs : FileSystem)
    (paths : List OsString) (apart : Apart fs paths) (shownApart : manifest? = none ∨ ShownApart paths)
    (room : fs.WritesApart) :
    (inPlace settings manifest? fs paths = none ↔ ∃ path ∈ paths, inPlace settings manifest? fs [path] = none) ∧
      ∀ r, inPlace settings manifest? fs paths = some r → Independent settings manifest? fs paths r := by
  constructor
  · rw [inPlace_eq_none_iff room apart]
    simp only [inPlace_singleton_eq_none_iff]
  · intro r hr
    obtain ⟨hends, rfl⟩ := (inPlace_eq_some_iff room apart).1 hr
    exact independent_after room apart shownApart hends

/-! ### Samples -/

namespace Sample

/-- A file with a stray marker, and one that holds no module. -/
def files : FileSystem where
  entries :=
    [(⟨false, ["a.wil"]⟩, .file
        "module m class C \x7b [AttributeInjector.Rise(1)] static method F() -> void \x7b ret \x7d \x7d".toUTF8),
      (⟨false, ["b.wil"]⟩, .file "class".toUTF8)]

theorem apart : Apart files ["a.wil", "b.wil"] := by
  have hother : ¬ files.SameFile "a.wil" "b.wil" := by
    rintro ⟨-, -, hlocate⟩
    have hne : (files.locate "a.wil").toOption ≠ (files.locate "b.wil").toOption := by decide +kernel
    exact hne (congrArg Except.toOption hlocate)
  simpa [Apart] using hother

theorem writesApart : files.WritesApart :=
  fun _ _ _ _ _ => rfl

end Sample

/-- One file of the sample is woven and the other fails, in either order. -/
theorem jobs_independent_sample :
    Apart Sample.files ["a.wil", "b.wil"] ∧ ShownApart ["a.wil", "b.wil"] ∧ Sample.files.WritesApart ∧
      ∃ r r' alone, inPlace {} (some {}) Sample.files ["a.wil", "b.wil"] = some r ∧
        r.outcomes.map (·.isFailure) = [false, true] ∧
        inPlace {} (some {}) Sample.files ["b.wil", "a.wil"] = some r' ∧ r'.files = r.files ∧
        inPlace {} (some {}) Sample.files ["a.wil"] = some alone ∧
        alone.files.read "a.wil" = r.files.read "a.wil" := by
  have hshown : ShownApart ["a.wil", "b.wil"] := by decide +kernel
  obtain ⟨-, hindependent⟩ := jobs_independent {} (some {}) Sample.files ["a.wil", "b.wil"] Sample.apart (.inr hshown)
    Sample.writesApart
  obtain ⟨hreadable, hfailures⟩ : (Sample.files.read "a.wil").toOption.isSome ∧
      (inPlace {} (some {}) Sample.files ["a.wil", "b.wil"]).map (·.outcomes.map (·.isFailure)) =
        some [false, true] := by
    decide +kernel
  obtain ⟨r, hr, hfailures⟩ := Option.map_eq_some_iff.1 hfailures
  obtain ⟨content, hread⟩ : ∃ content, Sample.files.read "a.wil" = .ok content := by
    cases hread : Sample.files.read "a.wil" with
    | error e => rw [hread] at hreadable; cases hreadable
    | ok content => exact ⟨content, rfl⟩
  have hindependent := hindependent r hr
  obtain ⟨r', hr', -, -, hfiles⟩ := hindependent.order ["b.wil", "a.wil"] (.swap _ _ [])
  have halone := hindependent.alone
  cases houtcomes : r.outcomes with
  | nil =>
    rw [houtcomes] at hfailures
    cases hfailures
  | cons o os =>
    rw [houtcomes] at halone
    obtain ⟨alone, halone, -, -, hreads⟩ := (List.forall₂_cons.1 halone).1
    exact ⟨Sample.apart, hshown, Sample.writesApart, r, r', alone, hr, hfailures, hr', hfiles,
      halone, hreads "a.wil" (.refl hread)⟩

namespace Sample

/-- The first file takes no part. -/
def skipping : Manifest where
  entries := [("a.wil", { active := false })]

/-- A name that is no text. -/
def garbled : OsString :=
  ⟨[0x61, 0xFF]⟩

/-- Another name that is no text, and that is shown alike. -/
def garbled' : OsString :=
  ⟨[0x61, 0xFE]⟩

/-- Files of these names. -/
def garbledFiles : FileSystem where
  entries := [(⟨false, [garbled]⟩, .file "module a".toUTF8), (⟨false, [garbled']⟩, .file "module b".toUTF8)]

/-- How many bytes are at a place. -/
def size : FileEntry → Nat
  | .file content => content.size
  | .directory => 0

/-- Two files, and no more room than they take. -/
def crowded (fault : Nat → IoError → WriteFault) : FileSystem where
  entries :=
    [(⟨false, ["a.wil"]⟩, .file "module a                  ".toUTF8),
      (⟨false, ["b.wil"]⟩, .file "module b class C \x7b \x7d".toUTF8)]
  writeFault? entries l content :=
    let room := 46 - ((entries.filter (·.1 ≠ l)).map (size ·.2)).sum
    if content.size ≤ room then none else some (fault room (.other "No space left on device (os error 28)"))

/-- A branch to the last target of all, in a method that gets advice at its entry. -/
def farModule : Module where
  name := "m"
  types :=
    [{ name := "L", attributes := [{ name := "AttributeInjector.Injection" }]
       methods :=
        [{ name := "E", isStatic := true, ret := .void
           attributes := [{ name := "AttributeInjector.Rise", args := [.int 1] }]
           body := some (.ofCode [.simple .ret]) }] },
      { name := "C"
        methods :=
          [{ name := "F", ret := .void, attributes := [{ name := "L" }]
             body := some (.ofCode [.branch .br 18446744073709551615]) }] }]

/-- A file with this module, and one that can be woven. -/
def farFiles : FileSystem where
  entries :=
    [(⟨false, ["far.json"]⟩, .file (Encoding.encode farModule .json).toUTF8),
      (⟨false, ["b.wil"]⟩, .file "module b".toUTF8)]

end Sample

private theorem stops_of_overflow {text : String} {m m' : Module} (hskip : skipReason? manifest? fs path = none)
    (htext : textAt fs path = .ok text) (hdecode : (Encoding.ofPath path).decode text = .ok m)
    (hweave : m.weave settings = (.error .overflow, m')) : Stops settings manifest? fs path := by
  have hwoven : (textAt fs path >>= weaveText settings path) = .error (.weaving .overflow) := by
    rw [htext]
    show weaveText settings path text = _
    rw [weaveText, hdecode]
    dsimp only
    rw [hweave]
  rw [Stops, verdict_of_not_skipped hskip, hwoven]
  rfl

namespace Sample

private theorem apart_farFiles : Apart farFiles ["b.wil", "far.json"] := by
  have hother : ¬ farFiles.SameFile "b.wil" "far.json" := by
    rintro ⟨-, -, hlocate⟩
    have hne : (farFiles.locate "b.wil").toOption ≠ (farFiles.locate "far.json").toOption := by decide +kernel
    exact hne (congrArg Except.toOption hlocate)
  simpa [Apart] using hother

private theorem stops_farFiles : Stops {} none farFiles "far.json" := by
  have htext : textAt farFiles "far.json" = .ok (Encoding.encode farModule .json) := textAt_eq_ok_iff.2 rfl
  have hencoding : Encoding.ofPath "far.json" = .json := by decide +kernel
  have hdecode : (Encoding.ofPath "far.json").decode (Encoding.encode farModule .json) = .ok farModule.assignIds := by
    rw [hencoding]
    exact Encoding.decode_encode_json farModule
  have hoverflow : (farModule.assignIds.weave {}).1 = .error .overflow := by decide +kernel
  exact stops_of_overflow rfl htext hdecode (Prod.ext hoverflow rfl)

end Sample

/-- That the paths differ is not enough. A file that is skipped under one name is woven under another. Two names that
are no text can have one entry in the manifest, where the later job leaves its digest. A file that becomes smaller
makes room for another, which is cut off if it comes first. And a job at which the program stops keeps the other jobs
from ending. -/
theorem jobs_interfere :
    ((inPlace {} (some Sample.skipping) Sample.files ["a.wil", "./a.wil"]).bind (·.outcomes.head?) =
        some ⟨.inPlace "a.wil", .skipped .inactive⟩ ∧
      (inPlace {} (some Sample.skipping) Sample.files ["a.wil"]).bind (·.files.read "a.wil" |>.toOption) ≠
        (inPlace {} (some Sample.skipping) Sample.files ["a.wil", "./a.wil"]).bind
          (·.files.read "a.wil" |>.toOption)) ∧
    (inPlace {} (some {}) Sample.garbledFiles [Sample.garbled, Sample.garbled']).map (·.manifest?) ≠
      (inPlace {} (some {}) Sample.garbledFiles [Sample.garbled', Sample.garbled]).map (·.manifest?) ∧
    ((inPlace {} none (Sample.crowded .cutOff) ["a.wil", "b.wil"]).map (·.outcomes.map (·.isFailure)) = some [false, false] ∧
      (inPlace {} none (Sample.crowded .cutOff) ["b.wil", "a.wil"]).map (·.outcomes.map (·.isFailure)) = some [true, false] ∧
      (inPlace {} none (Sample.crowded .cutOff) ["b.wil", "a.wil"]).bind (·.files.read "b.wil" |>.toOption) ≠
        ((Sample.crowded .cutOff).read "b.wil").toOption) ∧
    ((inPlace {} none Sample.farFiles ["b.wil"]).map (·.outcomes.map (·.isFailure)) = some [false] ∧
      inPlace {} none Sample.farFiles ["b.wil", "far.json"] = none) := by
  have hstops : inPlace {} none Sample.farFiles ["b.wil", "far.json"] = none :=
    (inPlace_eq_none_iff (fun _ _ _ _ _ => rfl) Sample.apart_farFiles).2
      ⟨"far.json", List.mem_cons_of_mem _ List.mem_cons_self, Sample.stops_farFiles⟩
  refine ⟨⟨?_, ?_⟩, ?_, ⟨?_, ?_, ?_⟩, ?_, hstops⟩ <;>
    decide +kernel

end Batch

end AdviceWeaving
