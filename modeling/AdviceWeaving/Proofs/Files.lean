import AdviceWeaving.FileSystem

/-!
# Files that get another content

To write to a file that is there is to overwrite it with what the place takes of the content, if it takes anything
(`FileSystem.write_eq_put`). That leaves the tree of directories and files as it is, so that all paths lead where they
led (`FileSystem.SameTree.locate_eq`), and it is seen only through those paths that lead to the same file
(`FileSystem.read_overwrite_of_not_sameFile`). Two files can be overwritten in either order
(`FileSystem.overwrite_comm`). What is written, to a file that is there or to a new one, is read through the same path,
unless that is closed to reading (`FileSystem.read_of_write`).
-/

namespace AdviceWeaving

/-- There is a directory at a place, and no file. -/
def FileEntry.isDirectory : FileEntry → Bool
  | directory => true
  | file _ => false

namespace FileSystem

variable {fs fs' fs'' : FileSystem} {l k : Location} {content content' : ByteArray} {path path' : OsString}

/-! ### The tree -/

/-- Both hold files at the same places, and directories at the same places, and close the same ways to them. -/
structure SameTree (fs fs' : FileSystem) : Prop where
  kind_eq : ∀ l, (FileSystem.entry? fs' l).map (·.isDirectory) = (FileSystem.entry? fs l).map (·.isDirectory)
  readFault?_eq : fs'.readFault? = fs.readFault?
  writeFault?_eq : fs'.writeFault? = fs.writeFault?

theorem SameTree.refl (fs : FileSystem) : fs.SameTree fs := ⟨fun _ => rfl, rfl, rfl⟩

theorem SameTree.trans (h : fs.SameTree fs') (h' : fs'.SameTree fs'') : fs.SameTree fs'' :=
  ⟨fun l => (h'.kind_eq l).trans (h.kind_eq l), h'.readFault?_eq.trans h.readFault?_eq,
    h'.writeFault?_eq.trans h.writeFault?_eq⟩

private theorem SameTree.follow_eq (h : fs.SameTree fs') (names : List OsString) (l : Location) :
    fs'.follow names l = fs.follow names l := by
  induction names generalizing l with
  | nil => rfl
  | cons name names ih =>
    have hl := h.kind_eq l
    unfold follow
    cases he : fs.entry? l with
    | none =>
      rw [he, Option.map_none, Option.map_eq_none_iff] at hl
      rw [hl]
    | some e =>
      rw [he, Option.map_some, Option.map_eq_some_iff] at hl
      obtain ⟨e', he', hkind⟩ := hl
      rw [he']
      cases e <;> cases e' <;> simp only [FileEntry.isDirectory] at hkind
      · rfl
      · cases hkind
      · cases hkind
      · exact ih _

theorem SameTree.locate_eq (h : fs.SameTree fs') (path : OsString) : fs'.locate path = fs.locate path := by
  unfold locate
  split
  · rfl
  · exact h.follow_eq _ _

/-! ### Reading -/

/-- A file is read through a path that leads to it, unless it is closed. -/
theorem read_eq_ok_iff : fs.read path = .ok content ↔
    ∃ l, fs.locate path = .ok l ∧ fs.entry? l = some (.file content) ∧ needsDirectory path = false ∧
      fs.readFault? l = none := by
  unfold read
  cases hlocate : fs.locate path with
  | error e => simp [bind, Except.bind]
  | ok l =>
    simp only [bind, Except.bind, Except.ok.injEq, exists_eq_left']
    cases he : fs.entry? l with
    | none => simp
    | some e =>
      cases e with
      | directory => simp
      | file content' =>
        cases needsDirectory path <;> cases fs.readFault? l <;> simp

/-- What is read through a path depends only on what stands at the place that it leads to. -/
private theorem read_congr (h : fs.SameTree fs')
    (hentry : ∀ l, fs.locate path = .ok l → FileSystem.entry? fs' l = fs.entry? l) :
    fs'.read path = fs.read path := by
  unfold read
  rw [h.locate_eq, h.readFault?_eq]
  cases hlocate : fs.locate path with
  | error e => rfl
  | ok l =>
    simp only [bind, Except.bind]
    rw [hentry l hlocate]

/-- Two paths through which one file can be read. -/
def SameFile (fs : FileSystem) (path path' : OsString) : Prop :=
  (∃ content, fs.read path = .ok content) ∧ (∃ content, fs.read path' = .ok content) ∧
    fs.locate path = fs.locate path'

theorem SameFile.refl (h : fs.read path = .ok content) : fs.SameFile path path :=
  ⟨⟨content, h⟩, ⟨content, h⟩, rfl⟩

theorem SameFile.symm (h : fs.SameFile path path') : fs.SameFile path' path :=
  ⟨h.2.1, h.1, h.2.2.symm⟩

theorem SameFile.trans {path'' : OsString} (h : fs.SameFile path path') (h' : fs.SameFile path' path'') :
    fs.SameFile path path'' :=
  ⟨h.1, h'.2.1, h.2.2.trans h'.2.2⟩

/-- In a tree of the same files and directories the same paths lead to one file. -/
theorem SameTree.sameFile (h : fs.SameTree fs') (hsame : fs'.SameFile path path') : fs.SameFile path path' := by
  have hreadable {p : OsString} (hread : ∃ content, fs'.read p = .ok content) :
      ∃ content, fs.read p = .ok content := by
    obtain ⟨content, hread⟩ := hread
    obtain ⟨l, hl, he, hpath, hfault⟩ := read_eq_ok_iff.1 hread
    have hkind := h.kind_eq l
    rw [he, Option.map_some] at hkind
    obtain ⟨e, he', hkind⟩ := Option.map_eq_some_iff.1 hkind.symm
    cases e with
    | directory => cases hkind
    | file content' =>
      exact ⟨content', read_eq_ok_iff.2 ⟨l, (h.locate_eq p).symm.trans hl, he', hpath, h.readFault?_eq ▸ hfault⟩⟩
  obtain ⟨hread, hread', hlocate⟩ := hsame
  rw [h.locate_eq, h.locate_eq] at hlocate
  exact ⟨hreadable hread, hreadable hread', hlocate⟩

/-! ### Overwriting -/

/-- The file at a place gets another content; if there is none, nothing happens. -/
def overwrite (fs : FileSystem) (l : Location) (content : ByteArray) : FileSystem :=
  { fs with entries := fs.entries.map fun old => if old.1 = l then (l, .file content) else old }

/-- The file at a place holds something else then, or stays as it is. -/
def put (fs : FileSystem) : Option (Location × ByteArray) → FileSystem
  | none => fs
  | some (l, content) => fs.overwrite l content

private theorem lookup_overwrite (entries : List (Location × FileEntry)) (l k : Location) (e : FileEntry) :
    (entries.map fun old => if old.1 = l then (l, e) else old).lookup k =
      if k = l then (entries.lookup k).map fun _ => e else entries.lookup k := by
  induction entries with
  | nil => simp
  | cons old entries ih =>
    obtain ⟨l', e'⟩ := old
    rw [List.map_cons]
    by_cases hk : k = l'
    · subst hk
      by_cases hl : k = l <;> simp [hl]
    · have hne : (k == l') = false := beq_eq_false_iff_ne.2 hk
      by_cases hl : l' = l
      · simp only [hl, if_true] at hne ⊢
        simp only [List.lookup_cons, hne, ih]
      · simp only [hl, if_false, List.lookup_cons, hne, ih]

private theorem lookup_eq_of_file (h : fs.entry? l = some (.file content)) :
    l.names.all (· = .above) = false ∧ fs.entries.lookup l = some (.file content) := by
  unfold entry? at h
  split at h
  · cases h
  · next hall => exact ⟨by simpa using hall, h⟩

private theorem entry?_overwrite_self (h : fs.entry? l = some (.file content)) :
    FileSystem.entry? (fs.overwrite l content') l = some (.file content') := by
  obtain ⟨hall, hlookup⟩ := lookup_eq_of_file h
  unfold FileSystem.entry?
  rw [if_neg (by rw [hall]; exact Bool.false_ne_true), overwrite, lookup_overwrite, if_pos rfl, hlookup]
  rfl

private theorem entry?_overwrite_of_ne (h : k ≠ l) : FileSystem.entry? (fs.overwrite l content) k = fs.entry? k := by
  unfold FileSystem.entry?
  rw [overwrite, lookup_overwrite, if_neg h]

theorem sameTree_overwrite (h : fs.entry? l = some (.file content)) (content' : ByteArray) :
    fs.SameTree (fs.overwrite l content') := by
  refine ⟨fun k => ?_, rfl, rfl⟩
  by_cases hk : k = l
  · rw [hk, entry?_overwrite_self h, h]
    rfl
  · rw [entry?_overwrite_of_ne hk]

theorem overwrite_comm (fs : FileSystem) (h : k ≠ l) (content content' : ByteArray) :
    (fs.overwrite k content).overwrite l content' = (fs.overwrite l content').overwrite k content := by
  simp only [overwrite, List.map_map, FileSystem.mk.injEq, and_true]
  refine List.map_congr_left fun old _ => ?_
  simp only [Function.comp_apply]
  by_cases hk : old.1 = k
  · have hl : old.1 ≠ l := fun hl => h (hk.symm.trans hl)
    simp [hk, h]
  · by_cases hl : old.1 = l
    · simp [hl, Ne.symm h]
    · simp [hk, hl]

/-- What is written to a place where there is no directory is what the place takes of it. -/
private theorem write_eq_set (hl : fs.locate path = .ok l) (hentry : fs.entry? l ≠ some .directory)
    (hpath : needsDirectory path = false) :
    fs.write path content = ((fs.accept l content).1, (fs.accept l content).2.elim fs (fs.set l <| .file ·)) := by
  unfold write
  cases he : fs.entry? l with
  | none => simp [hl, he, hpath]
  | some e =>
    cases e with
    | directory => exact absurd he hentry
    | file _ => simp [hl, he, hpath]

/-- To write to a file that can be read is to overwrite it with what its place takes, if that is anything. -/
theorem write_eq_put (h : fs.read path = .ok content) (hl : fs.locate path = .ok l) (content' : ByteArray) :
    fs.write path content' = ((fs.accept l content').1, fs.put ((fs.accept l content').2.map (l, ·))) := by
  obtain ⟨l', hl', he, hpath, -⟩ := read_eq_ok_iff.1 h
  cases hl.symm.trans hl'
  obtain ⟨-, hlookup⟩ := lookup_eq_of_file he
  have hentry : fs.entry? l ≠ some .directory := by
    rw [he]
    exact fun heq => nomatch heq
  rw [write_eq_set hl hentry hpath]
  cases (fs.accept l content').2 with
  | none => rfl
  | some written =>
    simp only [Option.elim_some, set, hlookup, Option.isSome_some, if_true]
    rfl

theorem read_overwrite_self (h : fs.read path = .ok content) (hl : fs.locate path = .ok l) (content' : ByteArray) :
    (fs.overwrite l content').read path = .ok content' := by
  obtain ⟨l', hl', he, hpath, hfault⟩ := read_eq_ok_iff.1 h
  cases hl.symm.trans hl'
  exact read_eq_ok_iff.2
    ⟨l, ((sameTree_overwrite he content').locate_eq path).trans hl, entry?_overwrite_self he, hpath, hfault⟩

/-- Other files are read as before, and what could not be read still cannot. -/
theorem read_overwrite_of_not_sameFile (h : fs.read path = .ok content) (hl : fs.locate path = .ok l)
    (hother : ¬ fs.SameFile path path') (content' : ByteArray) :
    (fs.overwrite l content').read path' = fs.read path' := by
  obtain ⟨l', hl', he, -, hfault⟩ := read_eq_ok_iff.1 h
  cases hl.symm.trans hl'
  have htree := sameTree_overwrite he content'
  by_cases hlocate : fs.locate path' = .ok l
  · -- the path leads to the file, but through it the file cannot be read
    have hunreadable {content' : ByteArray} : fs.read path' ≠ .ok content' := fun hread =>
      hother ⟨⟨content, h⟩, ⟨content', hread⟩, hl.trans hlocate.symm⟩
    have hpath : needsDirectory path' = true := by
      cases hpath : needsDirectory path' with
      | true => rfl
      | false => exact absurd (read_eq_ok_iff.2 ⟨l, hlocate, he, hpath, hfault⟩) hunreadable
    have hlocate' := (htree.locate_eq path').trans hlocate
    simp only [read, hlocate, hlocate', bind, Except.bind, he, entry?_overwrite_self he, hpath, if_true]
  · refine read_congr htree fun k hk => entry?_overwrite_of_ne fun hkl => hlocate ?_
    rw [hk, hkl]

/-- To put into a file what it holds already is not seen. -/
theorem read_overwrite_of_read (h : fs.read path = .ok content) (hl : fs.locate path = .ok l)
    (path' : OsString) : (fs.overwrite l content).read path' = fs.read path' := by
  obtain ⟨l', hl', he, -⟩ := read_eq_ok_iff.1 h
  cases hl.symm.trans hl'
  refine read_congr (sameTree_overwrite he content) fun k _ => ?_
  by_cases hk : k = l
  · rw [hk, entry?_overwrite_self he, he]
  · exact entry?_overwrite_of_ne hk

/-! ### What a place takes -/

/-- Whether a content can be written to a place depends on nothing but what the place holds. -/
def WritesApart (fs : FileSystem) : Prop :=
  ∀ (entries entries' : List (Location × FileEntry)) (l : Location) (content : ByteArray),
    entries.lookup l = entries'.lookup l → fs.writeFault? entries l content = fs.writeFault? entries' l content

/-- A path leads to the same file in both, which holds the same and is as open to writing. -/
structure Unchanged (fs fs' : FileSystem) (path : OsString) : Prop where
  locate_eq : fs'.locate path = fs.locate path
  read_eq : fs'.read path = fs.read path
  writeFault?_eq : fs'.writeFault? = fs.writeFault?

theorem SameTree.unchanged (htree : fs.SameTree fs') (hread : fs'.read path = fs.read path) : fs.Unchanged fs' path :=
  ⟨htree.locate_eq path, hread, htree.writeFault?_eq⟩

/-- A file that is as it was takes what it took. -/
theorem WritesApart.accept_eq (hapart : fs.WritesApart) (hsame : fs.Unchanged fs' path)
    (h : fs.read path = .ok content) (hl : fs.locate path = .ok l) (content' : ByteArray) :
    fs'.accept l content' = fs.accept l content' := by
  obtain ⟨k, hk, he, -⟩ := read_eq_ok_iff.1 h
  cases hl.symm.trans hk
  obtain ⟨k', hk', he', -⟩ := read_eq_ok_iff.1 (hsame.read_eq.trans h)
  cases (hsame.locate_eq.trans hl).symm.trans hk'
  have hlookup : fs'.entries.lookup l = fs.entries.lookup l :=
    (lookup_eq_of_file he').2.trans (lookup_eq_of_file he).2.symm
  rw [accept, accept, hsame.writeFault?_eq, hapart _ _ l content' hlookup]

/-- The place takes a content as a whole, or the write fails and it takes nothing or a part of it. -/
theorem accept_cases (fs : FileSystem) (l : Location) (content : ByteArray) :
    fs.accept l content = (.ok (), some content) ∨
    (∃ e, fs.accept l content = (.error e, none)) ∨
    ∃ length e, fs.writeFault? fs.entries l content = some (.cutOff length e) ∧
      fs.accept l content = (.error e, some (content.extract 0 length)) := by
  unfold accept
  split
  · exact .inl rfl
  · next e _ => exact .inr (.inl ⟨e, rfl⟩)
  · next length e hfault => exact .inr (.inr ⟨length, e, hfault, rfl⟩)

theorem accept_of_ok (h : (fs.accept l content).1 = .ok ()) : fs.accept l content = (.ok (), some content) := by
  rcases fs.accept_cases l content with haccept | ⟨e, haccept⟩ | ⟨length, e, -, haccept⟩
  · exact haccept
  · rw [haccept] at h
    cases h
  · rw [haccept] at h
    cases h

/-! ### Writing -/

/-- Directories that stay where they are lead on as they did. -/
private theorem follow_of_directories
    (h : ∀ k, fs.entry? k = some .directory → FileSystem.entry? fs' k = some .directory)
    {names : List OsString} {k : Location} (hfollow : fs.follow names k = .ok l) : fs'.follow names k = .ok l := by
  induction names generalizing k with
  | nil => exact hfollow
  | cons name names ih =>
    unfold follow at hfollow
    split at hfollow
    · cases hfollow
    · cases hfollow
    · next hk =>
      rw [follow, h k hk]
      exact ih hfollow

private theorem entry?_set (hl : l.names.all (· = .above) = false) (e : FileEntry) (k : Location) :
    FileSystem.entry? (fs.set l e) k = if k = l then some e else fs.entry? k := by
  unfold set
  split
  · next hsome =>
    obtain ⟨old, hold⟩ := Option.isSome_iff_exists.1 hsome
    simp only [FileSystem.entry?, lookup_overwrite]
    by_cases hk : k = l
    · subst hk
      simp [hl, hold]
    · simp [hk]
  · next hnone =>
    rw [Bool.not_eq_true, Option.isSome_eq_false_iff, Option.isNone_iff_eq_none] at hnone
    simp only [FileSystem.entry?, List.lookup_append]
    by_cases hk : k = l
    · subst hk
      simp [hl, hnone]
    · have hne : (k == l) = false := beq_eq_false_iff_ne.2 hk
      simp [hk, List.lookup_cons, hne]

/-- Only where there is no directory can anything be written. -/
private theorem exists_of_write (h : fs.write path content = (.ok (), fs')) :
    ∃ l, fs.locate path = .ok l ∧ fs.entry? l ≠ some .directory ∧ needsDirectory path = false ∧
      fs' = fs.set l (.file content) := by
  have hwrite := h
  unfold write at hwrite
  cases hl : fs.locate path with
  | error e =>
    rw [hl] at hwrite
    cases hwrite
  | ok l =>
    simp only [hl] at hwrite
    have hentry : fs.entry? l ≠ some .directory := by
      intro he
      rw [he] at hwrite
      cases hwrite
    have hpath : needsDirectory path = false := by
      rw [← Bool.not_eq_true]
      intro hpath
      rw [hpath, Bool.or_true] at hwrite
      cases hwrite
    rw [write_eq_set hl hentry hpath] at h
    have haccept := accept_of_ok (congrArg Prod.fst h)
    rw [haccept] at h
    exact ⟨l, rfl, hentry, hpath, (congrArg Prod.snd h).symm⟩

/-- What is written is read, through the path through which it was written, unless the file is closed to reading. -/
theorem read_of_write (h : fs.write path content = (.ok (), fs')) {found : ByteArray}
    (hopen : fs'.read path = .ok found) : fs'.read path = .ok content := by
  obtain ⟨l, hl, hentry, hpath, rfl⟩ := exists_of_write h
  have hall : l.names.all (· = .above) = false := by
    rw [← Bool.not_eq_true]
    exact fun hall => hentry (by rw [FileSystem.entry?, if_pos hall])
  -- the file stands where no directory was
  have hdirectories (k : Location) (hk : fs.entry? k = some .directory) :
      FileSystem.entry? (fs.set l (.file content)) k = some .directory := by
    have hkl : k ≠ l := by
      rintro rfl
      exact hentry hk
    rw [entry?_set hall, if_neg hkl]
    exact hk
  have hlocate : (fs.set l (.file content)).locate path = .ok l := by
    unfold locate at hl ⊢
    split
    · next hempty =>
      rw [if_pos hempty] at hl
      cases hl
    · next hempty =>
      rw [if_neg hempty] at hl
      exact follow_of_directories hdirectories hl
  obtain ⟨k, hk, -, -, hfault⟩ := read_eq_ok_iff.1 hopen
  cases hlocate.symm.trans hk
  exact read_eq_ok_iff.2 ⟨l, hlocate, by rw [entry?_set hall, if_pos rfl], hpath, hfault⟩

end FileSystem

end AdviceWeaving
