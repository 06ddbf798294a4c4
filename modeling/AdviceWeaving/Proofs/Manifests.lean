import AdviceWeaving.Proofs.Jobs
import AdviceWeaving.Proofs.JsonModules
import Mathlib.Data.String.Basic

/-!
# Manifests in files

What is remembered of one path leaves alone what is remembered of others (`Manifest.entry?_record_of_ne`), in either
order (`Manifest.record_comm`). A manifest is read back from its JSON text (`Manifest.ofJson_text`), since its entries
stand in order, and from the file into which it has been put (`Manifest.load_of_save`).
-/

namespace AdviceWeaving

namespace Manifest

/-! ### Entries -/

variable {m : Manifest} {path path' digest digest' : String} {entry entry' : ManifestEntry}
  {entries : List (String × ManifestEntry)}

private theorem lookup_insertEntry_self : (insertEntry path entry entries).lookup path = some entry := by
  induction entries with
  | nil => simp [insertEntry]
  | cons head rest ih => grind [insertEntry]

private theorem lookup_insertEntry_of_ne (h : path' ≠ path) :
    (insertEntry path entry entries).lookup path' = entries.lookup path' := by
  induction entries with
  | nil => grind [insertEntry]
  | cons head rest ih => grind [insertEntry]

/-- Entries for different paths can be put in in either order. -/
private theorem insertEntry_comm (h : path ≠ path') :
    insertEntry path entry (insertEntry path' entry' entries) =
      insertEntry path' entry' (insertEntry path entry entries) := by
  induction entries with
  | nil => grind [insertEntry]
  | cons head rest ih => grind [insertEntry]

theorem entry?_record_self : Manifest.entry? (m.record path digest) path =
    some { (m.entry? path).getD {} with wovenDigest := some digest } :=
  lookup_insertEntry_self

theorem entry?_record_of_ne (h : path' ≠ path) :
    Manifest.entry? (m.record path digest) path' = m.entry? path' :=
  lookup_insertEntry_of_ne h

theorem record_comm (h : path ≠ path') :
    (m.record path digest).record path' digest' = (m.record path' digest').record path digest := by
  rw [record, entry?_record_of_ne h.symm, record, record, entry?_record_of_ne h, record]
  exact Manifest.ext (insertEntry_comm h.symm)

/-! ### The order of the entries -/

/-- An entry behind all others is put at the end. -/
private theorem insertEntry_of_lt (h : ∀ e ∈ entries, e.1 < path) :
    insertEntry path entry entries = entries ++ [(path, entry)] := by
  induction entries with
  | nil => rfl
  | cons head rest ih =>
    have hlt := h head List.mem_cons_self
    rw [insertEntry, if_neg hlt.ne', if_neg hlt.le.not_gt, ih fun e he => h e (List.mem_cons_of_mem _ he)]
    rfl

/-- A manifest is made of its own entries. -/
private theorem ofEntries_entries (m : Manifest) : ofEntries m.entries = m := by
  have hall (back : List (String × ManifestEntry)) (m' : Manifest) (h : (m'.entries ++ back).Pairwise (·.1 < ·.1)) :
      (back.foldl (fun m e => m.insert e.1 e.2) m').entries = m'.entries ++ back := by
    induction back generalizing m' with
    | nil => exact (List.append_nil _).symm
    | cons e back ih =>
      have hlast : ∀ e' ∈ m'.entries, e'.1 < e.1 := fun e' he' =>
        (List.pairwise_append.1 h).2.2 e' he' e List.mem_cons_self
      have hinsert : (m'.insert e.1 e.2).entries = m'.entries ++ [e] := insertEntry_of_lt hlast
      rw [List.foldl_cons, ih _ (by rw [hinsert, List.append_assoc]; exact h), hinsert, List.append_assoc]
      rfl
  exact Manifest.ext (hall m.entries {} m.ordered)

/-! ### JSON -/

private theorem reads_entry (e : ManifestEntry) : entryDecoder.Reads (entryJson e) e := by
  cases hdigest : e.wovenDigest with
  | none =>
    simp only [entryJson, hdigest, Option.map_none, Option.toList_none]
    exact Decoder.reads_record (.member (Decoder.reads_bool e.active) <| .omitted rfl Decoder.written_nil)
      (by decide) (by rw [← hdigest])
  | some digest =>
    simp only [entryJson, hdigest, Option.map_some, Option.toList_some]
    exact Decoder.reads_record (.member (Decoder.reads_bool e.active) <|
      .member (Decoder.reads_optional (by simp [Json.reading]) (Decoder.reads_string digest)) Decoder.written_nil)
      (by decide) (by rw [← hdigest])

private theorem reads_entries (entries : List (String × ManifestEntry)) :
    (Decoder.map entryDecoder).Reads (.obj (entries.map fun (path, entry) => (path, entryJson entry))) entries := by
  show Decoder.entries entryDecoder .direct (Json.entriesReading _) = .ok entries
  induction entries with
  | nil => rfl
  | cons e entries ih =>
    have he : entryDecoder .direct (entryJson e.2).reading = .ok e.2 := reads_entry e.2
    simp only [List.map_cons, Json.entriesReading, Decoder.entries, Json.text_quoted, he, ih, bind, Except.bind, pure,
      Except.pure]

/-- A manifest is read back from its text. -/
theorem ofJson_text (m : Manifest) : ofJson m.text = .ok m := by
  have hreads : decoder.Reads m.toJson m :=
    Decoder.reads_record (.member (reads_entries m.entries) Decoder.written_nil) (by decide) m.ofEntries_entries
  have htrail : Json.Blank "\n".toList := by simp [Json.Blank, Reading.isBlankChar]
  exact Decoder.decode_text hreads Json.isBlank_pretty htrail

/-! ### Files -/

open Batch

variable {fs fs' : FileSystem} {target : OsString}

/-- What has been put into a file is there, if the file can be read at all. -/
private theorem read_of_save (h : perform (m.save target : Filing Unit).run fs = (some (.ok ()), fs'))
    {found : ByteArray} (hopen : fs'.read target = .ok found) : fs'.read target = .ok m.text.toUTF8 := by
  rw [save, perform_writeText] at h
  obtain ⟨hresult, rfl⟩ := Prod.mk.inj h
  rcases hwrite : fs.write target m.text.toUTF8 with ⟨e | _, changed⟩
  · rw [hwrite] at hresult
    cases hresult
  · rw [hwrite] at hopen
    exact FileSystem.read_of_write hwrite hopen

/-- A manifest that has been put into a file is found there, if the file can be read at all. -/
theorem load_of_save (h : perform (m.save target : Filing Unit).run fs = (some (.ok ()), fs')) {found : ByteArray}
    (hopen : fs'.read target = .ok found) : perform (load target : Filing Manifest).run fs' = (some (.ok m), fs') := by
  have htext : textAt fs' target = .ok m.text := textAt_eq_ok_iff.2 (read_of_save h hopen)
  have hread : perform (ExceptT.lift (readText target : Filing String).run : Filing (Except FileFailure String)).run
      fs' = (some (.ok (.ok m.text)), fs') := by
    rw [ExceptT.run_lift, perform_map, perform_readText, htext]
    rfl
  rw [load, perform_run_bind, hread]
  simp only [ofJson_text]
  rfl

end Manifest

end AdviceWeaving
