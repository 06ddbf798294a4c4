import AdviceWeaving.Json.Decode
import AdviceWeaving.Json.Encode
import AdviceWeaving.ModuleFile

/-!
# Manifests

A manifest remembers for each path the digest of what the weaver wrote there, and whether the path takes part at all.
A file that still has this digest is the weaver's own output and need not be woven again.
-/

namespace AdviceWeaving

/-- What a manifest says about a path. -/
structure ManifestEntry where
  active : Bool := true
  wovenDigest : Option String := none
  deriving DecidableEq, Inhabited

/-- Why a file is not woven. -/
inductive SkipReason
  | inactive
  | unchanged
  deriving DecidableEq, Inhabited

/-- The name of a reason. -/
def SkipReason.text : SkipReason → String
  | inactive => "inactive"
  | unchanged => "unchanged"

/-- A manifest: entries in the order of their paths, one for each path, as the path is shown. -/
@[ext]
structure Manifest where
  entries : List (String × ManifestEntry) := []
  ordered : entries.Pairwise (·.1 < ·.1) := by decide
  deriving DecidableEq, Inhabited

namespace Manifest

/-- What a manifest says about a path. -/
def entry? (m : Manifest) (path : String) : Option ManifestEntry :=
  m.entries.lookup path

/-! ### Entries -/

/-- Put an entry at its place in the order of paths, for an old one of the same path. -/
def insertEntry (path : String) (entry : ManifestEntry) :
    List (String × ManifestEntry) → List (String × ManifestEntry)
  | [] => [(path, entry)]
  | (other, old) :: rest =>
    if path = other then (path, entry) :: rest
    else if path < other then (path, entry) :: (other, old) :: rest
    else (other, old) :: insertEntry path entry rest

section

variable {path : String} {entry : ManifestEntry} {entries : List (String × ManifestEntry)}

theorem mem_insertEntry {e : String × ManifestEntry} (h : e ∈ insertEntry path entry entries) :
    e = (path, entry) ∨ e ∈ entries := by
  induction entries with
  | nil => exact .inl (List.mem_singleton.1 h)
  | cons head rest ih =>
    unfold insertEntry at h
    split at h
    · exact (List.mem_cons.1 h).imp_right (List.mem_cons_of_mem _)
    · split at h
      · exact List.mem_cons.1 h
      · rcases List.mem_cons.1 h with rfl | h
        · exact .inr List.mem_cons_self
        · exact (ih h).imp_right (List.mem_cons_of_mem _)

/-- The entries stay in order. -/
theorem pairwise_insertEntry (h : entries.Pairwise (·.1 < ·.1)) :
    (insertEntry path entry entries).Pairwise (·.1 < ·.1) := by
  induction entries with
  | nil => exact List.pairwise_singleton _ _
  | cons head rest ih =>
    obtain ⟨hhead, hrest⟩ := List.pairwise_cons.1 h
    unfold insertEntry
    split
    · next heq => exact List.pairwise_cons.2 ⟨fun e he => heq ▸ hhead e he, hrest⟩
    · next hne =>
      split
      · next hlt =>
        refine List.pairwise_cons.2 ⟨fun e he => ?_, h⟩
        rcases List.mem_cons.1 he with rfl | he
        · exact hlt
        · exact String.lt_trans hlt (hhead e he)
      · next hge =>
        have hbehind : head.1 < path := String.not_le.1 fun hle => hne (String.le_antisymm hle (String.not_lt.1 hge))
        refine List.pairwise_cons.2 ⟨fun e he => ?_, ih hrest⟩
        rcases mem_insertEntry he with rfl | he
        · exact hbehind
        · exact hhead e he

end

/-- Say something about a path. -/
def insert (m : Manifest) (path : String) (entry : ManifestEntry) : Manifest where
  entries := insertEntry path entry m.entries
  ordered := pairwise_insertEntry m.ordered

/-- The manifest with the given entries; of two for one path the later counts. -/
def ofEntries (entries : List (String × ManifestEntry)) : Manifest :=
  entries.foldl (fun m (path, entry) => m.insert path entry) {}

/-- Why the file at a path, which has the given digest, is not to be woven. -/
def skipReason? (m : Manifest) (path digest : String) : Option SkipReason :=
  match m.entry? path with
  | none => none
  | some entry =>
    if !entry.active then some .inactive
    else if entry.wovenDigest = some digest then some .unchanged
    else none

/-- Remember the digest of what was written to a path. -/
def record (m : Manifest) (path digest : String) : Manifest :=
  m.insert path { (m.entry? path).getD {} with wovenDigest := some digest }

/-! ### JSON -/

/-- An entry in JSON. -/
def entryJson (e : ManifestEntry) : Json :=
  .obj (("active", .bool e.active) :: (e.wovenDigest.map (("woven-sha256", Json.str ·))).toList)

/-- A manifest in JSON. -/
def toJson (m : Manifest) : Json :=
  .obj [("entries", .obj (m.entries.map fun (path, entry) => (path, entryJson entry)))]

/-- A manifest as it is written to a file. -/
def text (m : Manifest) : String :=
  m.toJson.pretty ++ "\n"

/-- The decoder of an entry. -/
def entryDecoder : Decoder ManifestEntry :=
  Decoder.record [Bool, Option String]
    (.withDefault "active" .bool true, .withDefault "woven-sha256" (.optional .string) none, ())
    (fun (active, wovenDigest, ()) => { active, wovenDigest })

/-- The decoder of a manifest. -/
def decoder : Decoder Manifest :=
  Decoder.record [List (String × ManifestEntry)] (.withDefault "entries" (.map entryDecoder) [], ())
    (fun (entries, ()) => ofEntries entries)

/-- The manifest that a text in JSON describes. -/
def ofJson (text : String) : Except DecodeError Manifest :=
  decoder.decode text

/-! ### Files -/

section

variable {m : Type → Type} [Monad m] [MonadFiles m]

/-- The manifest in a file. A file that is not there is an empty manifest. -/
def load (path : OsString) : ExceptT FileFailure m Manifest := do
  match ← ExceptT.lift (readText path).run with
  | .error (.io path e) => if e = .notFound then pure {} else throw (.io path e)
  | .error e => throw e
  | .ok text =>
    match ofJson text with
    | .ok manifest => pure manifest
    | .error e => throw (.source path (.json e))

/-- Put a manifest into a file. -/
def save (manifest : Manifest) (path : OsString) : ExceptT FileFailure m Unit :=
  writeText path manifest.text

end

end Manifest

end AdviceWeaving
