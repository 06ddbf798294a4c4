import AdviceWeaving.OsString

/-!
# Files

`MonadFiles` is what the rest of the library asks of a file system: to read a file and to write one. `FileSystem` is a
file system as a value, a finite tree of directories and files. A path is resolved name by name, as an operating system
does it: `.` stays, `..` goes up, and every name but the last must be a directory.

A file that is there may still be closed to reading or to writing, and a write that has begun may break off. What is
written then is lost in part, since a file is emptied before anything is written to it.
-/

namespace AdviceWeaving

/-- Why a file cannot be read or written. -/
inductive IoError
  | notFound
  | notDirectory
  | isDirectory
  /-- What was read is no text. -/
  | invalidText
  | other (text : String)
  deriving DecidableEq, Inhabited

/-- The message about a file. -/
def IoError.text : IoError → String
  | notFound => "No such file or directory (os error 2)"
  | notDirectory => "Not a directory (os error 20)"
  | isDirectory => "Is a directory (os error 21)"
  | invalidText => "stream did not contain valid UTF-8"
  | other text => text

/-- Access to files by their paths. -/
class MonadFiles (m : Type → Type) where
  read : OsString → m (Except IoError ByteArray)
  write : OsString → ByteArray → m (Except IoError Unit)

instance {m : Type → Type} [Monad m] [MonadFiles m] : MonadFiles (OptionT m) where
  read path := OptionT.lift (MonadFiles.read path)
  write path content := OptionT.lift (MonadFiles.write path content)

/-! ### Paths -/

/-- The name under which a directory knows itself. -/
def OsString.here : OsString := "."

/-- The name under which a directory knows the one above it. -/
def OsString.above : OsString := ".."

/-- The slash between two names. -/
def slashByte : UInt8 := 0x2F

/-- The dot in front of an extension. -/
def dotByte : UInt8 := 0x2E

/-- The pieces of a path between its slashes. -/
def pathPieces (path : OsString) : List OsString :=
  (path.bytes.splitOn slashByte).map OsString.mk

/-- The steps that a path tells to take, one after another. -/
def pathSteps (path : OsString) : List OsString :=
  (pathPieces path).filter (!·.isEmpty)

/-- The names in a path: its steps, but for those that stay where they are. -/
def pathNames (path : OsString) : List OsString :=
  (pathSteps path).filter (· ≠ .here)

/-- What stands behind the last dot of a file's name, unless that dot begins the name. -/
def extension? (name : OsString) : Option OsString :=
  if name = .above then
    none
  else
    match name.bytes.reverse.span (· ≠ dotByte) with
    | (ending, _ :: _ :: _) => some ⟨ending.reverse⟩
    | _ => none

/-- The extension of the file that a path names. -/
def pathExtension? (path : OsString) : Option OsString :=
  (pathNames path).getLast?.bind extension?

/-! ### File systems as values -/

/-- A place in a file system: the names that lead there, from the current directory or from the root. Names `..` in front
lead out of the current directory. -/
structure Location where
  isAbsolute : Bool
  names : List OsString
  deriving DecidableEq, Inhabited

namespace Location

/-- The place above. The root is above itself. -/
def up (l : Location) : Location :=
  if l.names.all (· = .above) then
    { l with names := if l.isAbsolute then [] else .above :: l.names }
  else
    { l with names := l.names.dropLast }

/-- Where a step leads. -/
def step (l : Location) (name : OsString) : Location :=
  if name = .here then l else if name = .above then l.up else { l with names := l.names ++ [name] }

end Location

/-- What stands at a place. -/
inductive FileEntry
  | file (content : ByteArray)
  | directory

/-- Why a content is not written to a place. -/
inductive WriteFault
  /-- The file cannot be opened, and stays as it is. -/
  | refused (error : IoError)
  /-- The file is emptied, and only so many bytes are written. -/
  | cutOff (length : Nat) (error : IoError)
  deriving DecidableEq, Inhabited

/-- A file system. The current directory, those above it and the root are always there; of two entries at one place the
first counts. -/
structure FileSystem where
  entries : List (Location × FileEntry) := []
  /-- Why a file cannot be read, though it is there. -/
  readFault? : Location → Option IoError := fun _ => none
  /-- Why a content cannot be written to a place, as things are. -/
  writeFault? : List (Location × FileEntry) → Location → ByteArray → Option WriteFault := fun _ _ _ => none
  deriving Inhabited

namespace FileSystem

/-- What stands at a place, if there is anything. -/
def entry? (fs : FileSystem) (l : Location) : Option FileEntry :=
  if l.names.all (· = .above) then some .directory else fs.entries.lookup l

/-- Put something at a place, and leave everything else as it is. -/
def set (fs : FileSystem) (l : Location) (e : FileEntry) : FileSystem :=
  if (fs.entries.lookup l).isSome then
    { fs with entries := fs.entries.map fun old => if old.1 = l then (l, e) else old }
  else
    { fs with entries := fs.entries ++ [(l, e)] }

/-- Take away what stands at a place. -/
def erase (fs : FileSystem) (l : Location) : FileSystem :=
  { fs with entries := fs.entries.filter (·.1 ≠ l) }

/-- Take steps from a place. Every step starts from a directory. -/
def follow (fs : FileSystem) : List OsString → Location → Except IoError Location
  | [], l => .ok l
  | name :: names, l =>
    match fs.entry? l with
    | none => .error .notFound
    | some (.file _) => .error .notDirectory
    | some .directory => fs.follow names (l.step name)

/-- The place that a path leads to. There need not be anything. -/
def locate (fs : FileSystem) (path : OsString) : Except IoError Location :=
  if path.isEmpty then .error .notFound
  else fs.follow (pathSteps path) ⟨(pathPieces path).head?.any (·.isEmpty), []⟩

/-- A path that ends in a slash can only lead to a directory. -/
def needsDirectory (path : OsString) : Bool :=
  (pathPieces path).getLast?.any (·.isEmpty)

/-- The content of a file. -/
def read (fs : FileSystem) (path : OsString) : Except IoError ByteArray := do
  let l ← fs.locate path
  match fs.entry? l with
  | none => .error .notFound
  | some .directory => .error .isDirectory
  | some (.file content) =>
    if needsDirectory path then .error .notDirectory
    else
      match fs.readFault? l with
      | some e => .error e
      | none => .ok content

/-- What comes of writing a content to a place, and what the file there holds then, unless it stays as it is. -/
def accept (fs : FileSystem) (l : Location) (content : ByteArray) : Except IoError Unit × Option ByteArray :=
  match fs.writeFault? fs.entries l content with
  | none => (.ok (), some content)
  | some (.refused e) => (.error e, none)
  | some (.cutOff length e) => (.error e, some (content.extract 0 length))

/-- Replace the content of a file, or make a new one. -/
def write (fs : FileSystem) (path : OsString) (content : ByteArray) : Except IoError Unit × FileSystem :=
  match fs.locate path with
  | .error e => (.error e, fs)
  | .ok l =>
    if fs.entry? l matches some .directory || needsDirectory path then
      (.error .isDirectory, fs)
    else
      let (result, written?) := fs.accept l content
      (result, written?.elim fs (fs.set l <| .file ·))

end FileSystem

/-- Reading leaves a file system as it is. -/
instance : MonadFiles (StateM FileSystem) where
  read path := fun fs => (fs.read path, fs)
  write path content := fun fs => fs.write path content

end AdviceWeaving
