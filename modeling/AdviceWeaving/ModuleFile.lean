import AdviceWeaving.FileSystem
import AdviceWeaving.Json.Decode
import AdviceWeaving.Json.Encode
import AdviceWeaving.Text.Grammar
import AdviceWeaving.Weave

/-!
# Modules in files

A file holds a module as text or in JSON, and its name tells which. `FileFailure` is what can go wrong with a file,
from reading it to weaving its module.
-/

namespace AdviceWeaving

/-! ### Encodings -/

/-- How a module is written down. -/
inductive Encoding
  | text
  | json
  deriving DecidableEq, Inhabited

/-- The name of an encoding. -/
def Encoding.name : Encoding → String
  | text => "text"
  | json => "json"

/-- A letter of the alphabet, as a small letter. -/
def lowerByte (byte : UInt8) : UInt8 :=
  if 0x41 ≤ byte ∧ byte ≤ 0x5A then byte + 0x20 else byte

/-- JSON is told by the extension, in letters of any case; everything else is text. -/
def Encoding.ofPath (path : OsString) : Encoding :=
  match pathExtension? path with
  | some ending => if ⟨ending.bytes.map lowerByte⟩ = OsString.ofString "json" then .json else .text
  | none => .text

/-- Why a source describes no module. -/
inductive SourceError
  | text (complaints : List Complaint)
  | json (error : DecodeError)
  deriving DecidableEq, Inhabited

/-- The module that a source describes. Text must be free of faults. -/
def Encoding.decode (source : String) : Encoding → Except SourceError Module
  | text =>
    match parse source with
    | ⟨some m, []⟩ => .ok m
    | ⟨_, complaints⟩ => .error (.text complaints)
  | json => (Module.ofJson source).mapError .json

/-- Write a module down. -/
def Encoding.encode (m : Module) : Encoding → String
  | text => m.text
  | json => m.toJson.pretty ++ "\n"

/-! ### Failures -/

/-- What goes wrong with a file. -/
inductive FileFailure
  | io (path : OsString) (error : IoError)
  | source (path : OsString) (error : SourceError)
  /-- The module cannot be woven. -/
  | weaving (failure : Failure)
  deriving DecidableEq, Inhabited

/-- A fault of a text, with its place. -/
def Complaint.text (c : Complaint) : String :=
  s!"{c.span.start}..{c.span.stop}: {c.cause.message}"

/-- The message about a text that is not the JSON of what is asked for. -/
def DecodeError.message : DecodeError → String
  | malformed => "malformed JSON"
  | cutOff => "the text ends too early"
  | misfit m => m.message

/-- The message about a source. -/
def SourceError.message : SourceError → String
  | text complaints => "; ".intercalate (complaints.map (·.text))
  | json error => error.message

/-- The message about a failure. -/
def FileFailure.message : FileFailure → String
  | io path error => s!"{path.display}: {error.text}"
  | source path error => s!"{path.display}: {error.message}"
  | weaving failure => failure.message

/-! ### Reading and writing -/

section

variable {m : Type → Type} [Monad m] [MonadFiles m]

/-- The text in a file. -/
def readText (path : OsString) : ExceptT FileFailure m String := do
  match ← (MonadFiles.read path : m (Except IoError ByteArray)) with
  | .error e => throw (.io path e)
  | .ok content =>
    match String.fromUTF8? content with
    | some text => pure text
    | none => throw (.io path .invalidText)

/-- Put a text into a file. -/
def writeText (path : OsString) (text : String) : ExceptT FileFailure m Unit := do
  match ← (MonadFiles.write path text.toUTF8 : m (Except IoError Unit)) with
  | .error e => throw (.io path e)
  | .ok () => pure ()

/-- The module in a file. -/
def readModule (path : OsString) : ExceptT FileFailure m Module := do
  match (Encoding.ofPath path).decode (← readText path) with
  | .ok module => pure module
  | .error e => throw (.source path e)

/-- Put a module into a file, and give the digest of what was written. -/
def writeModule (path : OsString) (module : Module) : ExceptT FileFailure m String := do
  let text := (Encoding.ofPath path).encode module
  writeText path text
  pure (sha256Hex text)

end

end AdviceWeaving
