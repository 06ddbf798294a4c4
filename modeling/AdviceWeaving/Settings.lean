import AdviceWeaving.Advice
import AdviceWeaving.Digest.Sha256
import AdviceWeaving.Json.Basic
import AdviceWeaving.Json.Decoder

/-!
# Settings

What a weaving pass does can be set: the namespace of the markers, where handles are stored, whether the result is
verified, and which visitors take part. Settings are written in JSON; each has a default, and no others are known.
-/

namespace AdviceWeaving

/-- Where the instance on which advice is called is stored. -/
inductive HandleStorage
  /-- In a field of each instance. -/
  | perInstance
  /-- In one field of the type. -/
  | shared
  deriving DecidableEq, Inhabited

/-- The spelling in settings. -/
def HandleStorage.text : HandleStorage → String
  | perInstance => "per-instance"
  | shared => "shared"

/-- The name of the visitor that weaves advice. -/
def injectionWeaverName : String := "injection-weaver"

/-- The name of the visitor that removes stray markers. -/
def orphanSweepName : String := "orphan-sweep"

/-- The settings of a weaving pass. -/
structure Settings where
  markerNamespace : String := "AttributeInjector"
  handleStorage : HandleStorage := .perInstance
  verify : Bool := true
  /-- The visitors that take part, in order. -/
  components : List String := [injectionWeaverName, orphanSweepName]
  deriving DecidableEq, Inhabited

namespace Settings

/-- The markers that the settings name. -/
def markers (s : Settings) : MarkerNames :=
  .ofNamespace s.markerNamespace

/-- The JSON form of settings. -/
def toJson (s : Settings) : Json :=
  .obj [("marker-namespace", .str s.markerNamespace), ("handle-storage", .str s.handleStorage.text),
    ("verify", .bool s.verify), ("components", .arr (s.components.map .str))]

/-- The decoder of settings. -/
def decoder : Decoder Settings :=
  let default : Settings := {}
  Decoder.record [String, HandleStorage, Bool, List String]
    (.withDefault "marker-namespace" .string default.markerNamespace,
      .withDefault "handle-storage" (.oneOf fun
        | "per-instance" => some (.plain .perInstance)
        | "shared" => some (.plain .shared)
        | _ => none) default.handleStorage,
      .withDefault "verify" .bool default.verify,
      .withDefault "components" (.list .string) default.components, ())
    (fun (markerNamespace, handleStorage, verify, components, ()) =>
      { markerNamespace, handleStorage, verify, components })
    true

/-- The settings that a text in JSON describes. -/
def ofJson (text : String) : Except DecodeError Settings :=
  decoder.decode text

/-- The digest of the JSON form, on one line. Equal settings have equal fingerprints. -/
def fingerprint (s : Settings) : String :=
  sha256Hex s.toJson.compact

end Settings

end AdviceWeaving
