import AdviceWeaving.Settings

/-!
# Provenance

What a woven module was made from: the digest of its source, the fingerprint of the settings, and the version of the
weaver.
-/

namespace AdviceWeaving

/-- The version of the weaver. -/
def weaverVersion : String := "0.3.0"

/-- What a woven module was made from. -/
structure Provenance where
  sourceDigest : String
  settingsFingerprint : String
  version : String
  deriving DecidableEq, Inhabited

namespace Provenance

/-- The provenance of what these settings make of a source. -/
def of (source : String) (settings : Settings) : Provenance :=
  ⟨sha256Hex source, settings.fingerprint, weaverVersion⟩

/-- A provenance in JSON. -/
def toJson (p : Provenance) : Json :=
  .obj [("source_hash", .str p.sourceDigest), ("settings_fingerprint", .str p.settingsFingerprint),
    ("weaver_version", .str p.version)]

/-- A provenance as it is printed. -/
def text (p : Provenance) : String :=
  p.toJson.pretty ++ "\n"

end Provenance

end AdviceWeaving
