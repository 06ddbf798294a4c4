/-!
# Diagnostics

A diagnostic is a note about a place of a module: a type, or a member of a type. An error tells that something was not
done; a warning tells of something that was done but may surprise.
-/

namespace AdviceWeaving

/-- The codes of the diagnostics. A code never changes its meaning. -/
inductive Code
  /-- The return value is bound on entry. -/
  | e0101
  /-- Advice has more than two parameters. -/
  | e0102
  /-- The return value has another type than the parameter. -/
  | e0103
  /-- A parameter of advice has no marker. -/
  | e0104
  /-- The return value is bound twice. -/
  | e0105
  /-- The method name is bound to a parameter that is no string. -/
  | e0106
  /-- A marked method has no body. -/
  | w0201
  /-- A marker of advice stands outside a marker type. -/
  | w0202
  /-- A marker type has no targets. -/
  | w0203
  /-- A static target reads the handle of an instance. -/
  | w0204
  /-- A body fails verification. -/
  | e0300
  deriving DecidableEq, Inhabited

/-- All codes. -/
def Code.all : List Code :=
  [e0101, e0102, e0103, e0104, e0105, e0106, w0201, w0202, w0203, w0204, e0300]

/-- The spelling of a code. -/
def Code.text : Code → String
  | e0101 => "E0101"
  | e0102 => "E0102"
  | e0103 => "E0103"
  | e0104 => "E0104"
  | e0105 => "E0105"
  | e0106 => "E0106"
  | w0201 => "W0201"
  | w0202 => "W0202"
  | w0203 => "W0203"
  | w0204 => "W0204"
  | e0300 => "E0300"

/-- The code with the given spelling. -/
def Code.ofText? (text : String) : Option Code :=
  all.find? (·.text = text)

/-- How serious a diagnostic is. -/
inductive Level
  | error
  | warning
  deriving DecidableEq, Inhabited

/-- The spelling of a level. -/
def Level.text : Level → String
  | error => "error"
  | warning => "warning"

/-- A type, or one of its members. -/
structure Site where
  type : String
  member : Option String := none
  deriving DecidableEq, Inhabited

/-- The site of a member. -/
def Site.ofMember (type member : String) : Site :=
  ⟨type, some member⟩

/-- The spelling of a site. -/
def Site.text (s : Site) : String :=
  match s.member with
  | some member => s!"{s.type}::{member}"
  | none => s.type

/-- A further site that a diagnostic points at, and why. -/
structure RelatedSite where
  site : Site
  label : String
  deriving DecidableEq, Inhabited

/-- A note about a site. -/
structure Diagnostic where
  code : Option Code := none
  level : Level
  site : Site
  message : String
  hint : Option String := none
  related : List RelatedSite := []
  deriving DecidableEq, Inhabited

namespace Diagnostic

/-- The diagnostic tells of an error. -/
def isError (d : Diagnostic) : Bool :=
  d.level = .error

/-- A diagnostic as it is shown: a line for it, one for each related site, and one for the hint. -/
def text (d : Diagnostic) : String :=
  let code := d.code.elim "" fun c => s!"[{c.text}]"
  s!"{d.level.text}{code}: {d.site.text}: {d.message}" ++
    String.join (d.related.map fun r => s!"\n  note: {r.site.text}: {r.label}") ++
    d.hint.elim "" ("\n  hint: " ++ ·)

end Diagnostic

/-- Some diagnostic tells of an error. -/
def hasErrors (diagnostics : List Diagnostic) : Bool :=
  diagnostics.any (·.isError)

end AdviceWeaving
