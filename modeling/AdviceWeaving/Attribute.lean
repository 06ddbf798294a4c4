import AdviceWeaving.Signature

/-!
# Metadata attributes

Attributes are attached to types, members and parameters. A marker is an attribute that the weaver reads and then
removes with `strip`.
-/

namespace AdviceWeaving

/-- A positional argument of an attribute. -/
inductive Argument
  | int (value : Int64)
  | string (value : String)
  /-- A member of an enumeration, by its dotted name. -/
  | member (path : String)
  deriving DecidableEq, Inhabited

/-- An attribute: the name of its type, and its arguments. -/
structure Attribute where
  name : String
  args : List Argument := []
  deriving DecidableEq, Inhabited

/-- Some attribute has the given name. -/
def hasAttribute (attributes : List Attribute) (name : String) : Bool :=
  attributes.any (·.name = name)

/-- The attributes that do not have the given name, in order. -/
def strip (attributes : List Attribute) (name : String) : List Attribute :=
  attributes.filter (·.name ≠ name)

/-- How many attributes have the given name. -/
def countAttribute (attributes : List Attribute) (name : String) : Nat :=
  attributes.countP (·.name = name)

end AdviceWeaving
