import AdviceWeaving.Json.Reading
import AdviceWeaving.Text.Quoted

/-!
# Values from JSON

A `Decoder` takes a value of some type from a `Reading`. It goes through the reading in the order of the text, so the
first thing that is wrong is what it reports: a fault of the text, or a value that does not fit.

A value may have to be put aside before its type is known. It is then read to its end first (`Reading.settle`), and
decoded as `DecodeSource.settled`; a few misfits count as faults of the text only when the text is decoded directly.
-/

namespace AdviceWeaving

/-! ### Errors -/

/-- What a value is, as far as messages tell. -/
inductive Kind
  | null
  | bool (value : Bool)
  | number (value : Number)
  | string (value : String)
  | sequence
  | map
  /-- The name of an alternative, without the value that the alternative holds. -/
  | plainVariant
  deriving DecidableEq, Inhabited

/-- How a kind is told. -/
def Kind.text : Kind → String
  | null => "null"
  | bool value => s!"boolean `{value}`"
  | number (.int value) => s!"integer `{value}`"
  | number value => s!"floating point `{value.text}`"
  | string value => "string " ++ showQuoted value.toList
  | sequence => "sequence"
  | map => "map"
  | plainVariant => "unit variant"

/-- Why a value that is JSON does not fit. -/
inductive Misfit
  | wrongType (kind : Kind)
  | wrongValue (kind : Kind)
  | wrongLength (length : Nat)
  | missingField (key : String)
  | unknownField (key : String)
  | duplicateField (key : String)
  | unknownVariant (name : String)
  deriving DecidableEq, Inhabited

/-- The message about a value that does not fit. -/
def Misfit.message : Misfit → String
  | wrongType kind => "invalid type: " ++ kind.text
  | wrongValue kind => "invalid value: " ++ kind.text
  | wrongLength length => s!"invalid length {length}"
  | missingField key => s!"missing field `{key}`"
  | unknownField key => s!"unknown field `{key}`"
  | duplicateField key => s!"duplicate field `{key}`"
  | unknownVariant name => s!"unknown variant `{name}`"

/-- Why a text gives no value. -/
inductive DecodeError
  /-- The text is no JSON. -/
  | malformed
  /-- The text ends too early. -/
  | cutOff
  | misfit (misfit : Misfit)
  deriving DecidableEq, Inhabited

/-- A value of the given kind stands where another type is asked for. -/
def DecodeError.wrongType (kind : Kind) : DecodeError :=
  .misfit (.wrongType kind)

/-- What a fault means to a decoder that asks for the value. -/
def JsonFault.error : JsonFault → DecodeError
  | absent => .cutOff
  | cutOff => .cutOff
  | numberCutOff => .cutOff
  | malformed => .malformed

/-! ### Strings and numbers -/

/-- The text of the parts of a string. An escape that names the first half of a pair must be followed by one that names
the second half. -/
def Quoted.chars (fault : Option JsonFault) : List Letter → Except DecodeError (List Char)
  | [] =>
    match fault with
    | none => .ok []
    | some fault => .error fault.error
  | .char c :: letters => (chars fault letters).map (c :: ·)
  | [.unit high] =>
    if 0xD800 ≤ high ∧ high < 0xDC00 then
      .error ((fault.map JsonFault.error).getD .malformed)
    else if 0xDC00 ≤ high ∧ high < 0xE000 then
      .error .malformed
    else
      match fault with
      | none => .ok [Char.ofNat high]
      | some fault => .error fault.error
  | .unit high :: .unit low :: letters =>
    if 0xD800 ≤ high ∧ high < 0xDC00 then
      if 0xDC00 ≤ low ∧ low < 0xE000 then
        (chars fault letters).map (Char.ofNat (0x10000 + (high - 0xD800) * 0x400 + (low - 0xDC00)) :: ·)
      else
        .error .malformed
    else if 0xDC00 ≤ high ∧ high < 0xE000 then
      .error .malformed
    else
      (chars fault (.unit low :: letters)).map (Char.ofNat high :: ·)
  | .unit unit :: .char c :: letters =>
    if 0xD800 ≤ unit ∧ unit < 0xE000 then .error .malformed
    else (chars fault (.char c :: letters)).map (Char.ofNat unit :: ·)

/-- The text of a string. -/
def Quoted.text (q : Quoted) : Except DecodeError String :=
  (Quoted.chars q.fault q.letters).map String.ofList

/-- The value of a number. -/
def Numeral.decode (n : Numeral) : Except DecodeError Number :=
  match n.value? with
  | some value => .ok value
  | none => .error .malformed

namespace Reading

/-- The error of a decoder that asks for another type than the value has. -/
def mismatch : Reading → DecodeError
  | .broken fault => fault.error
  | .null => .wrongType .null
  | .bool value => .wrongType (.bool value)
  | .number numeral =>
    match numeral.decode with
    | .ok value => .wrongType (.number value)
    | .error e => e
  | .string text =>
    match text.text with
    | .ok value => .wrongType (.string value)
    | .error e => e
  | .array _ => .wrongType .sequence
  | .object _ => .wrongType .map

/-! ### Values that no one asks for -/

/-- What a fault means where the value is passed over. -/
def faultPassed : JsonFault → DecodeError
  | .numberCutOff => .malformed
  | fault => fault.error

mutual

/-- Pass over a value: it must be JSON, but its strings and numbers need no meaning. -/
def skip : Reading → Except DecodeError Unit
  | .broken fault => .error (faultPassed fault)
  | .null => .ok ()
  | .bool _ => .ok ()
  | .number _ => .ok ()
  | .string text => skipString text
  | .array items => skipItems items
  | .object entries => skipEntries entries

/-- Pass over a string. -/
def skipString (text : Quoted) : Except DecodeError Unit :=
  match text.fault with
  | none => .ok ()
  | some fault => .error fault.error

/-- Pass over items. -/
def skipItems : Items → Except DecodeError Unit
  | .done => .ok ()
  | .broken fault => .error fault.error
  | .item value rest => do skip value; skipItems rest

/-- Pass over entries. -/
def skipEntries : Entries → Except DecodeError Unit
  | .done => .ok ()
  | .broken fault => .error fault.error
  | .dangling fault => .error fault.error
  | .entry key value rest => do skipString key; skip value; skipEntries rest

end

mutual

/-- Read a value to its end before its type is known: its strings must be text and its numbers must have a value. The
value may nest fewer than `room` arrays and objects. -/
def settle (room : Nat) : Reading → Except DecodeError Unit
  | .broken fault => .error fault.error
  | .null => .ok ()
  | .bool _ => .ok ()
  | .number numeral => do discard numeral.decode
  | .string text => do discard text.text
  | .array items => if room ≤ 1 then .error .malformed else settleItems (room - 1) items
  | .object entries => if room ≤ 1 then .error .malformed else settleEntries (room - 1) entries

/-- Read items to their end. -/
def settleItems (room : Nat) : Items → Except DecodeError Unit
  | .done => .ok ()
  | .broken fault => .error fault.error
  | .item value rest => do settle room value; settleItems room rest

/-- Read entries to their end. -/
def settleEntries (room : Nat) : Entries → Except DecodeError Unit
  | .done => .ok ()
  | .broken fault => .error fault.error
  | .dangling fault => .error fault.error
  | .entry key value rest => do discard key.text; settle room value; settleEntries room rest

end

end Reading

/-! ### Decoders -/

/-- Where a value comes from: from the text, or put aside after it was read to its end. -/
inductive DecodeSource
  | direct
  | settled
  deriving DecidableEq, Inhabited

/-- A way to take a value from a reading. -/
def Decoder (α : Type) : Type :=
  DecodeSource → Reading → Except DecodeError α

namespace Decoder

/-- A string. -/
def string : Decoder String
  | _, .string text => text.text
  | _, r => .error r.mismatch

/-- A truth value. -/
def bool : Decoder Bool
  | _, .bool value => .ok value
  | _, r => .error r.mismatch

/-- Nothing but null. -/
def null : Decoder Unit
  | _, .null => .ok ()
  | _, r => .error r.mismatch

/-- An integer that `convert` accepts. -/
def integer {α : Type} (convert : Int → Option α) : Decoder α
  | _, .number numeral => do
    match ← numeral.decode with
    | .int value =>
      match convert value with
      | some a => .ok a
      | none => .error (.misfit (.wrongValue (.number (.int value))))
    | value => .error (.wrongType (.number value))
  | _, r => .error r.mismatch

/-- Null, or a value. -/
def optional {α : Type} (d : Decoder α) : Decoder (Option α)
  | _, .null => .ok none
  | source, r => some <$> d source r

/-- The items of an array. -/
def items {α : Type} (d : Decoder α) (source : DecodeSource) : Items → Except DecodeError (List α)
  | .done => .ok []
  | .broken fault => .error fault.error
  | .item value rest => do return (← d source value) :: (← items d source rest)

/-- An array of values. -/
def list {α : Type} (d : Decoder α) : Decoder (List α)
  | source, .array xs => items d source xs
  | _, r => .error r.mismatch

/-- The entries of an object. -/
def entries {α : Type} (d : Decoder α) (source : DecodeSource) : Entries → Except DecodeError (List (String × α))
  | .done => .ok []
  | .broken fault => .error fault.error
  | .dangling fault => .error fault.error
  | .entry key value rest => do return (← key.text, ← d source value) :: (← entries d source rest)

/-- An object with keys of any name. -/
def map {α : Type} (d : Decoder α) : Decoder (List (String × α))
  | source, .object es => entries d source es
  | _, r => .error r.mismatch

/-! ### Alternatives -/

/-- An alternative: plain, or holding a value. -/
inductive Variant (α : Type)
  | plain (value : α)
  | holding (d : Decoder α)

/-- The value of a plain alternative says nothing. It is null, or an empty object that was put aside. -/
def noPayload : Decoder Unit
  | .settled, .object .done => .ok ()
  | source, r => null source r

/-- The value of an alternative. -/
def Variant.decode {α : Type} (v : Variant α) (source : DecodeSource) (payload : Option Reading) : Except DecodeError α :=
  match v, payload with
  | plain value, none => .ok value
  | plain value, some r => do noPayload source r; return value
  | holding d, some r => d source r
  | holding _, none => .error (.wrongType .plainVariant)

/-- The alternative with the given name. -/
def findVariant {α : Type} (variant? : String → Option (Variant α)) (name : String) :
    Except DecodeError (Variant α) :=
  match variant? name with
  | some v => .ok v
  | none => .error (.misfit (.unknownVariant name))

/-- What must follow the only entry of an object. -/
def closed : Entries → Except DecodeError Unit
  | .done => .ok ()
  | .broken fault => .error fault.error
  | _ => .error .malformed

/-- One of several alternatives: the name of one, or an object whose only key is its name. -/
def oneOf {α : Type} (variant? : String → Option (Variant α)) : Decoder α
  | source, .string text => do (← findVariant variant? (← text.text)).decode source none
  | source, .object (.entry key value rest) =>
    match source, rest with
    | .settled, .entry .. => .error (.misfit (.wrongValue .map))
    | _, _ => do
      let a ← (← findVariant variant? (← key.text)).decode source (some value)
      closed rest
      return a
  | .settled, .object _ => .error (.misfit (.wrongValue .map))
  | .settled, r => .error r.mismatch
  | .direct, .object (.broken fault) => .error fault.error
  | .direct, .broken .absent => .error .cutOff
  | .direct, _ => .error .malformed

/-! ### Records

A record is written as an object, or as an array of its fields in order. -/

end Decoder

/-- A field of a record: its key, its decoder, and its value where it is not written, if it may be left out. -/
structure RecordField (α : Type) where
  key : String
  decoder : Decoder α
  absent : Option α := none

/-- A field that may be left out, and is `value` then. -/
def RecordField.withDefault {α : Type} (key : String) (d : Decoder α) (value : α) : RecordField α :=
  ⟨key, d, some value⟩

/-- A field that must be written. -/
def RecordField.required {α : Type} (key : String) (d : Decoder α) : RecordField α :=
  ⟨key, d, none⟩

/-- The fields of a record whose values have the given types. -/
def RecordFields : List Type → Type
  | [] => Unit
  | α :: types => RecordField α × RecordFields types

/-- The values of a record, as far as they are known. -/
def RecordSlots : List Type → Type
  | [] => Unit
  | α :: types => Option α × RecordSlots types

/-- The values of a record. -/
def RecordValues : List Type → Type
  | [] => Unit
  | α :: types => α × RecordValues types

namespace RecordSlots

/-- No value is known. -/
def empty : (types : List Type) → RecordSlots types
  | [] => ()
  | _ :: types => (none, empty types)

/-- Fill the slot of the field with the given key; none if no field has it. -/
def fill (source : DecodeSource) (key : String) (value : Reading) :
    (types : List Type) → RecordFields types → RecordSlots types → Except DecodeError (Option (RecordSlots types))
  | [], _, _ => .ok none
  | _ :: types, (field, fields), (slot, slots) =>
    if field.key = key then
      match slot with
      | some _ => .error (.misfit (.duplicateField key))
      | none => do
        let a ← field.decoder source value
        return some (some a, slots)
    else do
      let filled ← fill source key value types fields slots
      return filled.map (slot, ·)

/-- The values of all fields, once the object has ended. -/
def finish : (types : List Type) → RecordFields types → RecordSlots types → Except DecodeError (RecordValues types)
  | [], _, _ => .ok ()
  | _ :: types, (field, fields), (slot, slots) =>
    match slot.or field.absent with
    | some a => do return (a, ← finish types fields slots)
    | none => .error (.misfit (.missingField field.key))

end RecordSlots

namespace Decoder

/-- The values of a record from the entries of an object. An entry of another name is passed over, unless the record is
`strict`. -/
def fromEntries (strict : Bool) (types : List Type) (fields : RecordFields types) (source : DecodeSource) :
    RecordSlots types → Entries → Except DecodeError (RecordValues types)
  | slots, .done => slots.finish types fields
  | _, .broken fault => .error fault.error
  | _, .dangling fault => .error fault.error
  | slots, .entry key value rest => do
    let key ← key.text
    match ← slots.fill source key value types fields with
    | some slots => fromEntries strict types fields source slots rest
    | none =>
      if strict then
        .error (.misfit (.unknownField key))
      else
        value.skip
        fromEntries strict types fields source slots rest

/-- How many items there are. -/
def itemCount : Items → Nat
  | .item _ rest => itemCount rest + 1
  | _ => 0

/-- What must follow the last field of a record that is written as an array; `read` items are before it. -/
def noMoreItems (source : DecodeSource) (read : Nat) : Items → Except DecodeError Unit
  | .done => .ok ()
  | .broken fault => .error fault.error
  | items =>
    match source with
    | .direct => .error .malformed
    | .settled => .error (.misfit (.wrongLength (read + itemCount items)))

/-- The values of a record from the items of an array. The next field is the one at `index`; when the items end before a
field that must be written, its index is told. -/
def fromItems (source : DecodeSource) (index : Nat) :
    (types : List Type) → RecordFields types → Items → Except DecodeError (RecordValues types)
  | [], _, items => noMoreItems source index items
  | _ :: types, (field, fields), items =>
    match items with
    | .item value rest => do
      let a ← field.decoder source value
      return (a, ← fromItems source (index + 1) types fields rest)
    | .broken fault => .error fault.error
    | .done =>
      match field.absent with
      | some a => do return (a, ← fromItems source (index + 1) types fields .done)
      | none => .error (.misfit (.wrongLength index))

/-- A record: an object with a key for each field, or an array of the fields in order. -/
def record {α : Type} (types : List Type) (fields : RecordFields types) (make : RecordValues types → α)
    (strict : Bool := false) : Decoder α
  | source, .object es => make <$> fromEntries strict types fields source (.empty types) es
  | source, .array xs => make <$> fromItems source 0 types fields xs
  | _, r => .error r.mismatch

/-- Decode a whole text. Nothing but blanks may stand behind the value. -/
def decode {α : Type} (d : Decoder α) (text : String) : Except DecodeError α := do
  let (r, rest) := Reading.ofText text
  let a ← d .direct r
  if ((rest.map Reading.skipBlanks).getD []).isEmpty then return a else .error .malformed

end Decoder

end AdviceWeaving
