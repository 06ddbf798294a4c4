import AdviceWeaving.Json.Encode
import AdviceWeaving.Proofs.JsonText

/-!
# Decoding what was written

A decoder `Decoder.Reads` a value from its JSON form, if it takes the value from what the text of this form is read as.
The lemmas tell so of the general decoders; a record is read back from its members in the order of its fields, where
those that have the value of an absent field may be left out (`Decoder.reads_record`).
-/

namespace AdviceWeaving

namespace Decoder

variable {α β : Type}

/-- The decoder takes the value `a` from the text of the JSON value `v`. -/
def Reads (d : Decoder α) (v : Json) (a : α) : Prop :=
  d .direct v.reading = .ok a

/-! ### Scalars and lists -/

theorem reads_string (text : String) : string.Reads (.str text) text :=
  Json.text_quoted text

theorem reads_bool (value : Bool) : bool.Reads (.bool value) value := rfl

/-- An integer that fits a word, with a sign or without. -/
theorem reads_integer {convert : Int → Option α} {n : Int} {a : α}
    (hlow : -9223372036854775808 ≤ n) (hhigh : n ≤ 18446744073709551615) (h : convert n = some a) :
    (integer convert).Reads (.int n) a := by
  simp only [Reads, Json.reading, integer, Json.decode_numeral hlow hhigh, bind, Except.bind, h]

theorem reads_list {d : Decoder α} {toJson : β → Json} {f : β → α} {xs : List β}
    (h : ∀ x ∈ xs, d.Reads (toJson x) (f x)) : (list d).Reads (Json.ofList toJson xs) (xs.map f) := by
  show items d .direct (Json.itemsReading (xs.map toJson)) = .ok (xs.map f)
  induction xs with
  | nil => rfl
  | cons x xs ih =>
    have hx : d .direct (toJson x).reading = .ok (f x) := h x List.mem_cons_self
    have hxs := ih fun y hy => h y (List.mem_cons_of_mem x hy)
    simp only [List.map_cons, Json.itemsReading, items, hx, hxs, bind, Except.bind, pure, Except.pure]

theorem reads_map {d : Decoder β} {v : Json} {b : β} (f : β → α) (h : d.Reads v b) :
    Reads (fun source r => f <$> d source r) v (f b) :=
  congrArg (f <$> ·) h

theorem reads_optional {d : Decoder α} {v : Json} {a : α} (hnull : v.reading ≠ .null)
    (h : d.Reads v a) : (optional d).Reads v (some a) := by
  rw [Reads, optional]
  · exact reads_map some h
  · exact hnull

/-! ### Alternatives -/

theorem reads_plain {variant? : String → Option (Variant α)} {name : String} {a : α}
    (h : variant? name = some (.plain a)) : (oneOf variant?).Reads (.str name) a := by
  simp only [Reads, Json.reading, oneOf, Json.text_quoted, findVariant, h, bind, Except.bind,
    Variant.decode]

theorem reads_holding {variant? : String → Option (Variant α)} {name : String} {d : Decoder α}
    {v : Json} {a : α} (h : variant? name = some (.holding d)) (hv : d.Reads v a) :
    (oneOf variant?).Reads (.obj [(name, v)]) a := by
  have hv' : d .direct v.reading = .ok a := hv
  simp only [Reads, Json.reading, Json.entriesReading, oneOf, Json.text_quoted, findVariant, h, bind,
    Except.bind, Variant.decode, hv', closed, pure, Except.pure]

/-! ### Records -/

/-- The keys of the fields of a record. -/
def keys : (types : List Type) → RecordFields types → List String
  | [], _ => []
  | _ :: types, (field, fields) => field.key :: keys types fields

/-- The members are those of a record with the given values: one for each field in order, but maybe none for a field
that has the value of an absent one. -/
def Written : (types : List Type) → RecordFields types → RecordValues types → List (String × Json) → Prop
  | [], _, _, members => members = []
  | _ :: types, (field, fields), (a, values), members =>
    (∃ v rest, members = (field.key, v) :: rest ∧ field.decoder.Reads v a ∧
      Written types fields values rest) ∨
    field.absent = some a ∧ Written types fields values members

variable {types : List Type}

private theorem mem_keys_of_written {fields : RecordFields types} {values : RecordValues types}
    {members : List (String × Json)} (h : Written types fields values members) :
    ∀ member ∈ members, member.1 ∈ keys types fields := by
  induction types generalizing members with
  | nil =>
    obtain rfl : members = [] := h
    simp
  | cons β types ih =>
    obtain ⟨field, fields⟩ := fields
    obtain ⟨a, values⟩ := values
    intro member hmember
    rcases h with ⟨v, rest, rfl, -, hrest⟩ | ⟨-, hrest⟩
    · rcases List.mem_cons.1 hmember with rfl | hmember
      · exact List.mem_cons_self
      · exact List.mem_cons_of_mem _ (ih hrest member hmember)
    · exact List.mem_cons_of_mem _ (ih hrest member hmember)

/-- An entry behind the first field of a record is one of the other fields. -/
private theorem fromEntries_cons {strict : Bool} {field : RecordField α} {fields : RecordFields types}
    {slot : Option α} {slots : RecordSlots types} {members : List (String × Json)} {a : α}
    {values : RecordValues types} (hkeys : ∀ member ∈ members, field.key ≠ member.1)
    (hslot : slot.or field.absent = some a)
    (h : fromEntries strict types fields .direct slots (Json.entriesReading members) = .ok values) :
    fromEntries strict (α :: types) (field, fields) .direct (slot, slots)
      (Json.entriesReading members) = .ok (a, values) := by
  induction members generalizing slots with
  | nil =>
    have hfinish : slots.finish types fields = .ok values := h
    show RecordSlots.finish (α :: types) (field, fields) (slot, slots) = _
    simp only [RecordSlots.finish, hslot, hfinish, bind, Except.bind, pure, Except.pure]
    rfl
  | cons member members ih =>
    obtain ⟨key, v⟩ := member
    have hkey : field.key ≠ key := hkeys _ List.mem_cons_self
    have hrest := fun slots' => @ih slots' fun m hm => hkeys m (List.mem_cons_of_mem _ hm)
    simp only [Json.entriesReading, fromEntries, Json.text_quoted, bind, Except.bind] at h ⊢
    simp only [RecordSlots.fill, if_neg hkey, bind, Except.bind]
    cases hfill : RecordSlots.fill .direct key v.reading types fields slots with
    | error e => rw [hfill] at h; cases h
    | ok filled? =>
      rw [hfill] at h
      cases filled? with
      | some filled => exact hrest filled h
      | none =>
        cases strict with
        | true => cases h
        | false =>
          simp only [pure, Except.pure, Bool.false_eq_true, if_false] at h ⊢
          cases hskip : v.reading.skip with
          | error e => rw [hskip] at h; cases h
          | ok u => rw [hskip] at h; exact hrest slots h

private theorem fromEntries_written {strict : Bool} {fields : RecordFields types}
    {values : RecordValues types} {members : List (String × Json)} (hkeys : (keys types fields).Nodup)
    (h : Written types fields values members) :
    fromEntries strict types fields .direct (.empty types) (Json.entriesReading members) =
      .ok values := by
  induction types generalizing members with
  | nil =>
    obtain rfl : members = [] := h
    rfl
  | cons β types ih =>
    obtain ⟨field, fields⟩ := fields
    obtain ⟨a, values⟩ := values
    obtain ⟨hnew, hkeys⟩ := List.nodup_cons.1 hkeys
    have hothers {rest : List (String × Json)} (hrest : Written types fields values rest) :
        ∀ member ∈ rest, field.key ≠ member.1 :=
      fun member hmember heq => hnew (heq ▸ mem_keys_of_written hrest member hmember)
    rcases h with ⟨v, rest, rfl, hv, hrest⟩ | ⟨habsent, hrest⟩
    · have hv' : field.decoder .direct v.reading = .ok a := hv
      simp only [Json.entriesReading, fromEntries, RecordSlots.empty, Json.text_quoted,
        RecordSlots.fill, hv', bind, Except.bind, pure, Except.pure, if_true]
      exact fromEntries_cons (hothers hrest) rfl (ih hkeys hrest)
    · have hslot : (none : Option β).or field.absent = some a := habsent
      exact fromEntries_cons (hothers hrest) hslot (ih hkeys hrest)

/-- A record is read back from its members. -/
theorem reads_record {fields : RecordFields types} {make : RecordValues types → α} {strict : Bool}
    {values : RecordValues types} {members : List (String × Json)} {a : α}
    (h : Written types fields values members) (hkeys : (keys types fields).Nodup)
    (hmake : make values = a) : (record types fields make strict).Reads (.obj members) a := by
  rw [Reads, Json.reading, record, fromEntries_written hkeys h, ← hmake]
  rfl

/-! ### The members of a record -/

variable {field : RecordField α} {fields : RecordFields types} {a : α} {values : RecordValues types}
  {members : List (String × Json)}

theorem written_nil : Written [] () () [] := rfl

theorem Written.member {v : Json} (hv : field.decoder.Reads v a)
    (h : Written types fields values members) :
    Written (α :: types) (field, fields) (a, values) ((field.key, v) :: members) :=
  .inl ⟨v, members, rfl, hv, h⟩

theorem Written.omitted (habsent : field.absent = some a) (h : Written types fields values members) :
    Written (α :: types) (field, fields) (a, values) members :=
  .inr ⟨habsent, h⟩

/-- A list is left out if it is empty. -/
theorem Written.listMember (key : String) {d : Decoder α} {toJson : β → Json} {f : β → α} {xs : List β}
    (hxs : ∀ x ∈ xs, d.Reads (toJson x) (f x)) (h : Written types fields values members) :
    Written (List α :: types) (RecordField.withDefault key (list d) [], fields) (xs.map f, values)
      (Json.listMember key toJson xs ++ members) := by
  cases xs with
  | nil => exact .omitted rfl h
  | cons x xs => exact .member (reads_list hxs) h

end Decoder

end AdviceWeaving
