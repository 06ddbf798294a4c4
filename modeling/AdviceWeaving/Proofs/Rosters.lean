import AdviceWeaving.Proofs.Numbering
import AdviceWeaving.Walk
import Mathlib.Data.List.Flatten

/-!
# What a walk goes by

A walk goes by the types of a module and by their members: types and methods are known by identifier, fields and
properties by place.  This much of a module is its list of rosters (`Module.rosters`).  There a visitor that only
removes what it is shown, or what stands behind it, leaves everything in front of a place as it was (`CutFrom`).
-/

namespace AdviceWeaving

/-! ### Lists of which something behind a place is gone -/

section

variable {α : Type} {l l' l'' : List α} {n m : Nat} {x : α}

/-- Something at the place `n` or behind it has been removed, and nothing else has changed. -/
def CutFrom (n : Nat) (l l' : List α) : Prop :=
  l'.take n = l.take n ∧ (l'.drop n).Sublist (l.drop n)

theorem CutFrom.refl (n : Nat) (l : List α) : CutFrom n l l :=
  ⟨rfl, .refl _⟩

/-- Everything behind a place may be removed. -/
theorem cutFrom_append (l l' : List α) : CutFrom l.length (l ++ l') l := by
  refine ⟨by rw [List.take_length, List.take_left], ?_⟩
  rw [List.drop_length]
  exact List.nil_sublist _

theorem CutFrom.trans (h : CutFrom n l l') (h' : CutFrom n l' l'') : CutFrom n l l'' :=
  ⟨h'.1.trans h.1, h'.2.trans h.2⟩

theorem CutFrom.sublist (h : CutFrom n l l') : l'.Sublist l := by
  rw [← List.take_append_drop n l', ← List.take_append_drop n l, h.1]
  exact (List.Sublist.refl _).append h.2

/-- What is removed behind a place is removed behind each place in front of it. -/
theorem CutFrom.anti (h : CutFrom m l l') (hn : n ≤ m) : CutFrom n l l' := by
  refine ⟨?_, ?_⟩
  · rw [← Nat.min_eq_left hn, ← List.take_take, h.1, List.take_take]
  · rw [← List.take_append_drop m l', ← List.take_append_drop m l, h.1, List.drop_append, List.drop_append]
    exact (List.Sublist.refl _).append (h.2.drop _)

theorem take_of_take_succ (h : l'.take (n + 1) = l.take (n + 1)) : l'.take n = l.take n := by
  rw [← Nat.min_eq_left (Nat.le_succ n), ← List.take_take, h, List.take_take]

theorem getElem?_of_take_succ (h : l'.take (n + 1) = l.take (n + 1)) : l'[n]? = l[n]? := by
  rw [← List.getElem?_take_of_lt (Nat.lt_succ_self n), h, List.getElem?_take_of_lt (Nat.lt_succ_self n)]

theorem drop_of_getElem? (h : l[n]? = some x) : l.drop n = x :: l.drop (n + 1) := by
  obtain ⟨hn, rfl⟩ := List.getElem?_eq_some_iff.1 h
  exact List.drop_eq_getElem_cons hn

/-- What stands at the place is still there, or it is gone. -/
theorem CutFrom.stays_or_goes (h : CutFrom n l l') (hx : l[n]? = some x) :
    l'[n]? = some x ∨ (l'.drop n).Sublist (l.drop (n + 1)) := by
  have hcut := h.2
  rw [drop_of_getElem? hx] at hcut
  cases hrest : l'.drop n with
  | nil => exact .inr (List.nil_sublist _)
  | cons y rest =>
    rw [hrest] at hcut
    cases hcut with
    | cons _ hcut => exact .inr hcut
    | cons_cons _ hcut =>
      have hhead := congrArg (·[0]?) hrest
      exact .inl (by simpa using hhead)

/-- What is known by the key of the place stands there or behind it. -/
theorem CutFrom.le_of_key {κ : Type} {y : α} (key : α → κ) (h : CutFrom n l l') (hl : (l.map key).Nodup)
    (hx : l[n]? = some x) (hy : l'[m]? = some y) (hkey : key y = key x) : n ≤ m := by
  by_contra hnot
  have hmn : m < n := Nat.lt_of_not_le hnot
  have hy' : l[m]? = some y := by
    rw [← List.getElem?_take_of_lt hmn, ← h.1, List.getElem?_take_of_lt hmn, hy]
  have hm : (l.map key)[m]? = some (key x) := by
    rw [List.getElem?_map, hy', Option.map_some, hkey]
  have hn : (l.map key)[n]? = some (key x) := by
    rw [List.getElem?_map, hx, Option.map_some]
  have hlt : m < (l.map key).length := (List.getElem?_eq_some_iff.1 hm).1
  exact Nat.ne_of_lt hmn ((List.getElem?_inj hlt hl).1 (hm.trans hn.symm))

/-- What is gone from its place is nowhere else. -/
theorem CutFrom.not_mem_of_goes {κ : Type} (key : α → κ) (h : CutFrom n l l') (hl : (l.map key).Nodup)
    (hx : l[n]? = some x) (hgoes : (l'.drop n).Sublist (l.drop (n + 1))) : key x ∉ l'.map key := by
  rw [← List.take_append_drop n l, drop_of_getElem? hx, List.map_append, List.map_cons, List.nodup_append',
    List.nodup_cons] at hl
  intro hmem
  rw [← List.take_append_drop n l', h.1, List.map_append] at hmem
  rcases List.mem_append.1 hmem with hmem | hmem
  · exact hl.2.2 hmem List.mem_cons_self
  · exact hl.2.1.1 ((hgoes.map key).subset hmem)

theorem CutFrom.getElem?_of_mem (h : CutFrom n l l') (hl : l.Nodup) (hx : l[n]? = some x) (hmem : x ∈ l') :
    l'[n]? = some x := by
  refine (h.stays_or_goes hx).resolve_right fun hgoes => ?_
  have hnot := h.not_mem_of_goes id (by rwa [List.map_id]) hx hgoes
  rw [List.map_id] at hnot
  exact hnot hmem

end

/-! ### Rosters -/

/-- A type and its members. -/
structure Roster where
  id : TypeId
  methods : List MethodId
  fields : List Field
  properties : List Property

def TypeDecl.roster (t : TypeDecl) : Roster where
  id := t.id
  methods := t.methods.map (·.id)
  fields := t.fields
  properties := t.properties

def Module.rosters (m : Module) : List Roster :=
  m.types.map (·.roster)

/-- No type and no method is listed twice. -/
structure Distinct (r : List Roster) : Prop where
  ids : (r.map (·.id)).Nodup
  methods : (r.flatMap (·.methods)).Nodup

private theorem Module.map_id_rosters (m : Module) : m.rosters.map (·.id) = m.types.map (·.id) := by
  rw [rosters, List.map_map]
  rfl

private theorem Module.flatMap_methods_rosters (m : Module) : m.rosters.flatMap (·.methods) = methodIds m.types := by
  rw [rosters, List.flatMap_map]
  rfl

theorem Module.Numbered.distinct {m : Module} (h : m.Numbered) : Distinct m.rosters :=
  ⟨m.map_id_rosters.symm ▸ h.types_nodup, m.flatMap_methods_rosters.symm ▸ h.methods_nodup⟩

theorem Distinct.sublist {r r' : List Roster} (h : Distinct r) (hr : r'.Sublist r) : Distinct r' :=
  ⟨h.ids.sublist (hr.map _), h.methods.sublist (hr.flatMap _)⟩

/-- One kind of members of a type. -/
structure Roster.Part (α : Type) where
  members : TypeDecl → List α
  get : Roster → List α
  set : Roster → List α → Roster
  get_roster : ∀ t, get t.roster = members t
  get_set : ∀ e l, get (set e l) = l
  set_get : ∀ e, set e (get e) = e
  set_set : ∀ e l l', set (set e l) l' = set e l'
  id_set : ∀ e l, (set e l).id = e.id
  methods_set : ∀ e {l l'}, l'.Sublist l → (set e l').methods.Sublist (set e l).methods

namespace Roster.Part

variable {α : Type} (p : Roster.Part α) (e : Roster)

/-- The places of all members of a type. -/
def places : List (TypeId × Nat) :=
  (List.range (p.get e).length).map (e.id, ·)

/-- All members of a type, with the type. -/
def owned : List (TypeId × α) :=
  (p.get e).map (e.id, ·)

end Roster.Part

namespace Roster

def methodsPart : Part MethodId where
  members t := t.methods.map (·.id)
  get := methods
  set e l := { e with methods := l }
  get_roster _ := rfl
  get_set _ _ := rfl
  set_get _ := rfl
  set_set _ _ _ := rfl
  id_set _ _ := rfl
  methods_set _ _ _ h := h

def fieldsPart : Part Field where
  members := (·.fields)
  get := fields
  set e l := { e with fields := l }
  get_roster _ := rfl
  get_set _ _ := rfl
  set_get _ := rfl
  set_set _ _ _ := rfl
  id_set _ _ := rfl
  methods_set _ _ _ _ := .refl _

def propertiesPart : Part Property where
  members := (·.properties)
  get := properties
  set e l := { e with properties := l }
  get_roster _ := rfl
  get_set _ _ := rfl
  set_get _ := rfl
  set_set _ _ _ := rfl
  id_set _ _ := rfl
  methods_set _ _ _ _ := .refl _

end Roster

section

variable {α : Type} {p : Roster.Part α} {front back : List Roster} {e : Roster} {l l' : List α} {m : Module}

theorem Distinct.set (h : Distinct (front ++ p.set e l :: back)) (hl : l'.Sublist l) :
    Distinct (front ++ p.set e l' :: back) := by
  refine ⟨?_, ?_⟩
  · have hids := h.ids
    simp only [List.map_append, List.map_cons, p.id_set] at hids ⊢
    exact hids
  · have hmethods := h.methods
    simp only [List.flatMap_append, List.flatMap_cons] at hmethods ⊢
    exact hmethods.sublist ((List.Sublist.refl _).append ((p.methods_set e hl).append (.refl _)))

/-- An identifier stands for one roster. -/
theorem Distinct.split_inj {front' back' : List Roster} {e' : Roster} (h : Distinct (front ++ e :: back))
    (heq : front ++ e :: back = front' ++ e' :: back') (hid : e'.id = e.id) :
    front' = front ∧ e' = e ∧ back' = back := by
  have hids := h.ids
  have hplace : (front ++ e :: back)[front.length]? = some e := by simp
  have hplace' : (front ++ e :: back)[front'.length]? = some e' := by rw [heq]; simp
  have hlength : front.length = front'.length := by
    refine (List.getElem?_inj (by simp) hids).1 ?_
    rw [List.getElem?_map, List.getElem?_map, hplace, hplace', Option.map_some, Option.map_some, hid]
  obtain ⟨hfront, hrest⟩ := List.append_inj heq hlength
  cases hrest
  exact ⟨hfront.symm, rfl, rfl⟩

/-! ### Rosters and lookups -/

theorem Module.type?_eq_none_iff {id : TypeId} : m.type? id = none ↔ id ∉ m.rosters.map (·.id) := by
  rw [map_id_rosters, type?, List.find?_eq_none, List.mem_map]
  simp

theorem Module.isSome_method?_iff {id : MethodId} :
    (m.method? id).isSome ↔ ∃ e ∈ m.rosters, id ∈ e.methods := by
  rw [method?, List.find?_isSome, rosters]
  simp only [decide_eq_true_eq, List.mem_map, exists_exists_and_eq_and]
  constructor
  · rintro ⟨⟨t, x⟩, hx, rfl⟩
    obtain ⟨ht, hx⟩ := mem_methods.1 hx
    exact ⟨t, ht, List.mem_map_of_mem hx⟩
  · rintro ⟨t, ht, hid⟩
    obtain ⟨x, hx, rfl⟩ := List.mem_map.1 hid
    exact ⟨(t, x), mem_methods.2 ⟨ht, hx⟩, rfl⟩

/-- The type that a roster is of. -/
private theorem Module.exists_type?_of_rosters (h : Distinct m.rosters) (hm : m.rosters = front ++ e :: back) :
    ∃ t, m.type? e.id = some t ∧ t.roster = e := by
  obtain ⟨ts, ts', htypes, rfl, hrest⟩ := List.map_eq_append_iff.1 hm
  obtain ⟨t, ts', rfl, rfl, rfl⟩ := List.map_eq_cons_iff.1 hrest
  refine ⟨t, List.find?_eq_some_iff_append.2 ⟨by simp [TypeDecl.roster], ts, ts', htypes, fun t' ht' => ?_⟩, rfl⟩
  have hids := h.ids
  rw [hm, List.map_append, List.nodup_append'] at hids
  have hid : t'.id ≠ t.id := fun hid =>
    hids.2.2 (List.mem_map_of_mem (List.mem_map_of_mem ht')) (List.mem_map.2 ⟨_, List.mem_cons_self, hid.symm⟩)
  simp [TypeDecl.roster, hid]

theorem Walk.membersOf_eq_get (h : Distinct m.rosters) (hm : m.rosters = front ++ e :: back) :
    membersOf p.members e.id m = p.get e := by
  obtain ⟨t, ht, rfl⟩ := m.exists_type?_of_rosters h hm
  rw [membersOf, ht, p.get_roster]
  rfl

/-- The member at a place: of the type, and the place there. -/
def Module.memberAt? (members : TypeDecl → List α) (m : Module) (place : TypeId × Nat) : Option α :=
  (Walk.membersOf members place.1 m)[place.2]?

theorem Walk.membersOf_map {β : Type} (members : TypeDecl → List α) (f : α → β) (id : TypeId) :
    membersOf (fun t => (members t).map f) id m = (membersOf members id m).map f := by
  unfold membersOf
  cases m.type? id <;> rfl

theorem Walk.membersOf_eq_nil {members : TypeDecl → List α} {id : TypeId} (h : id ∉ m.rosters.map (·.id)) :
    membersOf members id m = [] := by
  rw [membersOf, Module.type?_eq_none_iff.2 h]
  rfl

end

end AdviceWeaving
