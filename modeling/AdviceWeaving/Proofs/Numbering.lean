import AdviceWeaving.ModuleFile
import Mathlib.Data.List.Basic
import Mathlib.Data.List.Nodup

/-!
# Identifiers

In a module that a decoder has numbered, no two types and no two methods share an identifier
(`Module.Numbered`, `Module.numbered_of_decode`).  There an identifier stands for one type or one
method, so to look it up is to find its only bearer (`Module.Numbered.method?_eq_some_iff`), and to
change what it names is to change the bearers wherever they stand
(`Module.Numbered.updateMethod_eq`).
-/

namespace AdviceWeaving

/-! ### Lists with distinct keys -/

section

variable {α κ : Type} [DecidableEq κ] {key : α → κ} {k : κ}

private theorem map_ite_of_forall_ne {l : List α} (h : ∀ a ∈ l, key a ≠ k) (f : α → α) :
    (l.map fun a => if key a = k then f a else a) = l :=
  (List.map_congr_left fun a ha => if_neg (h a ha)).trans (List.map_id' l)

private theorem modify_findIdx_eq_map {l : List α} (h : (l.map key).Nodup) (f : α → α) :
    l.modify (l.findIdx fun a => key a = k) f = l.map fun a => if key a = k then f a else a := by
  induction l with
  | nil => rfl
  | cons a l ih =>
    rw [List.map_cons, List.nodup_cons] at h
    by_cases ha : key a = k
    · have hl : ∀ b ∈ l, key b ≠ k := fun b hb hk => h.1 (List.mem_map.2 ⟨b, hb, hk.trans ha.symm⟩)
      rw [List.map_cons, map_ite_of_forall_ne hl]
      simp [ha, List.findIdx_cons]
    · simp [ha, List.findIdx_cons, ih h.2]

theorem find?_eq_some_iff_of_nodup {l : List α} (h : (l.map key).Nodup) {a : α} :
    l.find? (fun a => key a = k) = some a ↔ a ∈ l ∧ key a = k := by
  constructor
  · intro hf
    exact ⟨List.mem_of_find?_eq_some hf, by simpa using List.find?_some hf⟩
  · rintro ⟨ha, rfl⟩
    induction l with
    | nil => cases ha
    | cons b l ih =>
      rw [List.map_cons, List.nodup_cons] at h
      rcases List.mem_cons.1 ha with rfl | ha
      · simp
      · have hb : key b ≠ key a := fun hk => h.1 (hk ▸ List.mem_map_of_mem ha)
        rw [List.find?_cons_of_neg (by simpa using hb)]
        exact ih h.2 ha

end

/-! ### Numbered modules -/

/-- The identifiers of all methods of a list of types, in order. -/
def methodIds (types : List TypeDecl) : List MethodId :=
  types.flatMap fun t => t.methods.map (·.id)

/-- No identifier is borne twice, and all of them have been given out. -/
structure Module.Numbered (m : Module) : Prop where
  types_nodup : (m.types.map (·.id)).Nodup
  methods_nodup : (methodIds m.types).Nodup
  types_lt : ∀ t ∈ m.types, t.id.index < m.ids.nextType
  methods_lt : ∀ id ∈ methodIds m.types, id.index < m.ids.nextMethod

namespace Module

theorem mem_methods {m : Module} {t : TypeDecl} {x : Method} :
    (t, x) ∈ m.methods ↔ t ∈ m.types ∧ x ∈ t.methods := by
  simp only [methods, List.mem_flatMap, List.mem_map, Prod.mk.injEq]
  constructor
  · rintro ⟨_, ht, _, hx, rfl, rfl⟩; exact ⟨ht, hx⟩
  · rintro ⟨ht, hx⟩; exact ⟨t, ht, x, hx, rfl, rfl⟩

theorem map_id_methods (m : Module) : m.methods.map (·.2.id) = methodIds m.types := by
  simp [methods, methodIds, List.map_flatMap, Function.comp_def]

theorem mem_methodIds {types : List TypeDecl} {id : MethodId} :
    id ∈ methodIds types ↔ ∃ t ∈ types, ∃ x ∈ t.methods, x.id = id := by
  simp [methodIds]

variable {m : Module}

theorem Numbered.type?_eq_some_iff (h : m.Numbered) {id : TypeId} {t : TypeDecl} :
    m.type? id = some t ↔ t ∈ m.types ∧ t.id = id :=
  find?_eq_some_iff_of_nodup h.types_nodup

theorem Numbered.method?_eq_some_iff (h : m.Numbered) {id : MethodId} {t : TypeDecl} {x : Method} :
    m.method? id = some (t, x) ↔ (t, x) ∈ m.methods ∧ x.id = id :=
  have hnodup : (m.methods.map (·.2.id)).Nodup := (map_id_methods m).symm ▸ h.methods_nodup
  find?_eq_some_iff_of_nodup hnodup

theorem Numbered.updateType_eq (h : m.Numbered) (id : TypeId) (f : TypeDecl → TypeDecl) :
    m.updateType id f = { m with types := m.types.map fun t => if t.id = id then f t else t } := by
  rw [updateType, modify_findIdx_eq_map h.types_nodup]

/-- Change every method of a module. -/
def mapMethods (m : Module) (f : TypeDecl → Method → Method) : Module :=
  { m with types := m.types.map fun t => { t with methods := t.methods.map (f t) } }

private theorem modify_methods_eq {types : List TypeDecl} (h : (methodIds types).Nodup)
    (id : MethodId) (f : Method → Method) :
    (types.modify (types.findIdx (·.methods.any (·.id = id))) fun t =>
        { t with methods := t.methods.modify (t.methods.findIdx (·.id = id)) f }) =
      types.map fun t =>
        { t with methods := t.methods.map fun x => if x.id = id then f x else x } := by
  induction types with
  | nil => rfl
  | cons t types ih =>
    rw [methodIds, List.flatMap_cons, List.nodup_append'] at h
    obtain ⟨ht, htypes, hdisjoint⟩ := h
    -- the identifier is borne in the first type, and then in no other, or behind it
    by_cases hany : t.methods.any (·.id = id)
    · have hrest : ∀ t' ∈ types,
          { t' with methods := t'.methods.map fun x => if x.id = id then f x else x } = t' := by
        intro t' ht'
        rw [map_ite_of_forall_ne]
        intro x hx hid
        obtain ⟨y, hy, hyid⟩ := List.any_eq_true.1 hany
        exact hdisjoint (List.mem_map.2 ⟨y, hy, by simpa using hyid⟩)
          (mem_methodIds.2 ⟨t', ht', x, hx, hid⟩)
      rw [List.map_cons, (List.map_congr_left hrest).trans (List.map_id' types)]
      simp [List.findIdx_cons, hany, modify_findIdx_eq_map ht]
    · have hfirst : ∀ x ∈ t.methods, x.id ≠ id := by simpa using hany
      rw [List.map_cons, map_ite_of_forall_ne hfirst, ← ih htypes]
      simp [List.findIdx_cons, hany]

theorem Numbered.updateMethod_eq (h : m.Numbered) (id : MethodId) (f : Method → Method) :
    m.updateMethod id f = m.mapMethods fun _ x => if x.id = id then f x else x := by
  rw [updateMethod, modify_methods_eq h.methods_nodup, mapMethods]

/-! ### What decoders number -/

private theorem map_id_numberMethods (ids : IdSupply) (methods : List Method) :
    (ids.numberMethods methods).1.map (·.id) =
    (List.range' ids.nextMethod methods.length).map MethodId.mk ∧
      (ids.numberMethods methods).2 =
        { ids with nextMethod := ids.nextMethod + methods.length } := by
  induction methods generalizing ids with
  | nil => exact ⟨rfl, rfl⟩
  | cons x methods ih =>
    obtain ⟨hids, hnext⟩ := ih ids.takeMethod.2
    simp only [IdSupply.numberMethods, List.map_cons, hids, hnext, List.length_cons,
      List.range'_succ]
    simp only [IdSupply.takeMethod, IdSupply.mk.injEq, true_and]
    omega

theorem ids_numberTypes (ids : IdSupply) (types : List TypeDecl) :
    (ids.numberTypes types).1.map (·.id) =
    (List.range' ids.nextType types.length).map TypeId.mk ∧
      methodIds (ids.numberTypes types).1 =
        (List.range' ids.nextMethod (methodIds types).length).map MethodId.mk ∧
      (ids.numberTypes types).2 =
        ⟨ids.nextType + types.length, ids.nextMethod + (methodIds types).length⟩ := by
  induction types generalizing ids with
  | nil => exact ⟨rfl, rfl, rfl⟩
  | cons t types ih =>
    obtain ⟨hmethods, hnext⟩ := map_id_numberMethods ids.takeType.2 t.methods
    obtain ⟨htypes, hids, hlast⟩ := ih (ids.numberType t).2
    have hcount : (methodIds (t :: types)).length = t.methods.length + (methodIds types).length := by
      simp [methodIds]
    have hsupply : (ids.numberType t).2 = ⟨ids.nextType + 1, ids.nextMethod + t.methods.length⟩ :=
      hnext
    have hcons : ids.numberTypes (t :: types) =
        ((ids.numberType t).1 :: ((ids.numberType t).2.numberTypes types).1,
      ((ids.numberType t).2.numberTypes types).2) := rfl
    rw [hcons, hcount]
    refine ⟨?_, ?_, ?_⟩
    · rw [List.map_cons, htypes, hsupply, List.length_cons, List.range'_succ]
      rfl
    · rw [methodIds, List.flatMap_cons, ← methodIds, hids, hsupply, ← List.range'_append_1,
        List.map_append]
      exact congrArg (· ++ _) hmethods
    · rw [hlast, hsupply, List.length_cons]
      simp only [IdSupply.mk.injEq]
      omega

/-- Identifiers are given in declaration order, from zero. -/
theorem ids_assignIds (m : Module) :
    m.assignIds.types.map (·.id) = (List.range m.types.length).map TypeId.mk ∧
      methodIds m.assignIds.types = (List.range (methodIds m.types).length).map MethodId.mk := by
  obtain ⟨htypes, hmethods, -⟩ := ids_numberTypes {} m.types
  rw [List.range_eq_range', List.range_eq_range']
  exact ⟨htypes, hmethods⟩

/-- The identifiers that a supply gives to types and methods are those that it has not given out before. -/
theorem Numbered.append_numberTypes (h : m.Numbered) (types : List TypeDecl) :
    ({ m with
        types := m.types ++ (m.ids.numberTypes types).1
        ids := (m.ids.numberTypes types).2 } : Module).Numbered := by
  obtain ⟨htypes, hmethods, hnext⟩ := ids_numberTypes m.ids types
  have hmethodIds : methodIds (m.types ++ (m.ids.numberTypes types).1) =
      methodIds m.types ++ methodIds (m.ids.numberTypes types).1 := List.flatMap_append
  refine ⟨?_, ?_, ?_, ?_⟩
  · show ((m.types ++ (m.ids.numberTypes types).1).map (·.id)).Nodup
    rw [List.map_append, htypes, List.nodup_append']
    refine ⟨h.types_nodup, (List.nodup_range' ..).map fun _ _ h => by cases h; rfl, fun id hold hnew => ?_⟩
    obtain ⟨t, ht, rfl⟩ := List.mem_map.1 hold
    obtain ⟨k, hk, hid⟩ := List.mem_map.1 hnew
    have hlt := h.types_lt t ht
    rw [← hid] at hlt
    exact Nat.not_le_of_lt hlt (List.mem_range'_1.1 hk).1
  · show (methodIds (m.types ++ (m.ids.numberTypes types).1)).Nodup
    rw [hmethodIds, hmethods, List.nodup_append']
    refine ⟨h.methods_nodup, (List.nodup_range' ..).map fun _ _ h => by cases h; rfl, fun id hold hnew => ?_⟩
    obtain ⟨k, hk, rfl⟩ := List.mem_map.1 hnew
    exact Nat.not_le_of_lt (h.methods_lt _ hold) (List.mem_range'_1.1 hk).1
  · show ∀ t ∈ m.types ++ (m.ids.numberTypes types).1, t.id.index < (m.ids.numberTypes types).2.nextType
    rw [hnext]
    intro t ht
    obtain ht | ht := List.mem_append.1 ht
    · exact Nat.lt_add_right _ (h.types_lt t ht)
    · have hid := List.mem_map_of_mem (f := (·.id)) ht
      rw [htypes, List.mem_map] at hid
      obtain ⟨k, hk, hkt⟩ := hid
      rw [← hkt]
      exact (List.mem_range'_1.1 hk).2
  · show ∀ id ∈ methodIds (m.types ++ (m.ids.numberTypes types).1),
      id.index < (m.ids.numberTypes types).2.nextMethod
    rw [hmethodIds, hnext]
    intro id hid
    obtain hid | hid := List.mem_append.1 hid
    · exact Nat.lt_add_right _ (h.methods_lt id hid)
    · rw [hmethods, List.mem_map] at hid
      obtain ⟨k, hk, rfl⟩ := hid
      exact (List.mem_range'_1.1 hk).2

/-- In a module without types, no identifier is borne. -/
theorem numbered_empty (name : String) : ({ name } : Module).Numbered :=
  ⟨List.nodup_nil, List.nodup_nil, nofun, nofun⟩

theorem numbered_ofTypes (name : String) (types : List TypeDecl) : (ofTypes name types).Numbered :=
  (numbered_empty name).append_numberTypes types

/-- A module whose identifiers are some of those of a numbered module, in order, is numbered. -/
theorem Numbered.of_sublist {m' : Module} (h : m.Numbered)
    (htypes : (m'.types.map (·.id)).Sublist (m.types.map (·.id)))
    (hmethods : (methodIds m'.types).Sublist (methodIds m.types)) (hids : m'.ids = m.ids) : m'.Numbered := by
  refine ⟨h.types_nodup.sublist htypes, h.methods_nodup.sublist hmethods, fun t ht => ?_, fun id hid => ?_⟩
  · obtain ⟨t', ht', hid⟩ := List.mem_map.1 (htypes.subset (List.mem_map_of_mem (f := (·.id)) ht))
    rw [hids, ← hid]
    exact h.types_lt t' ht'
  · rw [hids]
    exact h.methods_lt id (hmethods.subset hid)

private theorem exists_ofTypes_of_rule {tokens : List Lexeme} {rest : Remainder tokens}
    (h : Rule.module tokens = .ok (m, rest)) : ∃ name types, m = ofTypes name types := by
  have hbind {α β : Type} {p : Rule α} {f : α → Rule β} {ts : List Lexeme} {b : β}
      {rest : Remainder ts}
      (h : (p >>= f) ts = .ok (b, rest)) : ∃ a ts' rest', f a ts' = .ok (b, rest') := by
    simp only [bind, Outcome.andThen] at h
    split at h
    · cases h
    · split at h
      · cases h
      · next heq => cases h; exact ⟨_, _, _, heq⟩
  obtain ⟨_, _, _, h⟩ := hbind h
  obtain ⟨name, _, _, h⟩ := hbind h
  obtain ⟨types, _, _, h⟩ := hbind h
  cases h
  exact ⟨name, types, rfl⟩

/-- What is read from text has been numbered. -/
theorem exists_ofTypes_of_parse {source : String} (h : (parse source).module? = some m) :
    ∃ name types, m = ofTypes name types := by
  simp only [parse] at h
  cases hm : Rule.module (lex source).tokens with
  | error fault => rw [hm] at h; cases h
  | ok outcome =>
    obtain ⟨m', rest⟩ := outcome
    rw [hm] at h
    cases h
    exact exists_ofTypes_of_rule hm

/-- What is decoded from text or JSON has been numbered. -/
theorem numbered_of_decode {encoding : Encoding} {source : String}
    (h : encoding.decode source = .ok m) : m.Numbered := by
  -- both decoders number what they have read
  have hof : ∃ name types, m = ofTypes name types := by
    cases encoding with
    | text =>
      simp only [Encoding.decode] at h
      split at h
      · next heq =>
        cases h
        exact exists_ofTypes_of_parse (congrArg Parsed.module? heq)
      · cases h
    | json =>
      simp only [Encoding.decode, ofJson] at h
      cases hd : Decoder.module.decode source with
      | error e => rw [hd] at h; cases h
      | ok decoded => rw [hd] at h; cases h; exact ⟨decoded.name, decoded.types, rfl⟩
  obtain ⟨name, types, rfl⟩ := hof
  exact numbered_ofTypes name types

end Module

end AdviceWeaving
