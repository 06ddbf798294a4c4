import AdviceWeaving.Proofs.Walking
import AdviceWeaving.Proofs.Lockstep

/-!
# Types without markers

A type that is unmarked has lost the marker of a marker type, and its methods have lost the markers of advice.
`Module.unmarked` takes the markers of some types away.  That changes nothing but attributes: whatever a pass does to
bodies and to the other types, it may do before or after (`Module.setBody_unmarked`,
`Module.updateType_unmarked_of_not_mem`, `Module.pushMethod_unmarked`), it finds the same targets
(`Module.targets_unmarked`), and what it reads from an unmarked type is gone already
(`Module.updateType_unmarked_of_mem`).
-/

namespace AdviceWeaving

/-- The type without the markers that a pass would read. -/
def TypeDecl.unmarked (names : MarkerNames) (t : TypeDecl) : TypeDecl :=
  { t with
    attributes := strip t.attributes names.injection
    methods := t.methods.map (Weaving.swept names) }

/-- The type, without markers if its identifier is one of the given. -/
def TypeDecl.unmarkedIn (names : MarkerNames) (ids : List TypeId) (t : TypeDecl) : TypeDecl :=
  if t.id ∈ ids then t.unmarked names else t

/-- The module in which the types with the given identifiers have lost their markers. -/
def Module.unmarked (m : Module) (names : MarkerNames) (ids : List TypeId) : Module :=
  { m with types := m.types.map (·.unmarkedIn names ids) }

/-- A method of the type `t`, without markers if the type is to lose them. -/
def Method.unmarkedIn (names : MarkerNames) (ids : List TypeId) (t : TypeDecl) (x : Method) : Method :=
  if t.id ∈ ids then Weaving.swept names x else x

section

variable {names : MarkerNames} {ids : List TypeId}

/-! ### Methods and types -/

namespace Method

variable {t : TypeDecl} {x : Method}

@[simp] theorem id_unmarkedIn : (x.unmarkedIn names ids t).id = x.id := by
  unfold unmarkedIn; split <;> rfl

@[simp] theorem body_unmarkedIn : (x.unmarkedIn names ids t).body = x.body := by
  unfold unmarkedIn; split <;> rfl

/-- Only attributes and parameters of a method carry markers. -/
private theorem target_unmarkedIn (owner : TypeDecl) :
    (x.unmarkedIn names ids t).target owner = x.target owner := by
  unfold unmarkedIn; split <;> rfl

/-- The markers of advice are no markers that name a marker type of another name. -/
private theorem hasAttribute_unmarkedIn {marker : String} (h : marker ≠ names.rise) :
    hasAttribute (x.unmarkedIn names ids t).attributes marker = hasAttribute x.attributes marker := by
  unfold unmarkedIn
  split
  · simp only [Weaving.swept, hasAttribute, strip, List.any_filter]
    congr 1
    funext a
    by_cases ha : a.name = marker <;> simp [ha, h]
  · rfl

end Method

namespace TypeDecl

variable {t : TypeDecl}

@[simp] theorem id_unmarkedIn : (t.unmarkedIn names ids).id = t.id := by
  unfold unmarkedIn; split <;> rfl

@[simp] theorem name_unmarkedIn : (t.unmarkedIn names ids).name = t.name := by
  unfold unmarkedIn; split <;> rfl

@[simp] theorem fields_unmarkedIn : (t.unmarkedIn names ids).fields = t.fields := by
  unfold unmarkedIn; split <;> rfl

@[simp] theorem properties_unmarkedIn : (t.unmarkedIn names ids).properties = t.properties := by
  unfold unmarkedIn; split <;> rfl

private theorem methods_unmarkedIn :
    (t.unmarkedIn names ids).methods = t.methods.map (·.unmarkedIn names ids t) := by
  unfold unmarkedIn Method.unmarkedIn
  split
  · rfl
  · exact (List.map_id' t.methods).symm

private theorem unmarkedIn_of_not_mem (h : t.id ∉ ids) : t.unmarkedIn names ids = t := by
  unfold unmarkedIn; rw [if_neg h]

end TypeDecl

/-! ### Looking up in an unmarked module -/

namespace Module

variable {m : Module}

@[simp] theorem ids_unmarked : (m.unmarked names ids).ids = m.ids := rfl

theorem type?_unmarked (id : TypeId) :
    (m.unmarked names ids).type? id = (m.type? id).map (·.unmarkedIn names ids) := by
  rw [type?, unmarked, List.find?_map]
  simp only [Function.comp_def, TypeDecl.id_unmarkedIn]
  rfl

theorem type?_unmarked_of_not_mem {id : TypeId} (h : id ∉ ids) :
    (m.unmarked names ids).type? id = m.type? id := by
  rw [type?_unmarked]
  cases ht : m.type? id with
  | none => rfl
  | some t => rw [Option.map_some, TypeDecl.unmarkedIn_of_not_mem (id_of_type? ht ▸ h)]

private theorem methods_unmarked :
    (m.unmarked names ids).methods =
      m.methods.map fun p => (p.1.unmarkedIn names ids, p.2.unmarkedIn names ids p.1) := by
  simp only [methods, unmarked, List.flatMap_map, List.map_flatMap, TypeDecl.methods_unmarkedIn,
    List.map_map, Function.comp_def]

theorem method?_unmarked (id : MethodId) :
    (m.unmarked names ids).method? id =
      (m.method? id).map fun p => (p.1.unmarkedIn names ids, p.2.unmarkedIn names ids p.1) := by
  rw [method?, methods_unmarked, List.find?_map]
  simp only [Function.comp_def, Method.id_unmarkedIn]
  rfl

theorem body?_unmarked (id : MethodId) : (m.unmarked names ids).body? id = m.body? id := by
  rw [body?, body?, method?_unmarked]
  cases m.method? id with
  | none => rfl
  | some p => exact Method.body_unmarkedIn

private theorem carriers_unmarked {marker : String} (h : marker ≠ names.rise) :
    (m.unmarked names ids).carriers marker =
      (m.carriers marker).map fun p => (p.1.unmarkedIn names ids, p.2.unmarkedIn names ids p.1) := by
  rw [carriers, methods_unmarked, List.filter_map]
  simp only [Function.comp_def, Method.hasAttribute_unmarkedIn h]
  rfl

/-- The targets of a marker type stay, if it is not named like the markers of advice. -/
theorem targets_unmarked {marker : String} (h : marker ≠ names.rise) :
    (m.unmarked names ids).targets marker = m.targets marker := by
  have htarget (p : TypeDecl × Method) :
      (p.2.unmarkedIn names ids p.1).target (p.1.unmarkedIn names ids) = p.2.target p.1 := by
    rw [Method.target_unmarkedIn, Method.target, TypeDecl.name_unmarkedIn]
    rfl
  rw [targets, carriers_unmarked h, List.filter_map, List.map_map]
  simp only [Function.comp_def, Method.body_unmarkedIn]
  exact List.map_congr_left fun p _ => htarget p

theorem bodylessWarnings_unmarked {marker : String} (h : marker ≠ names.rise) :
    (m.unmarked names ids).bodylessWarnings marker = m.bodylessWarnings marker := by
  have hwarning (p : TypeDecl × Method) :
      bodylessWarning marker (p.1.unmarkedIn names ids) (p.2.unmarkedIn names ids p.1) =
        bodylessWarning marker p.1 p.2 := by
    rw [bodylessWarning, TypeDecl.name_unmarkedIn,
      show (p.2.unmarkedIn names ids p.1).name = p.2.name by unfold Method.unmarkedIn; split <;> rfl]
    rfl
  rw [bodylessWarnings, carriers_unmarked h, List.filter_map, List.map_map]
  simp only [Function.comp_def, Method.body_unmarkedIn]
  exact List.map_congr_left fun p _ => hwarning p

theorem Numbered.unmarked (h : m.Numbered) (names : MarkerNames) (ids : List TypeId) :
    (m.unmarked names ids).Numbered := by
  have htypes : (m.unmarked names ids).types.map (·.id) = m.types.map (·.id) := by
    simp [Module.unmarked, Function.comp_def]
  have hmethods : methodIds (m.unmarked names ids).types = methodIds m.types := by
    rw [← map_id_methods, methods_unmarked, List.map_map, ← map_id_methods]
    simp [Function.comp_def]
  refine ⟨htypes ▸ h.types_nodup, hmethods ▸ h.methods_nodup, fun t ht => ?_, hmethods ▸ h.methods_lt⟩
  obtain ⟨t', ht', rfl⟩ := List.mem_map.1 ht
  rw [TypeDecl.id_unmarkedIn]
  exact h.types_lt t' ht'

/-- To change the element that is found first, before or after all elements are exchanged. -/
private theorem modify_findIdx_map {α : Type} {l : List α} {p : α → Bool} {f f' g : α → α}
    (hp : ∀ a, p (g a) = p a) (h : ∀ a ∈ l, p a → f (g a) = g (f' a)) :
    (l.map g).modify ((l.map g).findIdx p) f = (l.modify (l.findIdx p) f').map g := by
  induction l with
  | nil => rfl
  | cons a l ih =>
    rw [List.map_cons, List.findIdx_cons, List.findIdx_cons, hp]
    cases ha : p a with
    | true => simp [h a List.mem_cons_self ha]
    | false => simpa [List.findIdx_map] using ih fun b hb => h b (List.mem_cons_of_mem a hb)

/-- A change of a method that does not touch markers. -/
theorem updateMethod_unmarked (id : MethodId) {f : Method → Method}
    (h : ∀ x, f (Weaving.swept names x) = Weaving.swept names (f x)) :
    (m.unmarked names ids).updateMethod id f = (m.updateMethod id f).unmarked names ids := by
  have hx (t : TypeDecl) (x : Method) : f (x.unmarkedIn names ids t) = (f x).unmarkedIn names ids t := by
    unfold Method.unmarkedIn
    split
    · exact h x
    · rfl
  simp only [updateMethod, unmarked, Module.mk.injEq, true_and, and_true]
  refine modify_findIdx_map (fun t => ?_) fun t _ _ => ?_
  · simp [TypeDecl.methods_unmarkedIn, Function.comp_def]
  · have hmethods := @modify_findIdx_map _ t.methods (fun x => x.id = id) f f
      (·.unmarkedIn names ids t) (fun x => by rw [Method.id_unmarkedIn]) fun x _ _ => hx t x
    rw [TypeDecl.methods_unmarkedIn, hmethods]
    unfold TypeDecl.unmarkedIn Method.unmarkedIn
    split
    · rfl
    · rw [List.map_id']

theorem setBody_unmarked (id : MethodId) (body : Body) :
    (m.unmarked names ids).setBody id body = (m.setBody id body).unmarked names ids :=
  updateMethod_unmarked id fun _ => rfl

/-- A change of a type that keeps its markers. -/
theorem updateType_unmarked_of_not_mem {owner : TypeId} (h : owner ∉ ids) {f : TypeDecl → TypeDecl}
    (hf : ∀ t, t.id = owner → (f t).id = owner) :
    (m.unmarked names ids).updateType owner f = (m.updateType owner f).unmarked names ids := by
  simp only [updateType, unmarked, Module.mk.injEq, true_and, and_true]
  refine modify_findIdx_map (fun t => by rw [TypeDecl.id_unmarkedIn]) fun t _ ht => ?_
  obtain rfl : t.id = owner := by simpa using ht
  rw [TypeDecl.unmarkedIn_of_not_mem h, TypeDecl.unmarkedIn_of_not_mem (by rwa [hf t rfl])]

theorem pushMethod_unmarked {owner : TypeId} (h : owner ∉ ids) (x : Method) :
    (m.unmarked names ids).pushMethod owner x =
      (m.pushMethod owner x).map fun p => (p.1.unmarked names ids, p.2) := by
  unfold pushMethod
  rw [type?_unmarked_of_not_mem h]
  split
  · simp only [IdSupply.takeMethod, ids_unmarked, Option.map_some, Option.some.injEq, Prod.mk.injEq,
      and_true]
    rw [updateType_unmarked_of_not_mem h
      (f := fun t => { t with methods := t.methods ++ [{ x with id := ⟨m.ids.nextMethod⟩ }] })
      fun _ hid => hid]
    rfl
  · rfl

end Module

end

end AdviceWeaving
