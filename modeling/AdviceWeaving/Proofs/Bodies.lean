import AdviceWeaving.Proofs.Outline

/-!
# Modules up to their bodies

A pass changes bodies, and reads little of them: all it asks of a method is whether there is a body.
So a module of a pass is best seen as a module with other bodies (`Module.withBodies`), and what the
pass does apart from its splices is the same with any bodies: to look up types and methods, to find
targets, to read markers and to remove them.
-/

namespace AdviceWeaving

/-! ### Other bodies -/

/-- The method with another body, if it has one. -/
def Method.withBody (x : Method) (body : Body) : Method :=
  { x with body := x.body.map fun _ => body }

/-- The type with other bodies. -/
def TypeDecl.withBodies (t : TypeDecl) (bodies : MethodId → Body) : TypeDecl :=
  { t with methods := t.methods.map fun x => x.withBody (bodies x.id) }

/-- The module with other bodies. -/
def Module.withBodies (m : Module) (bodies : MethodId → Body) : Module :=
  { m with types := m.types.map (·.withBodies bodies) }

/-! ### Methods -/

namespace Method

variable (x : Method) (b : Body)

@[simp] theorem withBody_id : (x.withBody b).id = x.id := rfl

@[simp] theorem withBody_name : (x.withBody b).name = x.name := rfl

@[simp] theorem withBody_attributes : (x.withBody b).attributes = x.attributes := rfl

@[simp] theorem withBody_params : (x.withBody b).params = x.params := rfl

@[simp] theorem withBody_body : (x.withBody b).body = x.body.map fun _ => b := rfl

@[simp] theorem isConstructor_withBody : (x.withBody b).isConstructor = x.isConstructor := rfl

@[simp] theorem countMarkers_withBody (names : MarkerNames) :
    (x.withBody b).countMarkers names = x.countMarkers names := rfl

@[simp] theorem constructs_withBody : (x.withBody b).constructs = x.constructs := by
  simp [constructs]

private theorem withBody_eq_self (h : ∀ b', x.body = some b' → b' = b) : x.withBody b = x := by
  rcases x with ⟨_, _, _, _, _, _, _, _ | b'⟩
  · rfl
  · obtain rfl := h b' rfl
    rfl

private theorem prologue_withBody (code : List Instruction) :
    (x.withBody b).prologue code =
      x.withBody (if x.constructs then b.splice 0 code .displaced else b) := by
  by_cases hc : x.isConstructor
  · rw [prologue, if_pos (show (x.withBody b).isConstructor from hc)]
    cases hbody : x.body <;> simp [constructs, withBody, hc, hbody]
  · rw [prologue, if_neg (show ¬ (x.withBody b).isConstructor from hc)]
    simp [constructs, hc]

theorem swept_withBody (names : MarkerNames) :
    Weaving.swept names (x.withBody b) = (Weaving.swept names x).withBody b := rfl

private theorem scan_withBody (names : MarkerNames) (owner : String) :
    (x.withBody b).scan names owner =
      ((x.scan names owner).1, (x.scan names owner).2.withBody b) := by
  unfold scan
  rw [show (x.withBody b).timing names = x.timing names from rfl]
  cases x.timing names <;> rfl

private theorem scan_id (names : MarkerNames) (owner : String) : (x.scan names owner).2.id = x.id := by
  unfold scan
  cases x.timing names <;> rfl

end Method

/-! ### Types -/

namespace TypeDecl

/-- The identifiers of the constructors that have a body. -/
def constructorIds (t : TypeDecl) : List MethodId :=
  (t.methods.filter (·.constructs)).map (·.id)

variable (t : TypeDecl) (bodies : MethodId → Body)

@[simp] theorem withBodies_id : (t.withBodies bodies).id = t.id := rfl

@[simp] theorem withBodies_name : (t.withBodies bodies).name = t.name := rfl

@[simp] theorem withBodies_fields : (t.withBodies bodies).fields = t.fields := rfl

@[simp] theorem withBodies_methods :
    (t.withBodies bodies).methods = t.methods.map fun x => x.withBody (bodies x.id) := rfl

@[simp] theorem constructorIds_withBodies :
    (t.withBodies bodies).constructorIds = t.constructorIds := by
  simp [constructorIds, List.filter_map, Function.comp_def]

theorem method?_withBodies (name : String) :
    (t.withBodies bodies).method? name =
      (t.method? name).map fun x => x.withBody (bodies x.id) := by
  rw [method?, withBodies_methods, List.find?_map]
  rfl

private theorem scanMethods_withBody (names : MarkerNames) (owner : String) (methods : List Method) :
    scanMethods names owner (methods.map fun x => x.withBody (bodies x.id)) =
      let scanned := scanMethods names owner methods
      { scanned with rest := scanned.rest.map fun x => x.withBody (bodies x.id) } := by
  induction methods with
  | nil => rfl
  | cons x methods ih =>
    simp only [List.map_cons, scanMethods, Method.withBody_attributes, ih]
    split
    · rw [Method.scan_withBody]
      have hid := x.scan_id names owner
      rcases hscan : x.scan names owner with ⟨_ | advice, rest⟩
      · rw [hscan] at hid
        simp [← hid]
      · rw [hscan] at hid
        simp [← hid]
    · rfl

theorem scan_withBodies (names : MarkerNames) :
    (t.withBodies bodies).scan names =
      let scanned := t.scan names
      { scanned with rest := scanned.rest.withBodies bodies } := by
  unfold scan
  split
  · next h =>
    rw [if_pos (show hasAttribute t.attributes names.injection from h)]
    simp [withBodies, scanMethods_withBody]
  · next h => rw [if_neg (show ¬ hasAttribute t.attributes names.injection from h)]

end TypeDecl

/-! ### Modules -/

namespace Module

variable {m : Module} {bodies : MethodId → Body}

@[simp] theorem withBodies_ids : (m.withBodies bodies).ids = m.ids := rfl

@[simp] theorem withBodies_types :
    (m.withBodies bodies).types = m.types.map (·.withBodies bodies) := rfl

theorem methods_withBodies :
    (m.withBodies bodies).methods =
      m.methods.map fun p => (p.1.withBodies bodies, p.2.withBody (bodies p.2.id)) := by
  simp [methods, List.flatMap_map, List.map_flatMap, Function.comp_def]

@[simp] theorem methodIds_withBodies :
    methodIds (m.withBodies bodies).types = methodIds m.types := by
  simp [methodIds, List.flatMap_map, Function.comp_def]

theorem Numbered.withBodies (h : m.Numbered) (bodies : MethodId → Body) :
    (m.withBodies bodies).Numbered := by
  refine ⟨?_, ?_, ?_, ?_⟩
  · simpa [Function.comp_def] using h.types_nodup
  · simpa only [methodIds_withBodies] using h.methods_nodup
  · simpa using h.types_lt
  · simpa only [methodIds_withBodies, withBodies_ids] using h.methods_lt

theorem type?_withBodies (id : TypeId) :
    (m.withBodies bodies).type? id = (m.type? id).map (·.withBodies bodies) := by
  rw [type?, withBodies_types, List.find?_map]
  rfl

theorem method?_withBodies (id : MethodId) :
    (m.withBodies bodies).method? id =
      (m.method? id).map fun p => (p.1.withBodies bodies, p.2.withBody (bodies p.2.id)) := by
  rw [method?, methods_withBodies, List.find?_map]
  rfl

theorem id_of_method? {id : MethodId} {p : TypeDecl × Method} (h : m.method? id = some p) :
    p.2.id = id := by
  simpa using List.find?_some h

theorem body?_withBodies (id : MethodId) :
    (m.withBodies bodies).body? id = (m.body? id).map fun _ => bodies id := by
  rw [body?, body?, method?_withBodies]
  cases h : m.method? id with
  | none => rfl
  | some p => simp [id_of_method? h]

theorem targets_withBodies (marker : String) :
    (m.withBodies bodies).targets marker = m.targets marker := by
  simp [targets, carriers, methods_withBodies, List.filter_map, Function.comp_def]
  exact fun _ _ _ _ _ => ⟨rfl, rfl⟩

theorem Numbered.body?_eq_some_iff (h : m.Numbered) {id : MethodId} {b : Body} :
    m.body? id = some b ↔ ∃ t x, (t, x) ∈ m.methods ∧ x.id = id ∧ x.body = some b := by
  simp only [body?, Option.bind_eq_some_iff, Prod.exists, h.method?_eq_some_iff, and_assoc]

/-- A method stands in a module once. -/
theorem Numbered.eq_of_id_eq (h : m.Numbered) {p q : TypeDecl × Method} (hp : p ∈ m.methods)
    (hq : q ∈ m.methods) (hid : p.2.id = q.2.id) : p = q :=
  Option.some.inj
    ((h.method?_eq_some_iff.2 ⟨hp, hid⟩).symm.trans (h.method?_eq_some_iff.2 ⟨hq, rfl⟩))

theorem Numbered.lt_of_body? (h : m.Numbered) {id : MethodId} {b : Body}
    (hb : m.body? id = some b) : id.index < m.ids.nextMethod := by
  obtain ⟨t, x, hx, rfl, _⟩ := h.body?_eq_some_iff.1 hb
  obtain ⟨ht, hx⟩ := mem_methods.1 hx
  exact h.methods_lt _ (mem_methodIds.2 ⟨t, ht, x, hx, rfl⟩)

/-! ### Changes to a module with other bodies -/

theorem mapMethods_congr {f g : TypeDecl → Method → Method}
    (h : ∀ p ∈ m.methods, f p.1 p.2 = g p.1 p.2) : m.mapMethods f = m.mapMethods g := by
  unfold mapMethods
  congr 1
  apply List.map_congr_left
  intro t ht
  congr 1
  exact List.map_congr_left fun x hx => h (t, x) (mem_methods.2 ⟨ht, hx⟩)

theorem mapMethods_id : m.mapMethods (fun _ x => x) = m := by
  simp [mapMethods]

private theorem withBodies_eq_mapMethods :
    m.withBodies bodies = m.mapMethods fun _ x => x.withBody (bodies x.id) := rfl

/-- Only the bodies of methods that have one matter. -/
theorem Numbered.withBodies_congr (h : m.Numbered) {bodies' : MethodId → Body}
    (heq : ∀ id, (m.body? id).isSome → bodies id = bodies' id) :
    m.withBodies bodies = m.withBodies bodies' := by
  refine mapMethods_congr fun p hp => ?_
  cases hb : p.2.body with
  | none => simp [Method.withBody, hb]
  | some b =>
    rw [heq p.2.id]
    rw [h.body?_eq_some_iff.2 ⟨p.1, p.2, hp, rfl, hb⟩]
    rfl

theorem Numbered.withBodies_self (h : m.Numbered) :
    m.withBodies (fun id => (m.body? id).getD default) = m := by
  refine (mapMethods_congr fun p hp => ?_).trans mapMethods_id
  apply Method.withBody_eq_self
  intro b hb
  show b = (m.body? p.2.id).getD default
  rw [h.body?_eq_some_iff.2 ⟨p.1, p.2, hp, rfl, hb⟩]
  rfl

theorem updateType_withBodies (id : TypeId) {f g : TypeDecl → TypeDecl}
    (h : ∀ t ∈ m.types, f (t.withBodies bodies) = (g t).withBodies bodies) :
    (m.withBodies bodies).updateType id f = (m.updateType id g).withBodies bodies := by
  have hmodify (types : List TypeDecl) (n : Nat)
      (h : ∀ t ∈ types, f (t.withBodies bodies) = (g t).withBodies bodies) :
      (types.map (·.withBodies bodies)).modify n f =
        (types.modify n g).map (·.withBodies bodies) := by
    induction types generalizing n with
    | nil => simp
    | cons t types ih =>
      cases n with
      | zero => simp [h t List.mem_cons_self]
      | succ n => simp [ih n fun t ht => h t (List.mem_cons_of_mem _ ht)]
  rw [updateType, withBodies_types, List.findIdx_map, hmodify m.types _ h]
  rfl

theorem mapMethods_withBodies {f g : TypeDecl → Method → Method}
    (h : ∀ t x, f (t.withBodies bodies) (x.withBody (bodies x.id)) =
      (g t x).withBody (bodies (g t x).id)) :
    (m.withBodies bodies).mapMethods f = (m.mapMethods g).withBodies bodies := by
  simp [mapMethods, withBodies, TypeDecl.withBodies, Function.comp_def, ← h]

/-- To set a body is to exchange one body. -/
theorem Numbered.setBody_withBodies (h : m.Numbered) {id : MethodId} (hid : (m.body? id).isSome)
    (b : Body) :
    (m.withBodies bodies).setBody id b = m.withBodies (Function.update bodies id b) := by
  have hcomp (f g : Method → Method) :
      (m.mapMethods fun _ x => f x).mapMethods (fun _ x => g x) =
        m.mapMethods fun _ x => g (f x) := by
    simp [mapMethods, Function.comp_def]
  rw [setBody, (h.withBodies bodies).updateMethod_eq, withBodies_eq_mapMethods,
    withBodies_eq_mapMethods, hcomp]
  refine mapMethods_congr fun p hp => ?_
  by_cases hx : p.2.id = id
  · obtain ⟨b', hb'⟩ := Option.isSome_iff_exists.1 hid
    obtain ⟨t, x, hmem, hxid, hbody⟩ := h.body?_eq_some_iff.1 hb'
    obtain rfl := h.eq_of_id_eq hmem hp (hxid.trans hx.symm)
    subst hxid
    simp [Method.withBody, hbody]
  · simp [hx]

theorem pushMethod_withBodies (owner : TypeId) {x : Method}
    (hx : x.body = some (bodies ⟨m.ids.nextMethod⟩)) :
    (m.withBodies bodies).pushMethod owner x =
      (m.pushMethod owner x).map fun p => (p.1.withBodies bodies, p.2) := by
  have hid : ({ x with id := ⟨m.ids.nextMethod⟩ } : Method).withBody (bodies ⟨m.ids.nextMethod⟩) =
      { x with id := ⟨m.ids.nextMethod⟩ } := by
    refine Method.withBody_eq_self _ _ fun b hb => ?_
    have hb : x.body = some b := hb
    exact Option.some.inj (hb.symm.trans hx)
  unfold pushMethod
  rw [type?_withBodies]
  simp only [Option.isSome_map]
  split
  · simp only [IdSupply.takeMethod, withBodies_ids, Option.map_some]
    rw [updateType_withBodies owner (g := fun t =>
      { t with methods := t.methods ++ [{ x with id := ⟨m.ids.nextMethod⟩ }] })]
    · rfl
    · intro t _
      simp [TypeDecl.withBodies, hid]
  · rfl

/-- Code in front of the constructors of a type changes their bodies only. -/
theorem Numbered.prologue_withBodies (h : m.Numbered) {id : TypeId} {t : TypeDecl}
    (ht : m.type? id = some t) (code : List Instruction) :
    ((m.withBodies bodies).updateType id fun t =>
      { t with methods := t.methods.map (·.prologue code) }) =
      m.withBodies fun k =>
        if k ∈ t.constructorIds then (bodies k).splice 0 code .displaced else bodies k := by
  obtain ⟨hin, rfl⟩ := h.type?_eq_some_iff.1 ht
  -- the constructors with these identifiers stand in `t` only
  have hmem : ∀ t' ∈ m.types, ∀ x ∈ t'.methods,
      x.id ∈ t.constructorIds ↔ t' = t ∧ x.constructs := by
    intro t' ht' x hx
    simp only [TypeDecl.constructorIds, List.mem_map, List.mem_filter]
    constructor
    · rintro ⟨y, ⟨hy, hc⟩, hid⟩
      cases h.eq_of_id_eq (mem_methods.2 ⟨hin, hy⟩) (mem_methods.2 ⟨ht', hx⟩) hid
      exact ⟨rfl, hc⟩
    · rintro ⟨rfl, hc⟩
      exact ⟨x, ⟨hx, hc⟩, rfl⟩
  rw [(h.withBodies bodies).updateType_eq]
  simp only [withBodies_types, List.map_map]
  unfold Module.withBodies
  congr 1
  apply List.map_congr_left
  intro t' ht'
  by_cases hid : t'.id = t.id
  · obtain rfl : t' = t := Option.some.inj ((h.type?_eq_some_iff.2 ⟨ht', hid⟩).symm.trans ht)
    rw [Function.comp_apply, if_pos (t'.withBodies_id bodies)]
    simp only [TypeDecl.withBodies, List.map_map]
    congr 1
    apply List.map_congr_left
    intro x hx
    rw [Function.comp_apply, Method.prologue_withBody]
    simp [hmem t' ht' x hx]
  · rw [Function.comp_apply, if_neg (show (t'.withBodies bodies).id ≠ t.id from hid)]
    simp only [TypeDecl.withBodies]
    congr 1
    apply List.map_congr_left
    intro x hx
    have : x.id ∉ t.constructorIds := by
      rw [hmem t' ht' x hx]
      rintro ⟨rfl, _⟩
      exact hid rfl
    simp [this]

end Module

end AdviceWeaving
