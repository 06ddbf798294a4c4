import AdviceWeaving.Proofs.Following
import AdviceWeaving.Proofs.Reached
import AdviceWeaving.Proofs.Growth
import AdviceWeaving.Proofs.Stripping

/-!
# What a pass takes away

A pass takes attributes away where it reads a marker type and where it sweeps a method, and adds to the tally how many
it takes.  It takes them from what the module had at first: the methods that it makes carry one attribute each, which
is no marker (`Module.Hides`).  So the attributes that are left of those of the module, and those that the tally counts
as removed, are together as many as there were (`Workspace.Strips`).  Injection leaves the attributes as they are
(`Outline.attributesOf_enlist`), the other two steps keep the equation (`Weaving.strips_weaveType`,
`Weaving.keeps_sweepMethod_strips`).
-/

namespace AdviceWeaving

/-! ### The attributes of a module -/

/-- The attributes of a type, of its fields and properties, and of those methods that have one of the identifiers. -/
def TypeDecl.attributesOf (ids : List MethodId) (t : TypeDecl) : List Attribute :=
  t.attributes ++ t.fields.flatMap (·.attributes) ++ t.properties.flatMap (·.attributes) ++
    (t.methods.filter (·.id ∈ ids)).flatMap (·.allAttributes)

namespace Module

/-- All attributes of a module. -/
def allAttributes (m : Module) : List Attribute :=
  m.types.flatMap (·.allAttributes)

/-- The attributes of a module, but for those of methods with other identifiers. -/
def attributesOf (m : Module) (ids : List MethodId) : List Attribute :=
  m.types.flatMap (·.attributesOf ids)

end Module

/-- The only attribute of a method with another identifier is that of a hidden method. -/
def TypeDecl.Hides (t : TypeDecl) (ids : List MethodId) : Prop :=
  ∀ x ∈ t.methods, x.id ∉ ids → x.allAttributes = [{ name := debuggerHiddenName }]

def Module.Hides (m : Module) (ids : List MethodId) : Prop :=
  ∀ t ∈ m.types, t.Hides ids

section

variable {ids : List MethodId} {m : Module} {t t' : TypeDecl}

private theorem TypeDecl.attributesOf_eq (h : ∀ x ∈ t.methods, x.id ∈ ids) : t.attributesOf ids = t.allAttributes := by
  rw [attributesOf, List.filter_eq_self.2 (by simpa using h)]
  rfl

private theorem Module.attributesOf_self (m : Module) : m.attributesOf (methodIds m.types) = m.allAttributes :=
  List.flatMap_congr fun t ht => t.attributesOf_eq fun x hx => mem_methodIds.2 ⟨t, ht, x, hx, rfl⟩

private theorem Module.hides_self (m : Module) : m.Hides (methodIds m.types) :=
  fun t ht x hx hid => absurd (mem_methodIds.2 ⟨t, ht, x, hx, rfl⟩) hid

private theorem TypeDecl.attributesOf_withBodies (t : TypeDecl) (bodies : MethodId → Body) :
    (t.withBodies bodies).attributesOf ids = t.attributesOf ids := by
  simp only [attributesOf, withBodies_methods, List.filter_map, List.flatMap_map]
  rfl

private theorem Module.attributesOf_withBodies (m : Module) (bodies : MethodId → Body) :
    (m.withBodies bodies).attributesOf ids = m.attributesOf ids := by
  simp only [attributesOf, withBodies_types, List.flatMap_map, TypeDecl.attributesOf_withBodies]

private theorem Module.hides_withBodies_iff {bodies : MethodId → Body} :
    (m.withBodies bodies).Hides ids ↔ m.Hides ids := by
  simp only [Hides, TypeDecl.Hides, withBodies_types, List.forall_mem_map, TypeDecl.withBodies_methods]
  rfl

/-- The attributes of a type stand somewhere, and to put another one in its place is to put its attributes there. -/
private theorem Module.exists_attributesOf_put {id : TypeId} (ht : m.type? id = some t) (ids : List MethodId) :
    ∃ front back, m.attributesOf ids = front ++ (t.attributesOf ids ++ back) ∧
      ∀ t' : TypeDecl, t'.id = id → (m.put t').attributesOf ids = front ++ (t'.attributesOf ids ++ back) := by
  obtain ⟨front, back, htypes, -, hput⟩ := exists_put_eq ht
  refine ⟨front.flatMap (·.attributesOf ids), back.flatMap (·.attributesOf ids), ?_, fun t' hid => ?_⟩
  · simp only [attributesOf, htypes, List.flatMap_append, List.flatMap_cons]
  · simp only [attributesOf, hput t' hid, List.flatMap_append, List.flatMap_cons]

private theorem Module.attributesOf_put {id : TypeId} (ht : m.type? id = some t) (hid : t'.id = id)
    (h : t'.attributesOf ids = t.attributesOf ids) : (m.put t').attributesOf ids = m.attributesOf ids := by
  obtain ⟨front, back, hm, hput⟩ := exists_attributesOf_put ht ids
  rw [hput t' hid, hm, h]

private theorem Module.Hides.put (hm : m.Hides ids) {id : TypeId} (ht : m.type? id = some t) (hid : t'.id = id)
    (h : t'.Hides ids) : (m.put t').Hides ids := by
  obtain ⟨front, back, htypes, -, hput⟩ := exists_put_eq ht
  rw [Hides, htypes] at hm
  rw [Hides, hput t' hid]
  simp only [List.forall_mem_append, List.forall_mem_cons] at hm ⊢
  exact ⟨hm.1, h, hm.2.2⟩

/-- The attributes of a method stand somewhere, and to change the method is to change them there. -/
private theorem Module.exists_attributesOf_updateMethod {id : MethodId} {x : Method} (hx : m.method? id = some (t, x))
    (hid : x.id ∈ ids) :
    ∃ front back, m.attributesOf ids = front ++ (x.allAttributes ++ back) ∧
      ∀ f : Method → Method, (f x).id = x.id →
        (m.updateMethod id f).attributesOf ids = front ++ ((f x).allAttributes ++ back) := by
  obtain ⟨front, back, before, after, htypes, hmethods, -, -, hupdate⟩ := exists_updateMethod_eq hx
  let outside := t.attributes ++ t.fields.flatMap (·.attributes) ++ t.properties.flatMap (·.attributes)
  refine ⟨front.flatMap (·.attributesOf ids) ++ outside ++ (before.filter (·.id ∈ ids)).flatMap (·.allAttributes),
    (after.filter (·.id ∈ ids)).flatMap (·.allAttributes) ++ back.flatMap (·.attributesOf ids), ?_, fun f hf => ?_⟩
  · simp [attributesOf, htypes, TypeDecl.attributesOf, hmethods, hid, outside]
  · simp [attributesOf, hupdate, TypeDecl.attributesOf, hf, hid, outside]

private theorem Module.Hides.updateMethod (hm : m.Hides ids) {id : MethodId} {x : Method}
    (hx : m.method? id = some (t, x))
    {f : Method → Method} (hf : (f x).id ∈ ids) : (m.updateMethod id f).Hides ids := by
  obtain ⟨front, back, before, after, htypes, hmethods, -, -, hupdate⟩ := exists_updateMethod_eq hx
  rw [Hides, htypes] at hm
  rw [Hides, hupdate]
  simp only [List.forall_mem_append, List.forall_mem_cons, TypeDecl.Hides, hmethods] at hm ⊢
  exact ⟨hm.1, ⟨hm.2.1.1, fun hid => absurd hf hid, hm.2.1.2.2⟩, hm.2.2⟩

/-! ### Names -/

/-- The attribute of hidden methods is no marker. -/
private theorem qualified_ne (space : String) {name : String} (h : ¬ name.toList <:+ debuggerHiddenName.toList) :
    (if space.isEmpty then name else space ++ "." ++ name) ≠ debuggerHiddenName := by
  intro heq
  refine h ?_
  rw [← heq]
  split
  · exact List.suffix_rfl
  · rw [String.toList_append]
    exact List.suffix_append _ _

private theorem Method.countMarkers_of_hidden {x : Method} (h : x.allAttributes = [{ name := debuggerHiddenName }])
    (settings : Settings) : x.countMarkers settings.markers = 0 := by
  have hname : ∀ a ∈ x.attributes ++ x.params.flatMap (·.attributes), a.name = debuggerHiddenName := by
    intro a ha
    rw [show x.attributes ++ _ = _ from h] at ha
    rw [List.mem_singleton.1 ha]
  rw [List.forall_mem_append] at hname
  have hrise : settings.markers.rise ≠ debuggerHiddenName := qualified_ne settings.markerNamespace (by decide +kernel)
  have hargument : settings.markers.argument ≠ debuggerHiddenName :=
    qualified_ne settings.markerNamespace (by decide +kernel)
  rw [countMarkers, countAttribute, countAttribute, List.countP_eq_zero.2, List.countP_eq_zero.2]
  · intro a ha
    simpa [hname.2 a ha] using hargument.symm
  · intro a ha
    simpa [hname.1 a ha] using hrise.symm

/-! ### Steps -/

private theorem sublist_strip (attributes : List Attribute) (name : String) :
    (strip attributes name).Sublist attributes :=
  List.filter_sublist

private theorem Weaving.sublist_swept (names : MarkerNames) (x : Method) :
    (swept names x).allAttributes.Sublist x.allAttributes := by
  rw [allAttributes_swept]
  exact (sublist_strip _ _).append (sublist_strip _ _)

private theorem Method.sublist_cleared (names : MarkerNames) (x : Method) :
    (x.cleared names).allAttributes.Sublist x.allAttributes := by
  unfold cleared
  split
  · exact Weaving.sublist_swept names x
  · exact List.Sublist.refl _

private theorem TypeDecl.sublist_cleared (names : MarkerNames) (t : TypeDecl) :
    (t.cleared names).allAttributes.Sublist t.allAttributes := by
  have hmethods (methods : List Method) : ((methods.map (·.cleared names)).flatMap (·.allAttributes)).Sublist
      (methods.flatMap (·.allAttributes)) := by
    induction methods with
    | nil => exact List.Sublist.refl _
    | cons x methods ih => exact (x.sublist_cleared names).append ih
  exact (((sublist_strip _ _).append (List.Sublist.refl _)).append (List.Sublist.refl _)).append (hmethods t.methods)

/-- To read the markers of a type takes away as many attributes as it tells. -/
private theorem TypeDecl.scan_strips {names : MarkerNames} {marker? : Option MarkerType}
    (h : (t.scan names).declared = .ok marker?) :
    (t.scan names).rest.allAttributes.Sublist t.allAttributes ∧
      (t.scan names).rest.allAttributes.length + (t.scan names).stripped = t.allAttributes.length ∧
      (t.scan names).rest.methods.map (·.id) = t.methods.map (·.id) := by
  cases marker? with
  | none =>
    cases hmarked : hasAttribute t.attributes names.injection with
    | false =>
      rw [scan_of_not_hasAttribute hmarked]
      exact ⟨List.Sublist.refl _, rfl, rfl⟩
    | true =>
      obtain ⟨advice, hnone, -⟩ := (declared_eq_ok_iff hmarked).1 h
      cases hnone
  | some marker =>
    obtain ⟨hrest, hcount⟩ := scan_rest h
    have hid (x : Method) : (x.cleared names).id = x.id := by
      unfold Method.cleared
      split <;> rfl
    rw [hrest]
    exact ⟨t.sublist_cleared names, hcount, by simp [cleared, Function.comp_def, hid]⟩

/-! ### Hidden members -/

private theorem Module.attributesOf_addHandle (ht : m.type? t.id = some t) (hnew : ⟨m.ids.nextMethod⟩ ∉ ids)
    (storage : HandleStorage) :
    let m' := (m.addHandleField storage t).addInitializer storage t
    m'.attributesOf ids = m.attributesOf ids ∧ (m.Hides ids → m'.Hides ids) := by
  obtain ⟨field?, method?, _, heq, hfield, hmethod⟩ := exists_addHandle_eq ht storage
  let t' : TypeDecl := { t with fields := t.fields ++ field?.toList, methods := t.methods ++ method?.toList }
  have hsame : t'.attributesOf ids = t.attributesOf ids := by
    have hfields : field?.toList.flatMap (·.attributes) = [] := by
      refine List.flatMap_eq_nil_iff.2 fun f hf => ?_
      rw [hfield f (Option.mem_toList.1 hf)]
      rfl
    have hmethods : method?.toList.filter (·.id ∈ ids) = [] := by
      refine List.filter_eq_nil_iff.2 fun x hx => ?_
      rw [hmethod x (Option.mem_toList.1 hx)]
      simpa using hnew
    simp [t', TypeDecl.attributesOf, hfields, hmethods]
  rw [heq]
  refine ⟨attributesOf_put ht rfl hsame, fun h => (h.put ht rfl fun y hy hyids => ?_ : (m.put t').Hides ids)⟩
  rcases List.mem_append.1 hy with hy | hy
  · exact h t (List.mem_of_find?_eq_some ht) y hy hyids
  · rw [hmethod y (Option.mem_toList.1 hy)]
    rfl

/-- To note a marker type takes no attributes away. -/
theorem Outline.attributesOf_enlist {o : Outline} {settings : Settings} {marker : MarkerType}
    (hnew : ⟨o.module.ids.nextMethod⟩ ∉ ids) :
    (o.enlist settings marker).module.attributesOf ids = o.module.attributesOf ids ∧
      (o.module.Hides ids → (o.enlist settings marker).module.Hides ids) := by
  refine enlist_cases (motive := fun o' => o'.module.attributesOf ids = o.module.attributesOf ids ∧
    (o.module.Hides ids → o'.module.Hides ids)) ⟨rfl, id⟩ (fun _ _ => ⟨rfl, id⟩) fun t _ _ _ ht => ?_
  exact Module.attributesOf_addHandle ht hnew settings.handleStorage

/-! ### Passes -/

/-- What a pass over the module `m` has taken away, it has counted: of the attributes of `m` some are left, and as many
have been counted as are not left. -/
structure Workspace.Strips (w : Workspace) (m : Module) : Prop where
  kept : (w.module.attributesOf (methodIds m.types)).Sublist m.allAttributes
  stripped_eq : w.pass.tally.markersStripped + (w.module.attributesOf (methodIds m.types)).length =
    m.allAttributes.length
  hides : w.module.Hides (methodIds m.types)

theorem Workspace.strips_start (m : Module) (settings : Settings) :
    ({ pass := { settings }, module := m } : Workspace).Strips m where
  kept := by rw [m.attributesOf_self]
  stripped_eq := by rw [m.attributesOf_self, Nat.zero_add]
  hides := m.hides_self

/-- Attributes that are taken away in one place are counted. -/
private theorem Workspace.Strips.replace {w w' : Workspace} (h : w.Strips m) {front old new back : List Attribute}
    {n : Nat} (hold : w.module.attributesOf (methodIds m.types) = front ++ (old ++ back))
    (hnew : w'.module.attributesOf (methodIds m.types) = front ++ (new ++ back)) (hsublist : new.Sublist old)
    (hcount : new.length + n = old.length)
    (htally : w'.pass.tally.markersStripped = w.pass.tally.markersStripped + n)
    (hhides : w'.module.Hides (methodIds m.types)) : w'.Strips m where
  kept := by
    have hkept := h.kept
    rw [hold] at hkept
    rw [hnew]
    exact ((List.Sublist.refl front).append (hsublist.append (List.Sublist.refl back))).trans hkept
  stripped_eq := by
    have hstripped := h.stripped_eq
    rw [hold, List.length_append, List.length_append] at hstripped
    rw [hnew, List.length_append, List.length_append, htally]
    omega
  hides := hhides

/-- The sweep of a method counts what it takes away; a hidden method has nothing to take. -/
theorem Weaving.keeps_sweepMethod_strips (id : MethodId) : Step.Keeps (·.Strips m) (sweepMethod id) := by
  intro w h
  rcases run_sweepMethod w id with hrun | ⟨t, x, hx, hcount, hrun⟩ <;> rw [hrun]
  · exact h
  have hid : x.id ∈ methodIds m.types := by
    obtain ⟨ht, hxt⟩ := Module.mem_methods.1 (List.mem_of_find?_eq_some hx)
    by_contra hid
    exact hcount (Method.countMarkers_of_hidden (h.hides t ht x hxt hid) w.pass.settings)
  obtain ⟨front, back, hold, hupdate⟩ := Module.exists_attributesOf_updateMethod hx hid
  exact h.replace hold (hupdate _ rfl) (sublist_swept _ x) (length_allAttributes_swept _ x) rfl
    (h.hides.updateMethod hx hid)

/-- The hidden members of a marker type are new to the module. -/
private theorem Outline.Sound.next_not_mem {o : Outline} {settings : Settings} {visited : List TypeId}
    (h : o.Sound settings m visited) : ⟨o.module.ids.nextMethod⟩ ∉ methodIds m.types := by
  intro hmem
  rw [← Module.map_id_profiles, List.mem_map] at hmem
  obtain ⟨p, hp, hid⟩ := hmem
  have hmem : p.target.id ∈ methodIds o.module.types := by
    rw [← Module.map_id_profiles]
    exact List.mem_map_of_mem (h.kept p hp)
  have hlt := h.numbered.methods_lt _ hmem
  rw [hid] at hlt
  exact Nat.lt_irrefl _ hlt

private theorem Workspace.Follows.attributesOf_eq {w : Workspace} {settings : Settings} {o : Outline}
    {visited : List TypeId}
    (h : w.Follows settings m o visited) : w.module.attributesOf ids = o.module.attributesOf ids := by
  obtain ⟨handles, wrap, ⟨bodies, hholds⟩, -⟩ := h.at_outline
  rw [hholds.module_eq, Module.attributesOf_withBodies]

private theorem Workspace.Follows.hides_iff {w : Workspace} {settings : Settings} {o : Outline} {visited : List TypeId}
    (h : w.Follows settings m o visited) : w.module.Hides ids ↔ o.module.Hides ids := by
  obtain ⟨handles, wrap, ⟨bodies, hholds⟩, -⟩ := h.at_outline
  rw [hholds.module_eq, Module.hides_withBodies_iff]

/-- To weave a type takes no attributes away but those that are read. -/
private theorem Outline.Sound.attributesOf_weaveType {o : Outline} {settings : Settings} {visited : List TypeId}
    {id : TypeId}
    {marker? : Option MarkerType} (h : o.Sound settings m visited) (ht : o.module.type? id = some t)
    (hdeclared : (t.scan settings.markers).declared = .ok marker?) :
    let m₁ := o.module.put (t.scan settings.markers).rest
    (o.weaveType settings id).module.attributesOf (methodIds m.types) = m₁.attributesOf (methodIds m.types) ∧
      (m₁.Hides (methodIds m.types) → (o.weaveType settings id).module.Hides (methodIds m.types)) := by
  intro m₁
  have hput : (o.scanType settings id t).module = m₁ := Module.updateType_eq_put ht (t.scan_rest_id _)
  cases marker? with
  | none =>
    rw [weaveType_of_unmarked ht hdeclared, hput]
    exact ⟨rfl, fun h => h⟩
  | some marker =>
    rw [weaveType_of_marker ht hdeclared, ← hput]
    exact attributesOf_enlist h.next_not_mem

/-- The weaver counts what it takes away from a type when it first comes there. -/
theorem Weaving.strips_weaveType {w w₁ w' : Workspace} {o : Outline} {settings : Settings} {visited : List TypeId}
    {id : TypeId} {marker? : Option MarkerType} (h : w.Follows settings m o visited) (hid : id ∉ visited)
    (h' : w'.Follows settings m (o.weaveType settings id) (id :: visited)) (hstrips : w.Strips m)
    (hscan : Step.Yields (scan id) w marker? w₁)
    (htally : w'.pass.tally.markersStripped = w₁.pass.tally.markersStripped) : w'.Strips m := by
  obtain ⟨handles, wrap, ⟨bodies, hholds⟩, -⟩ := h.at_outline
  obtain ⟨t', ht', hdeclared, rfl⟩ := yields_scan_iff.1 hscan
  rw [hholds.module_eq, Module.type?_withBodies, Option.map_eq_some_iff] at ht'
  obtain ⟨t, ht, rfl⟩ := ht'
  rw [Workspace.markersStripped_scanned, hholds.settings_eq, TypeDecl.scan_withBodies] at htally
  rw [hholds.settings_eq, TypeDecl.scan_withBodies] at hdeclared
  obtain ⟨hsublist, hcount, hmethods⟩ := TypeDecl.scan_strips hdeclared
  obtain ⟨hattributes, hhides⟩ := h.sound.attributesOf_weaveType ht hdeclared
  -- the type has not been visited, so it has no hidden method
  have hin : t ∈ m.types := List.mem_of_find?_eq_some ((h.sound.untouched id hid).symm.trans ht)
  have hids : ∀ x ∈ t.methods, x.id ∈ methodIds m.types := fun x hx => Module.mem_methodIds.2 ⟨t, hin, x, hx, rfl⟩
  have hrest : ∀ x ∈ (t.scan settings.markers).rest.methods, x.id ∈ methodIds m.types := by
    intro x hx
    have hmem : x.id ∈ t.methods.map (·.id) := hmethods ▸ List.mem_map_of_mem hx
    obtain ⟨y, hy, hyid⟩ := List.mem_map.1 hmem
    exact hyid ▸ hids y hy
  have hid' : (t.scan settings.markers).rest.id = id := (t.scan_rest_id _).trans (Module.id_of_type? ht)
  obtain ⟨front, back, hold, hput⟩ := Module.exists_attributesOf_put ht (methodIds m.types)
  rw [TypeDecl.attributesOf_eq hids, ← h.attributesOf_eq] at hold
  replace hput := hput _ hid'
  rw [TypeDecl.attributesOf_eq hrest, ← hattributes, ← h'.attributesOf_eq] at hput
  refine hstrips.replace hold hput hsublist hcount htally (h'.hides_iff.2 (hhides ?_))
  exact (h.hides_iff.1 hstrips.hides).put ht hid' fun x hx hxid => absurd (hrest x hx) hxid

end

end AdviceWeaving
