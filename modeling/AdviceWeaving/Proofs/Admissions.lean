import AdviceWeaving.Proofs.Transitions

/-!
# What holds of an outline

While the types of a module are visited, its methods stay the same up to their markers, and the only
methods that come to them are hidden ones.  A marker type is woven when its own type is visited, so
what it declares stands in the module as it was at first (`Outline.Sound`, `Module.sound_outline`).
-/

namespace AdviceWeaving

/-- The profile of a hidden method that is made in a pass. -/
structure Profile.IsInitializer (storage : HandleStorage) (p : Profile) : Prop where
  name_eq : p.target.name = initializerName
  isStatic_eq : p.target.isStatic = false
  ret_eq : p.target.ret = .void
  args_eq : p.args = 1
  body_eq : ∃ field, p.body = some (.ofCode (initializerCode storage field))

/-- A marker type of the module `m` that is woven. -/
structure Admission.Accepted (m : Module) (settings : Settings) (a : Admission) : Prop where
  declared : ∃ t ∈ m.types, t.id = a.marker.owner ∧
    (t.scan settings.markers).declared = .ok (some a.marker)
  accepted : a.marker.firstViolation? a.targets = none
  handle?_isSome : a.handle?.isSome = a.marker.advice.any (!·.isStatic)
  initializes : a.initializes → a.handle?.isSome

/-- What holds after the types `visited` of the module `m` have been visited. -/
structure Outline.Sound (o : Outline) (settings : Settings) (m : Module) (visited : List TypeId) :
    Prop where
  numbered : o.module.Numbered
  types_eq : o.module.types.map (·.id) = m.types.map (·.id)
  untouched : ∀ id, id ∉ visited → o.module.type? id = m.type? id
  kept : ∀ p ∈ m.profiles, p ∈ o.module.profiles
  profiles : ∀ p ∈ o.module.profiles, p ∈ m.profiles ∨ p.IsInitializer settings.handleStorage
  accepted : ∀ a ∈ o.admissions, a.Accepted m settings
  owners : ∀ a ∈ o.admissions, a.marker.owner ∈ visited
  targets : ∀ a ∈ o.admissions, ∀ t ∈ a.targets,
    ∃ p ∈ o.module.profiles, p.target = t ∧ p.body.isSome

theorem Module.mem_targets {m : Module} {marker : String} {t : Target} (h : t ∈ m.targets marker) :
    ∃ p ∈ m.profiles, p.target = t ∧ p.body.isSome := by
  obtain ⟨owner, x, hx, rfl, -, hbody⟩ := mem_targets_iff.1 h
  exact ⟨x.profile owner, mem_profiles.2 ⟨owner, x, hx, rfl⟩, rfl, Option.isSome_iff_exists.2 hbody⟩

theorem Module.Numbered.nodup_targets {m : Module} (h : m.Numbered) (marker : String) :
    ((m.targets marker).map (·.id)).Nodup := by
  have hsublist : ((m.targets marker).map (·.id)).Sublist (methodIds m.types) := by
    rw [← Module.map_id_methods, Module.targets, Module.carriers, List.map_map]
    exact (List.filter_sublist.trans List.filter_sublist).map _
  exact h.methods_nodup.sublist hsublist

theorem Module.Numbered.owner_name {m : Module} (h : m.Numbered) {t : TypeDecl}
    (ht : m.type? t.id = some t) {p : Profile} (hp : p ∈ m.profiles) (howner : p.owner = t.id) :
    p.target.owner = t.name := by
  obtain ⟨t', x, hx, rfl⟩ := mem_profiles.1 hp
  obtain rfl : t' = t :=
    Option.some.inj ((h.type?_eq_some_iff.2 ⟨(mem_methods.1 hx).1, howner⟩).symm.trans ht)
  rfl

theorem Module.Numbered.mem_constructorIds {m : Module} (h : m.Numbered) {t : TypeDecl}
    (ht : m.type? t.id = some t) {p : Profile} (hp : p ∈ m.profiles) :
    p.target.id ∈ t.constructorIds ↔ p.owner = t.id ∧ p.target.isConstructor ∧ p.body.isSome := by
  obtain ⟨t', x, hx, rfl⟩ := mem_profiles.1 hp
  obtain ⟨ht', hx'⟩ := mem_methods.1 hx
  have hin := (h.type?_eq_some_iff.1 ht).1
  have hconstructs : x.constructs ↔ (x.profile t').target.isConstructor ∧
      (x.profile t').body.isSome := by
    simp only [Method.constructs, Bool.and_eq_true]
    exact Iff.rfl
  rw [← hconstructs, TypeDecl.constructorIds, List.mem_map]
  constructor
  · rintro ⟨y, hy, hid⟩
    obtain ⟨hy, hc⟩ := List.mem_filter.1 hy
    cases h.eq_of_id_eq (mem_methods.2 ⟨hin, hy⟩) hx hid
    exact ⟨rfl, hc⟩
  · rintro ⟨howner, hc⟩
    obtain rfl : t' = t := Option.some.inj ((h.type?_eq_some_iff.2 ⟨ht', howner⟩).symm.trans ht)
    exact ⟨x, List.mem_filter.2 ⟨hx', hc⟩, rfl⟩

/-- The module `m'` is `m` with the hidden members of the type `t`: they add at most one method, and
leave the other types as they are. -/
structure Module.GainsHandle (m : Module) (storage : HandleStorage) (t : TypeDecl) (m' : Module) :
    Prop where
  numbered : m'.Numbered
  types_eq : m'.types.map (·.id) = m.types.map (·.id)
  attributes_eq : ∃ t', m'.type? t.id = some t' ∧ t'.attributes = t.attributes
  others : ∀ id, id ≠ t.id → m'.type? id = m.type? id
  kept : ∀ p ∈ m.profiles, p ∈ m'.profiles
  profiles : ∀ p ∈ m'.profiles, p ∈ m.profiles ∨
    p.IsInitializer storage ∧ p.target.id = ⟨m.ids.nextMethod⟩

theorem Module.Numbered.gainsHandle {m : Module} (h : m.Numbered) {t : TypeDecl}
    (ht : m.type? t.id = some t) (storage : HandleStorage) :
    m.GainsHandle storage t ((m.addHandleField storage t).addInitializer storage t) := by
  obtain ⟨m₁, hm₁, hnumbered, htypes, hids, hprofiles, hothers, t₁, ht₁, hattributes⟩ :
      ∃ m₁, m.addHandleField storage t = m₁ ∧ m₁.Numbered ∧
        m₁.types.map (·.id) = m.types.map (·.id) ∧ m₁.ids = m.ids ∧ m₁.profiles = m.profiles ∧
        (∀ id, id ≠ t.id → m₁.type? id = m.type? id) ∧
        ∃ t₁, m₁.type? t.id = some t₁ ∧ t₁.attributes = t.attributes := by
    unfold Module.addHandleField
    split
    · exact ⟨_, rfl, h.updateType ht rfl rfl, map_id_updateType ht rfl, rfl,
        profiles_updateType ht rfl, fun id hid => type?_updateType_of_ne ht rfl hid, _,
        type?_updateType_self ht rfl, rfl⟩
    · exact ⟨m, rfl, h, rfl, rfl, rfl, fun _ _ => rfl, t, ht, rfl⟩
  rw [hm₁]
  unfold Module.addInitializer
  split
  · obtain ⟨m', hm', hnumbered', htypes', _, hperm, htype, hothers'⟩ :=
      hnumbered.exists_pushMethod ht₁ (initializerMethod storage (t.handle storage))
    rw [hm']
    refine ⟨hnumbered', htypes'.trans htypes, ⟨_, htype, hattributes⟩,
      fun id hne => (hothers' id hne).trans (hothers id hne),
      fun p hp => hperm.mem_iff.2 (List.mem_cons_of_mem _ (hprofiles ▸ hp)), fun p hp => ?_⟩
    rcases List.mem_cons.1 (hperm.mem_iff.1 hp) with rfl | hp
    · exact .inr ⟨⟨rfl, rfl, rfl, rfl, _, rfl⟩, by rw [hids]; rfl⟩
    · exact .inl (hprofiles ▸ hp)
  · exact ⟨hnumbered, htypes, ⟨t₁, ht₁, hattributes⟩, hothers, fun p hp => hprofiles ▸ hp,
      fun p hp => .inl (hprofiles ▸ hp)⟩

/-- The hidden members of a type stand behind its own, if they are not there at first. -/
theorem Module.exists_addHandle_eq {m : Module} {t : TypeDecl} (ht : m.type? t.id = some t)
    (storage : HandleStorage) :
    ∃ (field? : Option Field) (method? : Option Method) (ids : IdSupply),
      (m.addHandleField storage t).addInitializer storage t =
        { m.put { t with fields := t.fields ++ field?.toList, methods := t.methods ++ method?.toList } with ids } ∧
      (∀ f ∈ field?, f = handleField storage t) ∧
      ∀ x ∈ method?, x = { initializerMethod storage (t.handle storage) with id := ⟨m.ids.nextMethod⟩ } := by
  obtain ⟨field?, hadd, hfield⟩ : ∃ field? : Option Field,
      m.addHandleField storage t = m.put { t with fields := t.fields ++ field?.toList } ∧
      ∀ f ∈ field?, f = handleField storage t := by
    unfold addHandleField
    split
    · exact ⟨some (handleField storage t), updateType_eq_put ht rfl, fun f hf => (Option.some.inj hf).symm⟩
    · exact ⟨none, by simpa using (put_self ht).symm, nofun⟩
  let t₁ : TypeDecl := { t with fields := t.fields ++ field?.toList }
  have ht₁ : (m.put t₁).type? t.id = some t₁ := type?_put_self ht rfl
  rw [hadd]
  unfold addInitializer
  split
  · let x : Method := { initializerMethod storage (t.handle storage) with id := ⟨m.ids.nextMethod⟩ }
    have hput : (m.put t₁).put { t₁ with methods := t₁.methods ++ [x] } =
        m.put { t₁ with methods := t₁.methods ++ [x] } := put_put ht rfl rfl
    refine ⟨field?, some x, m.ids.takeMethod.2, ?_, hfield, fun y hy => (Option.some.inj hy).symm⟩
    rw [pushMethod_eq_put ht₁]
    exact congrArg (fun m' : Module => { m' with ids := m.ids.takeMethod.2 }) hput
  · refine ⟨field?, none, m.ids, ?_, hfield, nofun⟩
    rw [Option.toList_none, List.append_nil]
    rfl

namespace Outline.Sound

variable {o : Outline} {settings : Settings} {m : Module} {visited : List TypeId}

theorem start (h : m.Numbered) : ({ module := m } : Outline).Sound settings m [] where
  numbered := h
  types_eq := rfl
  untouched _ _ := rfl
  kept _ hp := hp
  profiles _ hp := .inl hp
  accepted _ ha := by cases ha
  owners _ ha := by cases ha
  targets _ ha := by cases ha

/-- The types of the module are still there. -/
theorem exists_type? (h : o.Sound settings m visited) {id : TypeId} (hid : id ∈ m.types.map (·.id)) :
    ∃ t, o.module.type? id = some t := by
  rw [← h.types_eq, List.mem_map] at hid
  obtain ⟨t, ht, htid⟩ := hid
  exact ⟨t, h.numbered.type?_eq_some_iff.2 ⟨ht, htid⟩⟩

/-- A change of visited types that leaves the profiles as they are. -/
theorem of_profiles (h : o.Sound settings m visited) {m' : Module} {visited' : List TypeId}
    (hm : m'.Numbered) (htypes : m'.types.map (·.id) = o.module.types.map (·.id))
    (hprofiles : m'.profiles = o.module.profiles) (hvisited : ∀ id, id ∈ visited → id ∈ visited')
    (huntouched : ∀ id, id ∉ visited' → m'.type? id = o.module.type? id) :
    ({ o with module := m' } : Outline).Sound settings m visited' where
  numbered := hm
  types_eq := htypes.trans h.types_eq
  untouched id hid := (huntouched id hid).trans (h.untouched id fun hin => hid (hvisited id hin))
  kept p hp := hprofiles ▸ h.kept p hp
  profiles p hp := h.profiles p (hprofiles ▸ hp)
  accepted := h.accepted
  owners a ha := hvisited _ (h.owners a ha)
  targets a ha t ht := hprofiles ▸ h.targets a ha t ht

/-- One more marker type that is woven. -/
private theorem addAdmission (h : o.Sound settings m visited) {a : Admission} (ha : a.Accepted m settings)
    (howner : a.marker.owner ∈ visited)
    (htargets : ∀ t ∈ a.targets, ∃ p ∈ o.module.profiles, p.target = t ∧ p.body.isSome) :
    ({ o with admissions := o.admissions ++ [a] } : Outline).Sound settings m visited where
  numbered := h.numbered
  types_eq := h.types_eq
  untouched := h.untouched
  kept := h.kept
  profiles := h.profiles
  accepted a' ha' := by
    rcases List.mem_append.1 ha' with ha' | ha'
    · exact h.accepted a' ha'
    · exact List.mem_singleton.1 ha' ▸ ha
  owners a' ha' := by
    rcases List.mem_append.1 ha' with ha' | ha'
    · exact h.owners a' ha'
    · exact List.mem_singleton.1 ha' ▸ howner
  targets a' ha' := by
    rcases List.mem_append.1 ha' with ha' | ha'
    · exact h.targets a' ha'
    · exact List.mem_singleton.1 ha' ▸ htargets

private theorem enlist (h : o.Sound settings m visited) {marker : MarkerType}
    (howner : marker.owner ∈ visited)
    (hdeclared : ∃ t ∈ m.types, t.id = marker.owner ∧
      (t.scan settings.markers).declared = .ok (some marker)) :
    (o.enlist settings marker).Sound settings m visited := by
  refine enlist_cases (motive := fun o' => o'.Sound settings m visited) h
    (fun haccepted hany => ?_) fun t haccepted hany hid ht => ?_
  · exact h.addAdmission ⟨hdeclared, haccepted, hany.symm, fun h => by cases h⟩ howner fun t ht =>
      Module.mem_targets ht
  · have hgains := h.numbered.gainsHandle ht settings.handleStorage
    generalize (o.module.addHandleField settings.handleStorage t).addInitializer
      settings.handleStorage t = m' at hgains ⊢
    have h₁ : ({ o with module := m' } : Outline).Sound settings m visited :=
      { h with
        numbered := hgains.numbered
        types_eq := hgains.types_eq.trans h.types_eq
        untouched := fun k hk =>
          (hgains.others k fun hne => hk (hne.trans hid ▸ howner)).trans (h.untouched k hk)
        kept := fun p hp => hgains.kept p (h.kept p hp)
        profiles := fun p hp => (hgains.profiles p hp).elim (h.profiles p) fun hp => .inr hp.1
        targets := fun a ha t' ht' =>
          (h.targets a ha t' ht').imp fun p hp => ⟨hgains.kept p hp.1, hp.2⟩ }
    refine h₁.addAdmission ⟨hdeclared, haccepted, hany.symm, fun _ => rfl⟩ howner fun t' ht' => ?_
    exact (Module.mem_targets ht').imp fun p hp => ⟨hgains.kept p hp.1, hp.2⟩

/-- To read the markers of a type is to visit it. -/
theorem scanType (h : o.Sound settings m visited) {id : TypeId} {t : TypeDecl}
    (ht : o.module.type? id = some t) : (o.scanType settings id t).Sound settings m (id :: visited) :=
  h.of_profiles (numbered_scanType h.numbered ht) (Module.map_id_updateType ht (t.scan_rest_id _))
    (profiles_scanType ht) (fun _ hk => List.mem_cons_of_mem _ hk)
    fun _ hk => type?_scanType_of_ne ht (List.ne_of_not_mem_cons hk)

theorem weaveType (h : o.Sound settings m visited) {id : TypeId} (hid : id ∉ visited) :
    (o.weaveType settings id).Sound settings m (id :: visited) := by
  refine weaveType_cases (motive := fun o' => o'.Sound settings m (id :: visited)) (fun _ => ?_)
    (fun t ht => h.scanType ht) fun t marker ht hdeclared howner => ?_
  · exact h.of_profiles h.numbered rfl rfl (fun _ hk => List.mem_cons_of_mem _ hk) fun _ _ => rfl
  · -- the type has not been visited, so it is still as it was
    have hin : m.type? id = some t := (h.untouched id hid).symm.trans ht
    exact (h.scanType ht).enlist (howner ▸ List.mem_cons_self)
      ⟨t, List.mem_of_find?_eq_some hin, (Module.id_of_type? hin).trans howner.symm, hdeclared⟩

theorem sweepType (h : o.Sound settings m visited) {id : TypeId} (hid : id ∈ visited) :
    (o.sweepType settings id).Sound settings m visited := by
  have hprofile : ∀ t ∈ o.module.types, ∀ x ∈ t.methods,
      (if t.id = id then Weaving.swept settings.markers x else x).profile t = x.profile t := by
    intro t _ x _
    split
    · exact x.profile_swept settings.markers t
    · rfl
  refine h.of_profiles (h.numbered.mapMethods hprofile) (by simp [Module.mapMethods])
    (Module.profiles_mapMethods hprofile) (fun _ hk => hk) ?_
  intro k hk
  have hne : k ≠ id := fun hkid => hk (hkid ▸ hid)
  rw [Module.type?_mapMethods]
  cases ht : o.module.type? k with
  | none => rfl
  | some t =>
    have htid : t.id ≠ id := Module.id_of_type? ht ▸ hne
    simp [htid]

private theorem visitType (h : o.Sound settings m visited) {id : TypeId} (hid : id ∉ visited) :
    (o.visitType settings id).Sound settings m (id :: visited) := by
  refine visitType_cases (motive := fun o' => o'.Sound settings m (id :: visited)) ?_ (h.weaveType hid)
    fun o' h' => h'.sweepType List.mem_cons_self
  exact h.of_profiles h.numbered rfl rfl (fun _ hk => List.mem_cons_of_mem _ hk) fun _ _ => rfl

/-- The types of a list are visited from the last to the first. -/
theorem foldr_visitType (h : m.Numbered) {ids : List TypeId} (hids : ids.Nodup) :
    (ids.foldr (fun id (o : Outline) => o.visitType settings id) { module := m }).Sound settings m
      ids := by
  induction ids with
  | nil => exact start h
  | cons id ids ih =>
    obtain ⟨hid, hids⟩ := List.nodup_cons.1 hids
    exact (ih hids).visitType hid

end Outline.Sound

/-- The outline of a pass over a module whose identifiers are distinct. -/
theorem Module.Numbered.sound_outline {m : Module} (h : m.Numbered) (settings : Settings) :
    (m.outline settings).Sound settings m (m.types.map (·.id)) :=
  Outline.Sound.foldr_visitType h h.types_nodup

end AdviceWeaving
