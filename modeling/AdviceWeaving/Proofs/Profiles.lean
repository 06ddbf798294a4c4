import AdviceWeaving.Proofs.Bodies
import AdviceWeaving.Proofs.Declaring

/-!
# Profiles

The profile of a method is what a pass leaves as it is.  To read and remove markers changes no
profile, and to make a hidden method adds one; so what depends on profiles only, such as the bodies
without woven code, can be followed through a pass.
-/

namespace AdviceWeaving

/-- The profiles of the methods of a type. -/
def TypeDecl.profiles (t : TypeDecl) : List Profile :=
  t.methods.map (·.profile t)

/-- The profiles of all methods of a module. -/
def Module.profiles (m : Module) : List Profile :=
  m.types.flatMap (·.profiles)

namespace Module

variable {m m' : Module}

theorem profiles_eq_map (m : Module) : m.profiles = m.methods.map fun p => p.2.profile p.1 := by
  simp [profiles, TypeDecl.profiles, methods, List.map_flatMap, Function.comp_def]

theorem mem_profiles {p : Profile} :
    p ∈ m.profiles ↔ ∃ t x, (t, x) ∈ m.methods ∧ x.profile t = p := by
  simp [profiles_eq_map]

theorem map_id_profiles (m : Module) : m.profiles.map (·.target.id) = methodIds m.types := by
  rw [profiles_eq_map, ← map_id_methods, List.map_map]
  rfl

theorem Numbered.body?_eq_some_iff_profile (h : m.Numbered) {id : MethodId} {b : Body} :
    m.body? id = some b ↔ ∃ p ∈ m.profiles, p.target.id = id ∧ p.body = some b := by
  rw [h.body?_eq_some_iff]
  constructor
  · rintro ⟨t, x, hx, hid, hb⟩
    exact ⟨x.profile t, mem_profiles.2 ⟨t, x, hx, rfl⟩, hid, hb⟩
  · rintro ⟨_, hp, hid, hb⟩
    obtain ⟨t, x, hx, rfl⟩ := mem_profiles.1 hp
    exact ⟨t, x, hx, hid, hb⟩

/-- A profile is the only one of its identifier. -/
theorem Numbered.profile_eq (h : m.Numbered) {p q : Profile} (hp : p ∈ m.profiles)
    (hq : q ∈ m.profiles) (hid : p.target.id = q.target.id) : p = q := by
  obtain ⟨t, x, hx, rfl⟩ := mem_profiles.1 hp
  obtain ⟨t', x', hx', rfl⟩ := mem_profiles.1 hq
  cases h.eq_of_id_eq hx hx' hid
  rfl

/-- A body is that of a profile. -/
theorem Numbered.body?_of_profile (h : m.Numbered) {p : Profile} (hp : p ∈ m.profiles) :
    m.body? p.target.id = p.body := by
  cases hb : p.body with
  | some b => exact h.body?_eq_some_iff_profile.2 ⟨p, hp, rfl, hb⟩
  | none =>
    rw [Option.eq_none_iff_forall_ne_some]
    intro b hb'
    obtain ⟨q, hq, hid, hbody⟩ := h.body?_eq_some_iff_profile.1 hb'
    rw [h.profile_eq hq hp hid, hb] at hbody
    cases hbody

/-- Modules with the same profiles have the same bodies. -/
theorem Numbered.body?_congr (h : m.Numbered) (h' : m'.Numbered) (hp : m'.profiles = m.profiles)
    (id : MethodId) : m'.body? id = m.body? id := by
  ext b
  rw [h.body?_eq_some_iff_profile, h'.body?_eq_some_iff_profile, hp]

private theorem Numbered.of_profiles (h : m.Numbered) (htypes : m'.types.map (·.id) = m.types.map (·.id))
    (hprofiles : m'.profiles = m.profiles) (hids : m'.ids = m.ids) : m'.Numbered := by
  have hmethods : methodIds m'.types = methodIds m.types := by
    rw [← map_id_profiles, hprofiles, map_id_profiles]
  exact h.of_sublist (by rw [htypes]) (by rw [hmethods]) hids

/-! ### Changes of one type -/

/-- To change the first element for which `p` holds is to change it where it stands. -/
private theorem modify_findIdx_append {α : Type} {p : α → Bool} {front back : List α} {a : α}
    (hfront : ∀ b ∈ front, p b = false) (ha : p a) (f : α → α) :
    (front ++ a :: back).modify ((front ++ a :: back).findIdx p) f = front ++ f a :: back := by
  rw [List.findIdx_append, List.findIdx_eq_length_of_false hfront]
  simp [List.findIdx_cons, ha, List.modify_eq_take_cons_drop]

/-- The type with the given identifier stands somewhere, and to change it is to change it there. -/
theorem exists_updateType_eq {id : TypeId} {t : TypeDecl} (h : m.type? id = some t) :
    ∃ front back, m.types = front ++ t :: back ∧ (∀ t' ∈ front, t'.id ≠ id) ∧
      ∀ f : TypeDecl → TypeDecl, (m.updateType id f).types = front ++ f t :: back := by
  obtain ⟨hid, front, back, htypes, hfront⟩ := List.find?_eq_some_iff_append.1 h
  refine ⟨front, back, htypes, by simpa using hfront, fun f => ?_⟩
  rw [updateType, htypes]
  exact modify_findIdx_append (p := (·.id = id)) (by simpa using hfront) hid f

theorem profiles_updateType {id : TypeId} {t : TypeDecl} (h : m.type? id = some t)
    {f : TypeDecl → TypeDecl} (hf : (f t).profiles = t.profiles) :
    (m.updateType id f).profiles = m.profiles := by
  obtain ⟨front, back, htypes, _, hupdate⟩ := exists_updateType_eq h
  simp only [profiles, hupdate, htypes, List.flatMap_append, List.flatMap_cons, hf]

theorem map_id_updateType {id : TypeId} {t : TypeDecl} (h : m.type? id = some t)
    {f : TypeDecl → TypeDecl} (hf : (f t).id = t.id) :
    (m.updateType id f).types.map (·.id) = m.types.map (·.id) := by
  obtain ⟨front, back, htypes, _, hupdate⟩ := exists_updateType_eq h
  simp only [hupdate, htypes, List.map_append, List.map_cons, hf]

theorem Numbered.updateType (h : m.Numbered) {id : TypeId} {t : TypeDecl} (ht : m.type? id = some t)
    {f : TypeDecl → TypeDecl} (hid : (f t).id = t.id) (hf : (f t).profiles = t.profiles) :
    (m.updateType id f).Numbered :=
  h.of_profiles (map_id_updateType ht hid) (profiles_updateType ht hf) rfl

theorem id_of_type? {id : TypeId} {t : TypeDecl} (h : m.type? id = some t) : t.id = id := by
  simpa using List.find?_some h

theorem type?_updateType_self {id : TypeId} {t : TypeDecl} (h : m.type? id = some t)
    {f : TypeDecl → TypeDecl} (hid : (f t).id = t.id) :
    (m.updateType id f).type? id = some (f t) := by
  obtain ⟨front, back, _, hfront, hupdate⟩ := exists_updateType_eq h
  rw [type?, hupdate, List.find?_append, List.find?_eq_none.2 (by simpa using hfront),
    Option.none_or, List.find?_cons_of_pos (by simp [hid, id_of_type? h])]

theorem type?_updateType_of_ne {id k : TypeId} {t : TypeDecl} (h : m.type? id = some t)
    {f : TypeDecl → TypeDecl} (hid : (f t).id = t.id) (hk : k ≠ id) :
    (m.updateType id f).type? k = m.type? k := by
  obtain ⟨front, back, htypes, _, hupdate⟩ := exists_updateType_eq h
  have ht : t.id ≠ k := id_of_type? h ▸ hk.symm
  rw [type?, type?, hupdate, htypes, List.find?_append, List.find?_append,
    List.find?_cons_of_neg (by simp [hid, ht]), List.find?_cons_of_neg (by simp [ht])]

/-! ### Other types in the place of a type -/

section

variable {id : TypeId} {t t₁ : TypeDecl}

/-- The module with the type `t` in the place of the one with its identifier. -/
def put (m : Module) (t : TypeDecl) : Module :=
  m.updateType t.id fun _ => t

@[simp] theorem put_ids (m : Module) (t : TypeDecl) : (m.put t).ids = m.ids := rfl

theorem exists_put_eq (h : m.type? id = some t₁) :
    ∃ front back, m.types = front ++ t₁ :: back ∧ (∀ t ∈ front, t.id ≠ id) ∧
      ∀ t, t.id = id → (m.put t).types = front ++ t :: back := by
  obtain ⟨front, back, htypes, hfront, hupdate⟩ := exists_updateType_eq h
  refine ⟨front, back, htypes, hfront, ?_⟩
  rintro t rfl
  exact hupdate fun _ => t

/-- To change a type is to put another one in its place. -/
theorem updateType_eq_put (h : m.type? id = some t) {f : TypeDecl → TypeDecl} (hid : (f t).id = t.id) :
    m.updateType id f = m.put (f t) := by
  obtain ⟨front, back, -, -, hupdate⟩ := exists_updateType_eq h
  have htypes : (m.updateType id f).types = (m.updateType id fun _ => f t).types := by rw [hupdate, hupdate]
  rw [put, hid, id_of_type? h]
  exact congrArg (fun types => { m with types }) htypes

theorem put_self (h : m.type? id = some t) : m.put t = m := by
  obtain ⟨front, back, htypes, -, hput⟩ := exists_put_eq h
  exact congrArg (fun types => { m with types }) ((hput t (id_of_type? h)).trans htypes.symm)

theorem type?_put_self (h : m.type? id = some t₁) (hid : t.id = id) : (m.put t).type? id = some t := by
  subst hid
  exact type?_updateType_self (f := fun _ => t) h (id_of_type? h).symm

/-- Of two types that are put in one place the second counts. -/
theorem put_put {t₀ : TypeDecl} (h : m.type? id = some t₀) (hid₁ : t₁.id = id) (hid : t.id = id) :
    (m.put t₁).put t = m.put t := by
  obtain ⟨front, back, -, hfront, hput⟩ := exists_put_eq h
  have htypes : ((m.put t₁).put t).types = (m.put t).types := by
    rw [hput t hid, put, updateType, hput t₁ hid₁]
    exact modify_findIdx_append (p := fun u : TypeDecl => u.id = t.id) (by simpa [hid] using hfront)
      (by simp [hid₁, hid]) _
  exact congrArg (fun types => { m with types }) htypes

/-- A method that is appended to a type gets the next identifier. -/
theorem pushMethod_eq_put (h : m.type? id = some t) (x : Method) :
    m.pushMethod id x =
      some ({ m.put { t with methods := t.methods ++ [{ x with id := ⟨m.ids.nextMethod⟩ }] } with
        ids := m.ids.takeMethod.2 }, ⟨m.ids.nextMethod⟩) := by
  have hput := updateType_eq_put (f := fun t =>
    { t with methods := t.methods ++ [{ x with id := ⟨m.ids.nextMethod⟩ }] }) h rfl
  rw [pushMethod, if_pos (by rw [h]; rfl), ← hput]
  rfl

end

/-! ### Hidden members -/

section

variable {t : TypeDecl} (ht : m.type? t.id = some t) (storage : HandleStorage)
include ht

theorem exists_type?_addInitializer : ∃ t', (m.addInitializer storage t).type? t.id = some t' := by
  unfold addInitializer
  split
  · rw [pushMethod_eq_put ht]
    exact ⟨_, type?_put_self (t := { t with methods := _ }) ht rfl⟩
  · exact ⟨t, ht⟩

/-- The hidden members of a type can be added in any order. -/
theorem addHandleField_addInitializer :
    (m.addHandleField storage t).addInitializer storage t =
      (m.addInitializer storage t).addHandleField storage t := by
  unfold addHandleField addInitializer
  split
  · split
    · let x : Method := { initializerMethod storage (t.handle storage) with id := ⟨m.ids.nextMethod⟩ }
      let t₁ : TypeDecl := { t with fields := t.fields ++ [handleField storage t] }
      let t₂ : TypeDecl := { t with methods := t.methods ++ [x] }
      have ht₁ : (m.put t₁).type? t.id = some t₁ := type?_put_self ht rfl
      have ht₂ : (m.put t₂).type? t.id = some t₂ := type?_put_self ht rfl
      have hput₁ : (m.put t₁).put { t₁ with methods := t₁.methods ++ [x] } = m.put _ := put_put ht rfl rfl
      have hput₂ : (m.put t₂).put { t₂ with fields := t₂.fields ++ [handleField storage t] } = m.put _ :=
        put_put ht rfl rfl
      rw [updateType_eq_put ht rfl, pushMethod_eq_put ht₁, pushMethod_eq_put ht]
      show { (m.put t₁).put { t₁ with methods := t₁.methods ++ [x] } with ids := m.ids.takeMethod.2 } =
        ({ m.put t₂ with ids := m.ids.takeMethod.2 } : Module).updateType t.id _
      rw [hput₁, updateType_eq_put (m := { m.put t₂ with ids := m.ids.takeMethod.2 }) ht₂ rfl]
      exact congrArg (fun m' : Module => { m' with ids := m.ids.takeMethod.2 }) hput₂.symm
    · rfl
  · rfl

end

/-! ### Changes of methods -/

/-- The method with the given identifier stands somewhere, and to change it is to change it there. -/
theorem exists_updateMethod_eq {id : MethodId} {t : TypeDecl} {x : Method} (h : m.method? id = some (t, x)) :
    ∃ front back before after, m.types = front ++ t :: back ∧ t.methods = before ++ x :: after ∧
      (∀ u ∈ front, ∀ y ∈ u.methods, y.id ≠ id) ∧ (∀ y ∈ before, y.id ≠ id) ∧
      ∀ f : Method → Method, (m.updateMethod id f).types =
        front ++ { t with methods := before ++ f x :: after } :: back := by
  rw [method?, methods, List.find?_flatMap, List.findSome?_eq_some_iff] at h
  obtain ⟨front, u, back, htypes, hfind, hfront⟩ := h
  rw [List.find?_map, Option.map_eq_some_iff] at hfind
  obtain ⟨y, hy, hpair⟩ := hfind
  cases hpair
  obtain ⟨hid, before, after, hmethods, hbefore⟩ := List.find?_eq_some_iff_append.1 hy
  have hnone : ∀ u ∈ front, ∀ y ∈ u.methods, y.id ≠ id := by
    intro u hu
    simpa [List.find?_map] using hfront u hu
  refine ⟨front, back, before, after, htypes, hmethods, hnone, by simpa using hbefore, fun f => ?_⟩
  have hmodify : t.methods.modify (t.methods.findIdx (·.id = id)) f = before ++ f x :: after := by
    rw [hmethods]
    exact modify_findIdx_append (p := fun y : Method => y.id = id) (by simpa using hbefore) hid f
  have hany : ∀ u ∈ front, (u.methods.any (·.id = id)) = false := by simpa using hnone
  rw [updateMethod, htypes, modify_findIdx_append (p := fun u : TypeDecl => u.methods.any (·.id = id)) hany, hmodify]
  exact List.any_eq_true.2 ⟨x, by simp [hmethods], hid⟩

private theorem method?_updateMethod {id : MethodId} {t : TypeDecl} {x : Method} (h : m.method? id = some (t, x))
    {f : Method → Method} (hf : (f x).id = x.id) :
    ∃ t', (m.updateMethod id f).method? id = some (t', f x) := by
  obtain ⟨front, back, before, after, htypes, hmethods, hfront, hbefore, hupdate⟩ := exists_updateMethod_eq h
  have hid : (f x).id = id := hf.trans (id_of_method? h)
  refine ⟨{ t with methods := before ++ f x :: after }, ?_⟩
  have hnone : front.findSome? (fun u => (u.methods.map fun y => (u, y)).find? (·.2.id = id)) = none :=
    List.findSome?_eq_none_iff.2 fun u hu => by simpa [List.find?_map] using hfront u hu
  have hfind : (before ++ f x :: after).find? (·.id = id) = some (f x) := by
    rw [List.find?_append, List.find?_eq_none.2 (by simpa using hbefore), Option.none_or,
      List.find?_cons_of_pos (by simpa using hid)]
  rw [method?, methods, List.find?_flatMap, hupdate, List.findSome?_append, hnone, Option.none_or,
    List.findSome?_cons]
  simp only [List.find?_map, Function.comp_def, hfind]
  rfl

/-- A body that is changed is the changed one. -/
theorem body?_setBody_self {id : MethodId} {b : Body} (h : m.body? id = some b) (b' : Body) :
    (m.setBody id b').body? id = some b' := by
  obtain ⟨⟨t, x⟩, hx, -⟩ := Option.bind_eq_some_iff.1 h
  obtain ⟨t', ht'⟩ := method?_updateMethod (f := fun x => { x with body := some b' }) hx rfl
  rw [body?, setBody, ht']
  rfl

theorem type?_mapMethods (f : TypeDecl → Method → Method) (id : TypeId) :
    (m.mapMethods f).type? id =
      (m.type? id).map fun t => { t with methods := t.methods.map (f t) } := by
  rw [type?, mapMethods, List.find?_map]
  rfl

theorem profiles_mapMethods {f : TypeDecl → Method → Method}
    (hf : ∀ t ∈ m.types, ∀ x ∈ t.methods, (f t x).profile t = x.profile t) :
    (m.mapMethods f).profiles = m.profiles := by
  simp only [profiles, mapMethods, List.flatMap_map]
  apply List.flatMap_congr
  intro t ht
  simp only [TypeDecl.profiles, List.map_map]
  exact List.map_congr_left fun x hx => hf t ht x hx

theorem Numbered.mapMethods (h : m.Numbered) {f : TypeDecl → Method → Method}
    (hf : ∀ t ∈ m.types, ∀ x ∈ t.methods, (f t x).profile t = x.profile t) :
    (m.mapMethods f).Numbered :=
  h.of_profiles (by simp [Module.mapMethods]) (profiles_mapMethods hf) rfl

/-- A method that is appended to a type adds a profile. -/
theorem Numbered.exists_pushMethod (hm : m.Numbered) {owner : TypeId} {t : TypeDecl}
    (h : m.type? owner = some t) (x : Method) :
    ∃ m', m.pushMethod owner x = some (m', ⟨m.ids.nextMethod⟩) ∧ m'.Numbered ∧
      m'.types.map (·.id) = m.types.map (·.id) ∧
      m'.ids = { m.ids with nextMethod := m.ids.nextMethod + 1 } ∧
      m'.profiles.Perm (({ x with id := ⟨m.ids.nextMethod⟩ } : Method).profile t :: m.profiles) ∧
      m'.type? owner =
        some { t with methods := t.methods ++ [{ x with id := ⟨m.ids.nextMethod⟩ }] } ∧
      ∀ k, k ≠ owner → m'.type? k = m.type? k := by
  obtain ⟨front, back, htypes, _, hupdate⟩ := exists_updateType_eq h
  let x' : Method := { x with id := ⟨m.ids.nextMethod⟩ }
  let f (t : TypeDecl) : TypeDecl := { t with methods := t.methods ++ [x'] }
  let pushed : Module :=
    { m.updateType owner f with ids := { m.ids with nextMethod := m.ids.nextMethod + 1 } }
  have hpush : m.pushMethod owner x = some (pushed, ⟨m.ids.nextMethod⟩) := by
    rw [pushMethod, if_pos (by rw [h]; rfl)]
    rfl
  have hids : pushed.types.map (·.id) = m.types.map (·.id) := map_id_updateType (f := f) h rfl
  have hprofiles : pushed.profiles.Perm (x'.profile t :: m.profiles) := by
    have ht : (f t).profiles = t.profiles ++ [x'.profile t] := by
      simp [f, TypeDecl.profiles, Method.profile, Method.target]
    show ((m.updateType owner f).types.flatMap (·.profiles)).Perm _
    simp only [profiles, hupdate, htypes, List.flatMap_append, List.flatMap_cons, ht,
      List.append_assoc]
    exact (List.Perm.append_left _ List.perm_middle).trans List.perm_middle
  -- the new identifier is the next one of the supply, so it is borne by no other method
  have hmethods : (methodIds pushed.types).Perm (⟨m.ids.nextMethod⟩ :: methodIds m.types) := by
    rw [← map_id_profiles, ← map_id_profiles]
    exact hprofiles.map _
  refine ⟨pushed, hpush, ⟨?_, ?_, ?_, ?_⟩, hids, rfl, hprofiles,
    type?_updateType_self (f := f) h rfl, fun k hk => type?_updateType_of_ne (f := f) h rfl hk⟩
  · rw [hids]
    exact hm.types_nodup
  · rw [hmethods.nodup_iff, List.nodup_cons]
    exact ⟨fun hmem => Nat.lt_irrefl _ (hm.methods_lt _ hmem), hm.methods_nodup⟩
  · intro t' ht'
    have hid := List.mem_map_of_mem (f := (·.id)) ht'
    rw [hids, List.mem_map] at hid
    obtain ⟨t₀, ht₀, hid⟩ := hid
    rw [← hid]
    exact hm.types_lt t₀ ht₀
  · intro id hid
    show id.index < m.ids.nextMethod + 1
    rcases List.mem_cons.1 (hmethods.mem_iff.1 hid) with rfl | hid
    · exact Nat.lt_succ_self _
    · exact Nat.lt_succ_of_lt (hm.methods_lt id hid)

end Module

/-! ### What reading markers leaves -/

theorem map_eq_of_forall₂ {α β : Type} {R : α → α → Prop} {f : α → β} {l l' : List α} (h : List.Forall₂ R l l')
    (hf : ∀ a b, R a b → f b = f a) : l'.map f = l.map f := by
  induction h with
  | nil => rfl
  | cons hab _ ih => rw [List.map_cons, List.map_cons, hf _ _ hab, ih]

/-- A parameter stays as it is, or loses its markers. -/
theorem forall₂_scanParams (names : MarkerNames) (params : List Param) :
    List.Forall₂ (fun p p' => p' = p ∨ p' = p.stripped names) params (scanParams names params).2 := by
  induction params with
  | nil => exact .nil
  | cons p params ih =>
    unfold scanParams
    split
    · exact List.forall₂_same.2 fun _ _ => .inl rfl
    · exact .cons (.inr rfl) ih

theorem Method.scan_rest_cases (x : Method) (names : MarkerNames) (owner : String) :
    (x.scan names owner).2 = x ∨
      (x.scan names owner).2 =
        { x with attributes := strip x.attributes names.rise, params := (scanParams names x.params).2 } := by
  unfold scan
  split
  · exact .inl rfl
  · exact .inr rfl

/-- A method stays as it is, or is left as when it is read by itself. -/
theorem forall₂_scanMethods (names : MarkerNames) (owner : String) (methods : List Method) :
    List.Forall₂ (fun x x' => x' = x ∨ x' = (x.scan names owner).2) methods (scanMethods names owner methods).rest := by
  induction methods with
  | nil => exact .nil
  | cons x methods ih =>
    unfold scanMethods
    split
    · rcases hscan : x.scan names owner with ⟨fault | a, rest⟩
      · exact .cons (.inr (by rw [hscan])) (List.forall₂_same.2 fun _ _ => .inl rfl)
      · exact .cons (.inr (by rw [hscan])) ih
    · exact .cons (.inl rfl) ih

theorem TypeDecl.scan_rest_cases (t : TypeDecl) (names : MarkerNames) :
    (t.scan names).rest = t ∨
      (t.scan names).rest =
        { t with attributes := strip t.attributes names.injection
                 methods := (scanMethods names t.name t.methods).rest } := by
  unfold scan
  split
  · exact .inr rfl
  · exact .inl rfl

private theorem Method.profile_scan (x : Method) (names : MarkerNames) (owner : String) (t : TypeDecl) :
    (x.scan names owner).2.profile t = x.profile t := by
  have hlength : (scanParams names x.params).2.length = x.params.length :=
    (forall₂_scanParams names x.params).length_eq.symm
  rcases x.scan_rest_cases names owner with h | h
  · rw [h]
  · rw [h]
    simp [profile, target, argCount, hlength]

theorem Method.profile_swept (x : Method) (names : MarkerNames) (t : TypeDecl) :
    (Weaving.swept names x).profile t = x.profile t := by
  simp [profile, target, argCount, Weaving.swept]

/-- To read the markers of a type changes no profile. -/
theorem TypeDecl.profiles_scan (t : TypeDecl) (names : MarkerNames) :
    (t.scan names).rest.profiles = t.profiles := by
  rcases t.scan_rest_cases names with h | h
  · rw [h]
  · rw [h]
    refine map_eq_of_forall₂ (forall₂_scanMethods names t.name t.methods) ?_
    rintro x _ (rfl | rfl)
    · rfl
    · exact x.profile_scan names t.name t

theorem TypeDecl.scan_rest_id (t : TypeDecl) (names : MarkerNames) :
    (t.scan names).rest.id = t.id := by
  unfold scan; split <;> rfl

/-- A marker type is read from a type that is marked as one. -/
theorem TypeDecl.marked_of_scan (t : TypeDecl) {names : MarkerNames} {marker : MarkerType}
    (h : (t.scan names).declared = .ok (some marker)) :
    marker.owner = t.id ∧ marker.name = t.name ∧ hasAttribute t.attributes names.injection := by
  obtain ⟨hmarked, advice, rfl, -⟩ := declared_eq_some_iff.1 h
  exact ⟨rfl, rfl, hmarked⟩

theorem TypeDecl.owner_of_scan (t : TypeDecl) {names : MarkerNames} {marker : MarkerType}
    (h : (t.scan names).declared = .ok (some marker)) : marker.owner = t.id :=
  (t.marked_of_scan h).1

end AdviceWeaving
