import AdviceWeaving.Proofs.Profiles
import AdviceWeaving.Proofs.Stage

/-!
# Injections

To weave a marker type is to put its advice into the wrappings of its targets
(`Weaving.at_injectTargets`), after its hidden members have been made (`Weaving.at_handleOf`).  Both
keep a workspace at a stage.
-/

namespace AdviceWeaving

namespace Workspace

variable {w w' : Workspace} {s : PassStage} {bodies : MethodId → Body}

/-- A change of the module that leaves the profiles as they are. -/
theorem Holds.of_profiles (h : w.Holds s bodies) {m : Module} (hm : m.Numbered)
    (hprofiles : m.profiles = s.module.profiles) (hids : m.ids = s.module.ids)
    (hmodule : w'.module = m.withBodies bodies) (hpass : w'.pass = w.pass) :
    w'.Holds { s with module := m } bodies where
  module_eq := hmodule
  numbered := hm
  around id b hb := by
    rw [hpass]
    exact h.around id b (by rw [← h.numbered.body?_congr hm hprofiles]; exact hb)
  unused id hid := by
    rw [hpass]
    exact h.unused id (hids ▸ hid)
  settings_eq := by rw [hpass]; exact h.settings_eq
  handles_eq := by rw [hpass]; exact h.handles_eq

end Workspace

/-! ### Advice in all targets -/

/-- Load the instance on which advice is called, if there is a handle. -/
def receiverOf (storage : HandleStorage) (handle? : Option Handle) (t : Target) :
    List Instruction :=
  handle?.elim [] fun handle => loadHandle storage handle.field t

theorem plain_receiverOf (storage : HandleStorage) (handle? : Option Handle) (t : Target) :
    Plain (receiverOf storage handle? t) := by
  cases handle? with
  | none => intro i hi; cases hi
  | some handle => exact plain_loadHandle storage handle.field t

namespace Weaving

open Step

variable {w w' : Workspace} {s : PassStage} {bodies : MethodId → Body} {u : Unit} {base : Body}

private theorem at_injectList {t : Target} {receiver : List Instruction}
    (hreceiver : Plain receiver) (advice : List Advice) (h : w.At s)
    (hbase : s.module.body? t.id = some base)
    (hy : Yields (forM advice fun a => injectAdvice a receiver t) w u w') :
    w'.At (s.set t.id (advice.foldl (·.add t receiver base.locals.size) (s.wrap t.id))) := by
  induction advice generalizing w s with
  | nil =>
    obtain rfl := yields_forM_nil.1 hy
    simpa [PassStage.set] using h
  | cons a advice ih =>
    obtain ⟨w₁, ha, hy⟩ := yields_forM_cons.1 hy
    have h₁ := ih (at_injectAdvice h hbase hreceiver ha) hbase hy
    rwa [PassStage.set_set, PassStage.wrap_set_self] at h₁

theorem at_injectAll {m : MarkerType} {handle? : Option Handle} {t : Target} (h : w.At s)
    (hbase : s.module.body? t.id = some base) (hy : Yields (injectAll m handle? t) w u w') :
    w'.At (s.set t.id (m.advice.foldl
      (·.add t (receiverOf s.settings.handleStorage handle? t) base.locals.size)
      (s.wrap t.id))) := by
  simp [injectAll] at hy
  obtain ⟨bodies, hholds⟩ := h
  rw [hholds.settings_eq] at hy
  exact at_injectList (plain_receiverOf _ _ t) m.advice ⟨bodies, hholds⟩ hbase hy

/-- The targets of a marker type are distinct, so each of their wrappings is changed once. -/
theorem at_injectTargets {m : MarkerType} {handle? : Option Handle} {targets : List Target}
    (hnodup : (targets.map (·.id)).Nodup) (h : w.At s)
    (hbodies : ∀ t ∈ targets, (s.module.body? t.id).isSome)
    (hy : Yields (forM targets (injectAll m handle?)) w u w') :
    ∃ wrap, w'.At { s with wrap } ∧
      (∀ t ∈ targets, ∀ b, s.module.body? t.id = some b → wrap t.id = m.advice.foldl
        (·.add t (receiverOf s.settings.handleStorage handle? t) b.locals.size) (s.wrap t.id)) ∧
      ∀ id, id ∉ targets.map (·.id) → wrap id = s.wrap id := by
  induction targets generalizing w s with
  | nil =>
    obtain rfl := yields_forM_nil.1 hy
    exact ⟨s.wrap, h, by simp, fun _ _ => rfl⟩
  | cons t targets ih =>
    rw [List.map_cons, List.nodup_cons] at hnodup
    obtain ⟨w₁, ht, hy⟩ := yields_forM_cons.1 hy
    obtain ⟨base, hbase⟩ := Option.isSome_iff_exists.1 (hbodies t List.mem_cons_self)
    have h₁ := at_injectAll h hbase ht
    obtain ⟨wrap, hat, htargets, hothers⟩ :=
      ih hnodup.2 h₁ (fun t' ht' => hbodies t' (List.mem_cons_of_mem t ht')) hy
    refine ⟨wrap, hat, ?_, ?_⟩
    · intro t' ht' b hb
      rcases List.mem_cons.1 ht' with rfl | ht'
      · cases hbase.symm.trans hb
        rw [hothers _ hnodup.1, PassStage.wrap_set_self]
      · have hne : t'.id ≠ t.id := fun hid => hnodup.1 (hid ▸ List.mem_map_of_mem ht')
        rw [htargets t' ht' b hb, s.wrap_set_of_ne hne]
        rfl
    · intro id hid
      rw [List.map_cons, List.mem_cons, not_or] at hid
      rw [hothers id hid.2, s.wrap_set_of_ne hid.1]

/-! ### Hidden members -/

private theorem holds_makeHandleField {t t₁ : TypeDecl} {bodies' : MethodId → Body} (h : w.Holds s bodies)
    (ht : s.module.type? t.id = some t₁) (hy : Yields (makeHandleField (t.withBodies bodies')) w u w') :
    w'.Holds { s with module := s.module.addHandleField s.settings.handleStorage t } bodies := by
  have hfield : (t.withBodies bodies').field? handleFieldName = t.field? handleFieldName := rfl
  rw [makeHandleField, hfield] at hy
  unfold Module.addHandleField
  split
  · next hnone =>
    rw [if_pos hnone, yields_get_bind, yields_updateModule, h.settings_eq] at hy
    subst hy
    refine h.of_profiles (h.numbered.updateType ht rfl rfl) (Module.profiles_updateType ht rfl) rfl ?_ rfl
    show w.module.updateType t.id _ = _
    rw [h.module_eq]
    exact Module.updateType_withBodies t.id fun _ _ => rfl
  · next hsome =>
    rw [if_neg hsome] at hy
    obtain ⟨-, rfl⟩ := yields_pure.1 hy
    exact h

end Weaving

/-- The wrappings of a stage, when the hidden method of the type `t` has been made. -/
def PassStage.initialized (s : PassStage) (t : TypeDecl) (k : MethodId) : Wrapping :=
  if (t.method? initializerName).isNone ∧ k ∈ t.constructorIds then
    { s.wrap k with entry := initializerCall (initializerSig t.name) ++ (s.wrap k).entry }
  else
    s.wrap k

namespace Weaving

open Step

variable {w w' : Workspace} {s : PassStage} {bodies : MethodId → Body} {u : Unit}

private theorem nodup_constructorIds {m : Module} (h : m.Numbered) {id : TypeId} {t : TypeDecl}
    (ht : m.type? id = some t) : t.constructorIds.Nodup := by
  have hin := (h.type?_eq_some_iff.1 ht).1
  have hmethods : (t.methods.map (·.id)).Nodup :=
    (List.nodup_flatMap.1 h.methods_nodup).1 t hin
  exact hmethods.sublist (List.filter_sublist.map _)

/-- The calls in front of the constructors of a type. -/
private theorem at_callInitializer {t : TypeDecl} {initializer : MethodSig} (h : w.Holds s bodies)
    (ht : s.module.type? t.id = some t) (hy : Yields (callInitializer (t.withBodies bodies) initializer) w u w') :
    w'.At { s with
      wrap := fun k =>
        if k ∈ t.constructorIds then
          { s.wrap k with entry := initializerCall initializer ++ (s.wrap k).entry }
        else s.wrap k } := by
  have hfold : ((t.withBodies bodies).methods.filter (·.constructs)).map (·.id) = t.constructorIds :=
    t.constructorIds_withBodies bodies
  simp only [callInitializer, yields_bind, yields_updateModule, yields_updatePass, yields_expect,
    TypeDecl.mapM_prologue?_eq_some_iff, hfold] at hy
  obtain ⟨_, w₁, ⟨⟨hfits, rfl⟩, hsame⟩, _, _, rfl, rfl⟩ := hy
  subst w₁
  have htype : (s.module.withBodies bodies).type? t.id = some (t.withBodies bodies) := by
    rw [Module.type?_withBodies, ht]
    rfl
  -- a constructor stands in the list once, so its cursor moves once
  have hnodup := nodup_constructorIds h.numbered ht
  have hcursor := Pass.cursor_foldl_advance w.pass (initializerCall initializer).length hnodup
  have hpass := Pass.foldl_advance_eq w.pass (initializerCall initializer).length t.constructorIds
  have hslot (k : MethodId) :
      (t.constructorIds.foldl (·.advance (initializerCall initializer).length) w.pass).slot? k =
        w.pass.slot? k := by
    rw [hpass]
    rfl
  have hroom : ∀ k ∈ t.constructorIds, (bodies k).SpliceFits 0 (initializerCall initializer) .displaced := by
    intro k hk
    obtain ⟨x, hx, rfl⟩ := List.mem_map.1 hk
    obtain ⟨hx, hc⟩ := List.mem_filter.1 hx
    obtain ⟨hconstructor, hbody⟩ := (Bool.and_eq_true ..).mp hc
    obtain ⟨b, hb⟩ := Option.isSome_iff_exists.1 hbody
    exact hfits _ (List.mem_map_of_mem hx) hconstructor _ (by simp [Method.withBody, hb])
  let bodies₁ (k : MethodId) : Body :=
    if k ∈ t.constructorIds then (bodies k).splice 0 (initializerCall initializer) .displaced
    else bodies k
  refine ⟨bodies₁, ?_, h.numbered, fun k b hb => ?_, fun k hk => ?_, ?_, ?_⟩
  · show w.module.updateType t.id _ = _
    rw [h.module_eq, ← h.numbered.prologue_withBodies ht, Module.updateType_eq_put htype rfl,
      Module.updateType_eq_put htype rfl]
  · have haround := h.around k b hb
    rw [hcursor, hslot]
    by_cases hk : k ∈ t.constructorIds
    · simpa [bodies₁, hk] using haround.spliceStart (plain_initializerCall initializer) (hroom k hk)
    · simpa [bodies₁, hk] using haround
  · have hnot : k ∉ t.constructorIds := by
      intro hmem
      rw [TypeDecl.constructorIds, List.mem_map] at hmem
      obtain ⟨x, hx, rfl⟩ := hmem
      have hin := (h.numbered.type?_eq_some_iff.1 ht).1
      have hlt := h.numbered.methods_lt x.id
        (Module.mem_methodIds.2 ⟨t, hin, x, (List.mem_filter.1 hx).1, rfl⟩)
      have hk : s.module.ids.nextMethod ≤ x.id.index := hk
      omega
    rw [hcursor, hslot]
    simpa [hnot] using h.unused k hk
  · rw [hpass]
    exact h.settings_eq
  · rw [hpass]
    exact h.handles_eq

/-- The new method is in no wrapping yet. -/
private theorem holds_pushMethod {owner : TypeId} {t : TypeDecl} {x : Method} {base : Body} {m : Module}
    {id : MethodId} (h : w.Holds s bodies) (ht : s.module.type? owner = some t)
    (hx : x.body = some base) (hpush : w.module.pushMethod owner x = some (m, id)) :
    ∃ m', s.module.pushMethod owner x = some (m', id) ∧
      ({ w with module := m } : Workspace).At { s with module := m' } := by
  let next : MethodId := ⟨s.module.ids.nextMethod⟩
  have hnext : s.module.body? next = none := by
    cases hb : s.module.body? next with
    | none => rfl
    | some b => exact absurd (h.numbered.lt_of_body? hb) (Nat.lt_irrefl _)
  have hold : ∀ k, (s.module.body? k).isSome → Function.update bodies next base k = bodies k := by
    intro k hk
    refine Function.update_of_ne ?_ ..
    rintro rfl
    rw [hnext] at hk
    cases hk
  obtain ⟨m', hm', hnumbered, -, hids, hprofiles, -, -⟩ := h.numbered.exists_pushMethod ht x
  have hbodies : w.module = s.module.withBodies (Function.update bodies next base) := by
    rw [h.module_eq]
    exact h.numbered.withBodies_congr fun k hk => (hold k hk).symm
  rw [hbodies, Module.pushMethod_withBodies owner (by rw [Function.update_self]; exact hx),
    hm'] at hpush
  cases hpush
  refine ⟨m', hm', _, ⟨rfl, hnumbered, ?_, ?_, h.settings_eq, h.handles_eq⟩⟩
  · intro k b hb
    obtain ⟨p, hp, rfl, hpb⟩ := hnumbered.body?_eq_some_iff_profile.1 hb
    rcases List.mem_cons.1 (hprofiles.mem_iff.1 hp) with rfl | hp
    · have hunused := h.unused next (Nat.le_refl _)
      have hb : base = b := Option.some.inj (hx.symm.trans hpb)
      show (s.wrap next).Around b (Function.update bodies next base next) (w.pass.cursor next)
        (w.pass.slot? next)
      rw [hunused.1, hunused.2.1, hunused.2.2, Function.update_self, hb]
      exact .start b
    · have hb := h.numbered.body?_eq_some_iff_profile.2 ⟨p, hp, rfl, hpb⟩
      show (s.wrap p.target.id).Around b (Function.update bodies next base p.target.id) _ _
      rw [hold _ (by rw [hb]; rfl)]
      exact h.around _ b hb
  · intro k hk
    refine h.unused k ?_
    have hk : m'.ids.nextMethod ≤ k.index := hk
    rw [hids] at hk
    exact Nat.le_of_succ_le hk

private theorem at_initializerOf {t : TypeDecl} {field : FieldSig} {initializer : MethodSig}
    (h : w.Holds s bodies) (ht : s.module.type? t.id = some t)
    (hfield : field = t.handle s.settings.handleStorage)
    (hy : Yields (initializerOf (t.withBodies bodies) field) w initializer w') :
    w'.At { s with
      module := s.module.addInitializer s.settings.handleStorage t
      wrap := s.initialized t } := by
  subst hfield
  rw [initializerOf, TypeDecl.method?_withBodies] at hy
  cases hm : t.method? initializerName with
  | some x =>
    rw [hm] at hy
    obtain ⟨rfl, rfl⟩ := yields_pure.1 hy
    have hwrap : s.initialized t = s.wrap := by funext k; simp [PassStage.initialized, hm]
    rw [hwrap, Module.addInitializer, if_neg (by simp [hm])]
    exact ⟨bodies, h⟩
  | none =>
    rw [hm] at hy
    simp [h.settings_eq] at hy
    obtain ⟨_, w₁, hcall, m, ⟨id, hpush⟩, rfl, rfl⟩ := hy
    obtain ⟨bodies₁, h₁⟩ := at_callInitializer h ht hcall
    obtain ⟨m', hm', h'⟩ := holds_pushMethod h₁ ht rfl hpush
    have hwrap : s.initialized t = fun k =>
        if k ∈ t.constructorIds then
          { s.wrap k with entry := initializerCall (initializerSig t.name) ++ (s.wrap k).entry }
        else s.wrap k := by
      funext k
      simp [PassStage.initialized, hm]
    have hadd : s.module.addInitializer s.settings.handleStorage t = m' := by
      rw [Module.addInitializer, if_pos (by simp [hm]), hm']
      rfl
    rw [hwrap, hadd]
    exact h'

/-- The handle of a marker type that has none yet. -/
theorem at_handleOf {id : TypeId} {handle : Handle} (h : w.At s) (hnew : s.handles.lookup id = none)
    (hy : Yields (handleOf id) w handle w') :
    ∃ t, s.module.type? id = some t ∧ handle.field = t.handle s.settings.handleStorage ∧
      w'.At
        { s with
          handles := (id, handle) :: s.handles
          module := (s.module.addHandleField s.settings.handleStorage t).addInitializer
            s.settings.handleStorage t
          wrap := s.initialized t } := by
  obtain ⟨bodies, h⟩ := h
  have hnone : w.pass.handle? id = none := by rw [Pass.handle?, h.handles_eq, hnew]
  rw [handleOf, yields_get_bind, hnone] at hy
  simp only at hy
  rw [yields_get_bind] at hy
  simp only [yields_bind, yields_expect, yields_updatePass, yields_pure, yields_get] at hy
  obtain ⟨t', w₀, ⟨htype, hsame⟩, hy⟩ := hy
  subst w₀
  obtain ⟨v, w₀, ⟨hv, hsame⟩, hy⟩ := hy
  subst w₀ v
  obtain ⟨initializer, w₁, hinit, _, w₂, hfield, _, _, rfl, rfl, rfl⟩ := hy
  rw [h.module_eq, Module.type?_withBodies, Option.map_eq_some_iff] at htype
  obtain ⟨t, ht, rfl⟩ := htype
  obtain rfl := Module.id_of_type? ht
  have hsig : (t.withBodies bodies).handle w.pass.settings.handleStorage = t.handle s.settings.handleStorage := by
    rw [h.settings_eq]
    rfl
  obtain ⟨bodies₁, h₁⟩ := at_initializerOf h ht hsig hinit
  obtain ⟨t₁, ht₁⟩ := Module.exists_type?_addInitializer ht s.settings.handleStorage
  have h₂ := holds_makeHandleField h₁ ht₁ hfield
  refine ⟨t, ht, hsig, bodies₁, ?_⟩
  rw [Module.addHandleField_addInitializer ht]
  exact ⟨h₂.module_eq, h₂.numbered, h₂.around, h₂.unused, h₂.settings_eq,
    congrArg ((t.id, _) :: ·) h₂.handles_eq⟩

end Weaving

end AdviceWeaving
