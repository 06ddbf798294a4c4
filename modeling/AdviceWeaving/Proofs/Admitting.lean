import AdviceWeaving.Proofs.Admissions
import AdviceWeaving.Proofs.Injecting

/-!
# One more marker type

One more marker type that is woven puts its advice behind that of the others, and maybe a call in
front of constructors: so it does in the wrappings of an outline (`Outline.wrapping_append`), and so
in those of a pass (`Weaving.at_inject`).
-/

namespace AdviceWeaving

/-! ### One more admission -/

/-- The advice of a marker type, put into a wrapping at one stroke. -/
private theorem Wrapping.foldl_add (t : Target) (receiver : List Instruction) (n : Nat)
    (advice : List Advice) (w : Wrapping) :
    advice.foldl (·.add t receiver n) w =
      { entry := w.entry ++ (advice.filter (·.timing = .onEntry)).flatMap (·.entryCode receiver t)
        exit := w.exit ++ (advice.filter (·.timing = .onExit)).flatMap fun a =>
          a.exitCode receiver t (if a.binds .targetReturnValue then some (UInt16.ofNat n) else none)
        slot? := w.slot?.or (if advice.any (·.takesResult) then some t.ret else none) } := by
  induction advice generalizing w with
  | nil => simp
  | cons a advice ih =>
    rw [List.foldl_cons, ih]
    cases htiming : a.timing with
    | onEntry => simp [Wrapping.add, htiming, Advice.takesResult]
    | onExit =>
      cases hbinds : a.binds .targetReturnValue with
      | false => simp [Wrapping.add, htiming, hbinds, Advice.takesResult]
      | true =>
        cases hslot : w.slot? <;>
          simp [Wrapping.add, htiming, hbinds, hslot, Advice.takesResult]

/-- The call of the hidden method that a woven marker type brings to a constructor of it. -/
def Admission.prologue (a : Admission) (p : Profile) : List Instruction :=
  if p.target.isConstructor && (a.marker.owner = p.owner && a.initializes) then
    initializerCall (initializerSig p.target.owner)
  else
    []

/-- What a woven marker type adds to the wrapping around a body. -/
def Admission.around (storage : HandleStorage) (a : Admission) (p : Profile) (n : Nat)
    (w : Wrapping) : Wrapping :=
  let w := { w with entry := a.prologue p ++ w.entry }
  if p.target ∈ a.targets then
    a.marker.advice.foldl (·.add p.target (a.receiver storage p.target) n) w
  else
    w

namespace Outline

variable {storage : HandleStorage} {o : Outline} {a : Admission} {p : Profile} {n : Nat}

private theorem adviceFor_append (m : Module) (t : Target) :
    (Outline.mk m (o.admissions ++ [a])).adviceFor t =
      o.adviceFor t ++ if t ∈ a.targets then a.marker.advice.map (a, ·) else [] := by
  simp only [adviceFor, List.filter_append, List.flatMap_append]
  by_cases h : t ∈ a.targets <;> simp [h]

theorem initializes_append (m : Module) (id : TypeId) :
    (Outline.mk m (o.admissions ++ [a])).initializes id =
      (o.initializes id || (a.marker.owner = id && a.initializes)) := by
  simp [initializes]

/-- The hidden method of a type is made once, so its call comes in front of all that is there. -/
theorem wrapping_append (m : Module)
    (hnew : ∀ a' ∈ o.admissions, a'.marker.owner ≠ a.marker.owner) :
    (Outline.mk m (o.admissions ++ [a])).wrapping storage p n =
      a.around storage p n (o.wrapping storage p n) := by
  have hprologue : (Outline.mk m (o.admissions ++ [a])).prologue p =
      a.prologue p ++ o.prologue p := by
    rw [prologue, initializes_append, prologue, Admission.prologue]
    by_cases howner : a.marker.owner = p.owner
    · have hold : o.initializes p.owner = false := by
        simp only [initializes, List.any_eq_false]
        intro a' ha'
        simp [howner ▸ hnew a' ha']
      cases p.target.isConstructor <;> simp [hold]
    · simp [howner]
  unfold Admission.around wrapping
  rw [hprologue, adviceFor_append]
  by_cases ht : p.target ∈ a.targets
  · simp only [if_pos ht, Wrapping.foldl_add]
    have hslot (b b' : Bool) : (if (b || b') = true then some p.target.ret else none) =
        (if b = true then some p.target.ret else none).or
        (if b' = true then some p.target.ret else none) := by
      cases b <;> cases b' <;> rfl
    simp only [List.filter_append, List.filter_map, List.flatMap_append, List.flatMap_map,
      Function.comp_def, List.any_append, List.any_map, List.append_assoc, hslot]
    rfl
  · simp only [if_neg ht, List.append_nil, List.append_assoc]

end Outline

/-! ### Injections -/

/-- A workspace has come from the stage `s` of the outline `o` to one of the outline `o'`, in which the
marker type `m` is woven too, as the admission `a`. -/
structure Workspace.Enlisted (w : Workspace) (s : PassStage) (o o' : Outline) (m : MarkerType)
    (handles : List (TypeId × Handle)) (wrap : MethodId → Wrapping) (a : Admission) : Prop where
  at_stage : w.At ⟨s.settings, handles, o'.module, wrap⟩
  handles_eq : ∀ id, id ≠ m.owner → handles.lookup id = s.handles.lookup id
  marker_eq : a.marker = m
  admissions_eq : o'.admissions = o.admissions ++ [a]
  wrap_eq : ∀ p ∈ o'.module.profiles, ∀ b, p.body = some b →
    wrap p.target.id = a.around s.settings.handleStorage p b.locals.size (s.wrap p.target.id)

namespace Weaving

open Step

variable {w w' : Workspace} {s : PassStage} {o : Outline} {m : MarkerType} {u : Unit}

theorem targets_of_at (h : w.At s) (marker : String) :
    w.module.targets marker = s.module.targets marker := by
  obtain ⟨bodies, hholds⟩ := h
  rw [hholds.module_eq, Module.targets_withBodies]

theorem at_handleFor {handle? : Option Handle} (h : w.At s) (hnew : s.handles.lookup m.owner = none)
    (hy : Yields (handleFor m) w handle? w') :
    (m.advice.any (!·.isStatic) = false ∧ handle? = none ∧ w' = w) ∨
    (m.advice.any (!·.isStatic) = true ∧ ∃ handle t, handle? = some handle ∧
      s.module.type? m.owner = some t ∧ handle.field = t.handle s.settings.handleStorage ∧
      w'.At
        { s with
          handles := (m.owner, handle) :: s.handles
          module := (s.module.addHandleField s.settings.handleStorage t).addInitializer
            s.settings.handleStorage t
          wrap := s.initialized t }) := by
  obtain hstatic | ⟨hany, handle, rfl, hhandle⟩ := yields_handleFor_iff.1 hy
  · exact .inl hstatic
  · obtain ⟨t, ht, hfield, hat⟩ := at_handleOf h hnew hhandle
    exact .inr ⟨hany, handle, t, rfl, ht, hfield, hat⟩

/-- The calls in front of constructors are those of the outline. -/
private theorem initialized_eq {m₀ m₁ : Module} (h₀ : m₀.Numbered) {t : TypeDecl}
    (ht : m₀.type? t.id = some t) {storage : HandleStorage}
    (hm₁ : (m₀.addHandleField storage t).addInitializer storage t = m₁) {a : Admission}
    (howner : a.marker.owner = t.id) (hinit : a.initializes = (t.method? initializerName).isNone)
    {p : Profile} (hp : p ∈ m₁.profiles) {b : Body} (hb : p.body = some b) :
    s.initialized t p.target.id =
      { s.wrap p.target.id with entry := a.prologue p ++ (s.wrap p.target.id).entry } := by
  rcases (hm₁ ▸ h₀.gainsHandle ht storage).profiles p hp with hp | ⟨hinitializer, hid⟩
  · have hmem := h₀.mem_constructorIds ht hp
    rw [hb] at hmem
    by_cases hc : p.owner = t.id ∧ p.target.isConstructor
    · have hname := h₀.owner_name ht hp hc.1
      cases hm : t.method? initializerName <;>
        simp [PassStage.initialized, Admission.prologue, hm, hmem, hc, howner, hinit, hname]
    · have hnot : p.target.id ∉ t.constructorIds := fun hin => hc ⟨(hmem.1 hin).1, (hmem.1 hin).2.1⟩
      have hprologue : a.prologue p = [] := by
        rw [Admission.prologue, if_neg]
        simp only [Bool.and_eq_true, decide_eq_true_eq, howner]
        exact fun h => hc ⟨h.2.1.symm, h.1⟩
      simp [PassStage.initialized, hnot, hprologue]
  · -- the hidden method itself is new, and no constructor
    have hnot : p.target.id ∉ t.constructorIds := by
      intro hin
      obtain ⟨x, hx, hxid⟩ := List.mem_map.1 hin
      have hlt := h₀.methods_lt x.id (Module.mem_methodIds.2
        ⟨t, (h₀.type?_eq_some_iff.1 ht).1, x, (List.mem_filter.1 hx).1, rfl⟩)
      rw [hxid, hid] at hlt
      exact Nat.lt_irrefl _ hlt
    have hconstructor : p.target.isConstructor = false := by
      rw [Target.isConstructor, hinitializer.name_eq]
      rfl
    simp [PassStage.initialized, Admission.prologue, hnot, hconstructor]

/-- One more marker type in its targets, with or without a handle. -/
private theorem at_targets_of_admission {s₁ : PassStage} {a : Admission} {handle? : Option Handle}
    (h : w.At s₁) (hhandle : a.handle? = handle?.map (·.field))
    (hnodup : (a.targets.map (·.id)).Nodup)
    (hold : ∀ t ∈ a.targets, ∃ p ∈ s₁.module.profiles, p.target = t ∧ p.body.isSome)
    (hy : Yields (forM a.targets (injectAll a.marker handle?)) w u w') :
    ∃ wrap, w'.At { s₁ with wrap } ∧ ∀ p ∈ s₁.module.profiles, ∀ b, p.body = some b →
      wrap p.target.id =
        if p.target ∈ a.targets then
          a.marker.advice.foldl
            (·.add p.target (a.receiver s₁.settings.handleStorage p.target) b.locals.size)
            (s₁.wrap p.target.id)
        else s₁.wrap p.target.id := by
  have hnumbered : s₁.module.Numbered := h.choose_spec.numbered
  have hreceiver (t : Target) : receiverOf s₁.settings.handleStorage handle? t =
      a.receiver s₁.settings.handleStorage t := by
    rw [receiverOf, Admission.receiver, hhandle]
    cases handle? <;> rfl
  have hbodies : ∀ t ∈ a.targets, (s₁.module.body? t.id).isSome := by
    intro t ht
    obtain ⟨p, hp, rfl, hbody⟩ := hold t ht
    rwa [hnumbered.body?_of_profile hp]
  obtain ⟨wrap, hat, htargets, hothers⟩ := at_injectTargets hnodup h hbodies hy
  refine ⟨wrap, hat, fun p hp b hb => ?_⟩
  split
  · next ht =>
    rw [htargets p.target ht b (by rw [hnumbered.body?_of_profile hp, hb]), hreceiver]
  · next ht =>
    refine hothers _ fun hmem => ht ?_
    obtain ⟨t, htin, hid⟩ := List.mem_map.1 hmem
    obtain ⟨q, hq, rfl, _⟩ := hold t htin
    rwa [hnumbered.profile_eq hp hq hid.symm]

private theorem at_injectInto (h : w.At s) (hmodule : s.module = o.module)
    (hnew : s.handles.lookup m.owner = none)
    (hwoven : ¬ ((o.module.targets m.name).isEmpty ∨
      (m.firstViolation? (o.module.targets m.name)).isSome))
    (hy : Yields (injectInto m (o.module.targets m.name)) w u w') :
    ∃ handles wrap a, w'.Enlisted s o (o.enlist s.settings m) m handles wrap a := by
  have hnumbered : o.module.Numbered := hmodule ▸ h.choose_spec.numbered
  have hold : ∀ t ∈ o.module.targets m.name,
      ∃ p ∈ o.module.profiles, p.target = t ∧ p.body.isSome := fun t ht => Module.mem_targets ht
  obtain ⟨handle?, w₁, w₂, hhandle, hforM, rfl⟩ := yields_injectInto_iff.1 hy
  rcases at_handleFor h hnew hhandle with ⟨hstatic, rfl, rfl⟩ |
    ⟨hinstance, handle, t, rfl, ht, hfield, h₁⟩
  · let a : Admission := { marker := m, targets := o.module.targets m.name }
    rw [Outline.enlist_of_static hwoven hstatic]
    obtain ⟨wrap, hat, hwrap⟩ := at_targets_of_admission (a := a) h rfl
      (hnumbered.nodup_targets m.name) (by rw [hmodule]; exact hold) hforM
    rw [hmodule] at hat hwrap
    refine ⟨s.handles, wrap, a, hat.of_eq rfl rfl rfl rfl rfl, fun _ _ => rfl, rfl, rfl,
      fun p hp b hb => ?_⟩
    have hprologue : a.prologue p = [] := by simp [Admission.prologue, a]
    simp only [Admission.around, hprologue, List.nil_append]
    exact hwrap p hp b hb
  · let a : Admission :=
      { marker := m
        targets := o.module.targets m.name
        handle? := some (t.handle s.settings.handleStorage)
        initializes := (t.method? initializerName).isNone }
    rw [hmodule] at ht h₁
    have hid := Module.id_of_type? ht
    rw [Outline.enlist_of_instance hwoven hinstance ht]
    have hgains := hnumbered.gainsHandle (hid.symm ▸ ht) s.settings.handleStorage
    generalize hm' : (o.module.addHandleField s.settings.handleStorage t).addInitializer
      s.settings.handleStorage t = m' at hgains h₁ ⊢
    have hreported : (w₁.warned m (some handle) a.targets).At
        ⟨s.settings, (m.owner, handle) :: s.handles, m', s.initialized t⟩ :=
      h₁.of_eq rfl rfl rfl rfl rfl
    obtain ⟨wrap, hat, hwrap⟩ := at_targets_of_admission (a := a) hreported (by simp [a, hfield])
      (hnumbered.nodup_targets m.name)
      (fun t' ht' => (hold t' ht').imp fun p hp => ⟨hgains.kept p hp.1, hp.2⟩) hforM
    refine ⟨_, wrap, a, hat.of_eq rfl rfl rfl rfl rfl, fun id hne => ?_, rfl, rfl,
      fun p hp b hb => ?_⟩
    · simp [List.lookup_cons, beq_false_of_ne hne]
    · rw [hwrap p hp b hb, Admission.around]
      simp only [initialized_eq (s := s) hnumbered (hid.symm ▸ ht) hm' (a := a) hid.symm rfl hp hb]

theorem at_inject {accepted : Bool} (h : w.At s) (hmodule : s.module = o.module)
    (hnew : s.handles.lookup m.owner = none) (hy : Yields (inject m) w accepted w') :
    o.enlist s.settings m = o ∧ w'.At s ∨
      ∃ handles wrap a, w'.Enlisted s o (o.enlist s.settings m) m handles wrap a := by
  have htargets : w.module.targets m.name = o.module.targets m.name := by
    rw [targets_of_at h, hmodule]
  have h₁ : (w.presented m).At s := h.of_eq rfl rfl rfl rfl rfl
  rcases yields_inject_iff.1 hy with ⟨hempty, -, rfl⟩ | ⟨-, _, _, hviolation, -, rfl⟩ |
    ⟨hne, hlawful, -, hinto⟩
  · rw [htargets] at hempty
    exact .inl ⟨Outline.enlist_of_rejected (.inl (by rw [hempty]; rfl)), h₁.of_eq rfl rfl rfl rfl rfl⟩
  · rw [htargets] at hviolation
    exact .inl ⟨Outline.enlist_of_rejected (.inr (by rw [hviolation]; rfl)),
      h₁.of_eq rfl rfl rfl rfl rfl⟩
  · rw [htargets] at hne hlawful hinto
    exact .inr (at_injectInto h₁ hmodule hnew (by simp [hne, hlawful]) hinto)

end Weaving

end AdviceWeaving
