import AdviceWeaving.Proofs.Calls
import AdviceWeaving.Proofs.JoinPoints
import AdviceWeaving.Proofs.JsonModules
import AdviceWeaving.Proofs.Shape

/-!
# What becomes of a marker type

To weave a marker type ends in one of four ways.  It has no targets, or its advice breaks a rule, and then nothing but
diagnostics comes of it; or its advice is put into all targets (`Workspace.Woven`); or it has to stop at the first
target whose return value finds no local (`Workspace.Stuck`), with the targets in front woven and those behind not
(`Workspace.StoppedAt`).  `Weaving.outcome_inject` tells which.
-/

namespace AdviceWeaving

/-! ### Hidden members -/

namespace Module

variable {m : Module}

private theorem withBodies_withBodies (bodies bodies' : MethodId → Body) :
    (m.withBodies bodies).withBodies bodies' = m.withBodies bodies' := by
  have hmethod (x : Method) (b b' : Body) : (x.withBody b).withBody b' = x.withBody b' := by
    simp [Method.withBody, Function.comp_def]
  simp [withBodies, TypeDecl.withBodies, Function.comp_def, hmethod]

/-- A type that is changed may keep its attributes. -/
private theorem attributes_updateType {id : TypeId} {t : TypeDecl} (h : m.type? id = some t) {f : TypeDecl → TypeDecl}
    (hid : (f t).id = t.id) (hattributes : (f t).attributes = t.attributes) (k : TypeId) :
    ((m.updateType id f).type? k).map (·.attributes) = (m.type? k).map (·.attributes) := by
  by_cases hk : k = id
  · rw [hk, type?_updateType_self h hid, h, Option.map_some, Option.map_some, hattributes]
  · rw [type?_updateType_of_ne h hid hk]

theorem attributes_withBodies (bodies : MethodId → Body) (id : TypeId) :
    ((m.withBodies bodies).type? id).map (·.attributes) = (m.type? id).map (·.attributes) := by
  rw [type?_withBodies, Option.map_map]
  rfl

/-- Code in front of the constructors of a type changes no more than code. -/
private theorem Numbered.prologue (h : m.Numbered) {id : TypeId} {t : TypeDecl} (ht : m.type? id = some t)
    (code : List Instruction) :
    let m' := m.updateType id fun t => { t with methods := t.methods.map (·.prologue code) }
    m'.Numbered ∧ (∀ k, (m'.type? k).map (·.attributes) = (m.type? k).map (·.attributes)) ∧
      ∀ k b, m.body? k = some b → ∃ b', m'.body? k = some b' ∧ b'.locals = b.locals := by
  intro m'
  have hm' : m' = m.withBodies fun k =>
      if k ∈ t.constructorIds then ((m.body? k).getD default).splice 0 code .displaced
      else (m.body? k).getD default := by
    have hprologue : (m.withBodies fun k => (m.body? k).getD default).updateType id _ = _ :=
      h.prologue_withBodies ht code
    rwa [h.withBodies_self] at hprologue
  refine ⟨hm' ▸ h.withBodies _, fun k => hm' ▸ attributes_withBodies _ k, fun k b hb => ?_⟩
  refine ⟨if k ∈ t.constructorIds then b.splice 0 code .displaced else b, ?_, by split <;> rfl⟩
  rw [hm', body?_withBodies, hb]
  rfl

end Module

/-- The hidden members of a marker type may have been made; the targets are as they were, but for code in them, and
types keep their attributes. -/
structure Workspace.Equipped (w w' : Workspace) : Prop where
  numbered : w'.module.Numbered
  attributes_eq : ∀ id, (w'.module.type? id).map (·.attributes) = (w.module.type? id).map (·.attributes)
  locals : ∀ k b, w.module.body? k = some b → ∃ b', w'.module.body? k = some b' ∧ b'.locals = b.locals
  slots_eq : w'.pass.slots = w.pass.slots
  settings_eq : w'.pass.settings = w.pass.settings

namespace Workspace.Equipped

variable {w w₁ w' : Workspace}

private theorem refl (h : w.module.Numbered) : w.Equipped w :=
  ⟨h, fun _ => rfl, fun _ b hb => ⟨b, hb, rfl⟩, rfl, rfl⟩

private theorem trans (h : w.Equipped w₁) (h' : w₁.Equipped w') : w.Equipped w' where
  numbered := h'.numbered
  attributes_eq id := (h'.attributes_eq id).trans (h.attributes_eq id)
  locals k b hb := by
    obtain ⟨b₁, hb₁, hlocals₁⟩ := h.locals k b hb
    obtain ⟨b', hb', hlocals⟩ := h'.locals k b₁ hb₁
    exact ⟨b', hb', hlocals.trans hlocals₁⟩
  slots_eq := h'.slots_eq.trans h.slots_eq
  settings_eq := h'.settings_eq.trans h.settings_eq

private theorem isSome_body? (h : w.Equipped w') {id : MethodId} (hid : (w.module.body? id).isSome) :
    (w'.module.body? id).isSome := by
  obtain ⟨b, hb⟩ := Option.isSome_iff_exists.1 hid
  obtain ⟨b', hb', -⟩ := h.locals id b hb
  rw [hb']
  rfl

/-- A local is left for a return value or not, as before. -/
private theorem full_iff (h : w.Equipped w') {id : MethodId} (hid : (w.module.body? id).isSome) :
    (w'.point id).Full ↔ (w.point id).Full := by
  obtain ⟨b, hb⟩ := Option.isSome_iff_exists.1 hid
  obtain ⟨b', hb', hlocals⟩ := h.locals id b hb
  simp only [JoinPoint.Full, point, hb, hb', Option.getD_some, hlocals, Pass.slot?, h.slots_eq]

end Workspace.Equipped

namespace Weaving

open Step Workspace

variable {w w' : Workspace} {u : Unit} {failure : Failure}

private theorem equipped_makeHandleField (h : w.module.Numbered) {t t₁ : TypeDecl}
    (ht : w.module.type? t.id = some t₁) (hy : Yields (makeHandleField t) w u w') : w.Equipped w' := by
  unfold makeHandleField at hy
  split at hy
  · rw [yields_get_bind, yields_updateModule] at hy
    subst hy
    let add (t' : TypeDecl) : TypeDecl :=
      { t' with fields := t'.fields ++ [handleField w.pass.settings.handleStorage t] }
    have hnumbered := h.updateType (f := add) ht rfl rfl
    have hprofiles := Module.profiles_updateType (f := add) ht rfl
    refine ⟨hnumbered, fun k => ?_, fun k b hb => ⟨b, ?_, rfl⟩, rfl, rfl⟩
    · exact Module.attributes_updateType ht (f := add) rfl rfl k
    · exact (h.body?_congr hnumbered hprofiles k).trans hb
  · obtain ⟨-, rfl⟩ := yields_pure.1 hy
    exact .refl h

private theorem equipped_callInitializer (h : w.module.Numbered) {t : TypeDecl} {initializer : MethodSig}
    (ht : w.module.type? t.id = some t) (hy : Yields (callInitializer t initializer) w u w') :
    w.Equipped w' ∧ (w'.module.type? t.id).isSome := by
  simp only [callInitializer, yields_bind, yields_updateModule, yields_updatePass, yields_expect,
    TypeDecl.mapM_prologue?_eq_some_iff] at hy
  obtain ⟨_, w₁, ⟨⟨-, rfl⟩, hsame⟩, _, _, rfl, rfl⟩ := hy
  subst w₁
  let call (t' : TypeDecl) : TypeDecl :=
    { t' with methods := t'.methods.map (·.prologue (initializerCall initializer)) }
  have hcall : w.module.updateType t.id (fun t' =>
      { t' with methods := t.methods.map (·.prologue (initializerCall initializer)) }) =
      w.module.updateType t.id call := by
    rw [Module.updateType_eq_put ht rfl, Module.updateType_eq_put ht rfl]
  obtain ⟨hnumbered, hattributes, hlocals⟩ := h.prologue ht (initializerCall initializer)
  rw [hcall]
  refine ⟨⟨hnumbered, hattributes, hlocals, ?_, ?_⟩, ?_⟩
  · simp only
    rw [Pass.foldl_advance_eq]
  · simp only
    rw [Pass.foldl_advance_eq]
  · show ((w.module.updateType t.id call).type? t.id).isSome
    rw [Module.type?_updateType_self ht rfl]
    rfl

private theorem equipped_initializerOf (h : w.module.Numbered) {t : TypeDecl} {field : FieldSig}
    {initializer : MethodSig} (ht : w.module.type? t.id = some t)
    (hy : Yields (initializerOf t field) w initializer w') :
    w.Equipped w' ∧ (w'.module.type? t.id).isSome := by
  unfold initializerOf at hy
  split at hy
  · obtain ⟨-, rfl⟩ := yields_pure.1 hy
    exact ⟨.refl h, by rw [ht]; rfl⟩
  · simp at hy
    obtain ⟨_, w₁, hcall, m, ⟨id, hpush⟩, rfl, -⟩ := hy
    obtain ⟨hcalled, htype⟩ := equipped_callInitializer h ht hcall
    obtain ⟨t₁, ht₁⟩ := Option.isSome_iff_exists.1 htype
    obtain ⟨m', hm', hnumbered, -, -, hprofiles, htype, hothers⟩ :=
      hcalled.numbered.exists_pushMethod ht₁ (initializerMethod w.pass.settings.handleStorage field)
    cases hm'.symm.trans hpush
    -- the method is new, so the bodies that were there stay
    have hpushed : w₁.Equipped { w₁ with module := m } := by
      refine ⟨hnumbered, fun k => ?_, fun k b hb => ⟨b, ?_, rfl⟩, rfl, rfl⟩
      · by_cases hk : k = t.id
        · rw [hk, htype, ht₁]
          rfl
        · rw [hothers k hk]
      obtain ⟨p, hp, hid, hbody⟩ := hcalled.numbered.body?_eq_some_iff_profile.1 hb
      exact hnumbered.body?_eq_some_iff_profile.2
        ⟨p, hprofiles.mem_iff.2 (List.mem_cons_of_mem _ hp), hid, hbody⟩
    exact ⟨hcalled.trans hpushed, by rw [htype]; rfl⟩

theorem equipped_handleOf (h : w.module.Numbered) {id : TypeId} {handle : Handle}
    (hy : Yields (handleOf id) w handle w') : w.Equipped w' := by
  rw [handleOf, yields_get_bind] at hy
  split at hy
  · obtain ⟨-, rfl⟩ := yields_pure.1 hy
    exact .refl h
  · rw [yields_get_bind, yields_bind] at hy
    obtain ⟨t, w₀, hexpect, hy⟩ := hy
    obtain ⟨ht, hsame⟩ := yields_expect.1 hexpect
    subst w₀
    rw [yields_get_bind] at hy
    simp only [yields_bind, yields_updatePass, yields_pure] at hy
    obtain ⟨initializer, w₁, hinit, _, w₂, hfield, _, _, rfl, -, rfl⟩ := hy
    obtain rfl := Module.id_of_type? ht
    obtain ⟨h₁, htype⟩ := equipped_initializerOf h ht hinit
    obtain ⟨t₁, ht₁⟩ := Option.isSome_iff_exists.1 htype
    have h₂ := h₁.trans (equipped_makeHandleField h₁.numbered ht₁ hfield)
    exact ⟨h₂.numbered, h₂.attributes_eq, h₂.locals, h₂.slots_eq, h₂.settings_eq⟩

private theorem equipped_handleFor (h : w.module.Numbered) {m : MarkerType} {handle? : Option Handle}
    (hy : Yields (handleFor m) w handle? w') : w.Equipped w' := by
  obtain ⟨-, -, rfl⟩ | ⟨-, handle, -, hhandle⟩ := yields_handleFor_iff.1 hy
  · exact .refl h
  · exact equipped_handleOf h hhandle

private theorem fails_handleFor {m : MarkerType} (hf : Fails (handleFor m) w failure w')
    (hlocal : failure ≠ .overflow) :
    w.module.type? m.owner = none ∧ failure = .unknownType m.owner ∧ w' = w := by
  obtain ⟨-, rfl, hmissing | ⟨t, -, -, hfailure⟩⟩ := fails_handleOf_iff.1 (fails_handleFor_iff.1 hf).2
  · exact ⟨hmissing.1, hmissing.2, rfl⟩
  · exact absurd hfailure hlocal

end Weaving

/-! ### Outcomes -/

/-- Only diagnostics and numbers have come to a pass. -/
structure Workspace.Untouched (w w' : Workspace) : Prop where
  module_eq : w'.module = w.module
  caches : w.pass.SameCaches w'.pass

private theorem Workspace.Untouched.refl (w : Workspace) : w.Untouched w :=
  ⟨rfl, .refl w.pass⟩

private theorem Workspace.Untouched.equipped {w w' : Workspace} (h : w.Untouched w')
    (hw : w.module.Numbered) : w.Equipped w' where
  numbered := h.module_eq ▸ hw
  attributes_eq id := by rw [h.module_eq]
  locals k b hb := ⟨b, by rw [h.module_eq, hb], rfl⟩
  slots_eq := h.caches.slots_eq
  settings_eq := h.caches.settings_eq

/-- The hidden members of a marker type have been made, if it needs them. -/
def Workspace.Prepared (w : Workspace) (m : MarkerType) (handle? : Option Handle) (w₁ : Workspace) :
    Prop :=
  ∃ w₀, w.Untouched w₀ ∧ Step.Yields (Weaving.handleFor m) w₀ handle? w₁

theorem Workspace.Prepared.equipped {w w' : Workspace} {m : MarkerType} {handle? : Option Handle}
    (h : w.Prepared m handle? w')
    (hw : w.module.Numbered) : w.Equipped w' := by
  obtain ⟨w₀, h₀, hhandle⟩ := h
  exact (h₀.equipped hw).trans (Weaving.equipped_handleFor (h₀.module_eq ▸ hw) hhandle)

/-- Advice has been put into the given targets, and into nothing else. -/
structure Workspace.Injected (w : Workspace) (m : MarkerType) (handle? : Option Handle)
    (targets : List Target) (w' : Workspace) : Prop where
  woven : ∀ t ∈ targets, (w.point t.id).weaveAll m t
    (receiverOf w.pass.settings.handleStorage handle? t) = some (w'.point t.id)
  others : ∀ id, id ∉ targets.map (·.id) → w'.point id = w.point id
  members : ∀ bodies, w'.module.withBodies bodies = w.module.withBodies bodies

/-- The hidden members have been made, and all advice of a marker type has been put into all its targets. -/
def Workspace.Woven (w : Workspace) (m : MarkerType) (targets : List Target) (w' : Workspace) : Prop :=
  ∃ handle? w₁, w.Prepared m handle? w₁ ∧ w₁.Injected m handle? targets w'

/-- The return value of `t` finds no local. Advice has been put into the targets in front of `t`; in `t` itself there is
the advice in front of what asks for the local. -/
structure Workspace.HaltedAt (w : Workspace) (m : MarkerType) (handle? : Option Handle)
    (targets : List Target) (t : Target) (w' : Workspace) : Prop where
  full : (w.point t.id).Full
  front : ∃ front back, targets = front ++ t :: back ∧
    (∀ t' ∈ front, (w.point t'.id).weaveAll m t'
      (receiverOf w.pass.settings.handleStorage handle? t') = some (w'.point t'.id)) ∧
    ∀ id, id ∉ (front ++ [t]).map (·.id) → w'.point id = w.point id
  done : ∃ done a rest, m.advice = done ++ a :: rest ∧ a.takesResult ∧
    done.foldlM (JoinPoint.weave t (receiverOf w.pass.settings.handleStorage handle? t))
      (w.point t.id) = some (w'.point t.id)
  members : ∀ bodies, w'.module.withBodies bodies = w.module.withBodies bodies

/-- The hidden members have been made, and then the weaving of the targets has come to an end at `t`. -/
def Workspace.StoppedAt (w : Workspace) (m : MarkerType) (targets : List Target) (t : Target)
    (w' : Workspace) : Prop :=
  ∃ handle? w₁, w.Prepared m handle? w₁ ∧ w₁.HaltedAt m handle? targets t w'

namespace Weaving

open Step Workspace

variable {w w₀ w' : Workspace} {m : MarkerType} {u : Unit} {failure : Failure}

private theorem isSome_of_mem_targets {m : Module} (h : m.Numbered) {marker : String} {t : Target}
    (ht : t ∈ m.targets marker) : (m.body? t.id).isSome := by
  obtain ⟨p, hp, rfl, hbody⟩ := Module.mem_targets ht
  rwa [h.body?_of_profile hp]

private theorem point_of_hasPoints {points : MethodId → JoinPoint}
    (h' : w'.HasPoints w.module points) {id : MethodId} (hid : points id = w.point id) :
    w'.point id = w.point id := by
  cases hb : w.module.body? id with
  | some b => rw [h'.point_eq (by rw [hb]; rfl), hid]
  | none =>
    rw [point, h'.module_eq, Module.body?_withBodies, hb, h'.cursor_eq, h'.slot?_eq, hid]
    simp [point, hb]

private theorem injected_of_points {handle? : Option Handle} {targets : List Target}
    (hbodies : ∀ t ∈ targets, (w.module.body? t.id).isSome) {points : MethodId → JoinPoint}
    (h' : w'.HasPoints w.module points)
    (htargets : ∀ t ∈ targets, (w.point t.id).weaveAll m t
      (receiverOf w.pass.settings.handleStorage handle? t) = some (points t.id))
    (hothers : ∀ id, id ∉ targets.map (·.id) → points id = w.point id) :
    w.Injected m handle? targets w' where
  woven t ht := by rw [htargets t ht, h'.point_eq (hbodies t ht)]
  others id hid := point_of_hasPoints h' (hothers id hid)
  members bodies := by rw [h'.module_eq, Module.withBodies_withBodies]

/-- To count a marker type and to find its targets does no more than to count and to report. -/
private theorem untouched_presented (w : Workspace) (m : MarkerType) : w.Untouched (w.presented m) :=
  ⟨rfl, rfl, rfl, rfl, rfl⟩

/-- To warn of static targets does no more than to report. -/
private theorem untouched_warned (w : Workspace) (m : MarkerType) (handle? : Option Handle) (targets : List Target) :
    w.Untouched (w.warned m handle? targets) := by
  unfold warned
  split
  · exact ⟨rfl, rfl, rfl, rfl, rfl⟩
  · exact .refl w

/-- The join points of the targets, once the hidden members have been made. -/
private theorem hasPoints_of_untouched {w₁ w₂ : Workspace} (h₁ : w₁.module.Numbered)
    (h₂ : w₁.Untouched w₂) : w₂.HasPoints w₁.module w₁.point := by
  have hpoints := hasPoints h₁
  exact ⟨h₂.module_eq.trans hpoints.module_eq, fun id => (h₂.caches.cursor id).trans (hpoints.cursor_eq id),
    fun id => (h₂.caches.slot? id).trans (hpoints.slot?_eq id)⟩

private theorem woven_injectInto (h : w.module.Numbered) (h₀ : w.Untouched w₀)
    (hy : Yields (injectInto m (w.module.targets m.name)) w₀ u w') :
    w.Woven m (w.module.targets m.name) w' := by
  obtain ⟨handle?, w₁, w₃, hhandle, hforM, rfl⟩ := yields_injectInto_iff.1 hy
  have h₂ := untouched_warned w₁ m handle? (w.module.targets m.name)
  have h₁ := Prepared.equipped ⟨w₀, h₀, hhandle⟩ h
  have hbodies : ∀ t ∈ w.module.targets m.name, (w₁.module.body? t.id).isSome := fun t ht =>
    h₁.isSome_body? (isSome_of_mem_targets h ht)
  obtain ⟨points, hpoints, htargets, hothers, -⟩ := points_injectTargets h₁.numbered
    (h.nodup_targets m.name) (hasPoints_of_untouched h₁.numbered h₂) hbodies hforM
  rw [h₂.caches.settings_eq] at htargets
  have hpoints' (f : Tally → Tally) : (w₃.counting f).HasPoints w₁.module points :=
    ⟨hpoints.module_eq, hpoints.cursor_eq, hpoints.slot?_eq⟩
  exact ⟨handle?, w₁, ⟨w₀, h₀, hhandle⟩, injected_of_points hbodies (hpoints' _) htargets hothers⟩

private theorem stoppedAt_injectInto (h : w.module.Numbered) (h₀ : w.Untouched w₀)
    (hf : Fails (injectInto m (w.module.targets m.name)) w₀ failure w') (hlocal : failure ≠ .overflow) :
    w.module.type? m.owner = none ∧ failure = .unknownType m.owner ∧ w.Untouched w' ∨
      ∃ t, w.StoppedAt m (w.module.targets m.name) t w' ∧ failure = .localsExhausted t.id := by
  rcases fails_injectInto_iff.1 hf with hf | ⟨handle?, w₁, hhandle, hforM⟩
  · obtain ⟨howner, hfailure, rfl⟩ := fails_handleFor hf hlocal
    exact .inl ⟨h₀.module_eq ▸ howner, hfailure, h₀⟩
  · have h₁ := Prepared.equipped ⟨w₀, h₀, hhandle⟩ h
    have h₂ := untouched_warned w₁ m handle? (w.module.targets m.name)
    have hbodies : ∀ t ∈ w.module.targets m.name, (w₁.module.body? t.id).isSome := fun t ht =>
      h₁.isSome_body? (isSome_of_mem_targets h ht)
    obtain ⟨front, t, back, done, a, rest, points, htargets, hadvice, htakes, hfull, hfailure, hpoints,
      hfront, hlast, hothers⟩ := points_of_fails_injectTargets h₁.numbered (h.nodup_targets m.name)
      (hasPoints_of_untouched h₁.numbered h₂) hbodies hforM hlocal
    rw [h₂.caches.settings_eq] at hfront hlast
    have hbody {t' : Target} (ht' : t' ∈ w.module.targets m.name) : points t'.id = w'.point t'.id :=
      (hpoints.point_eq (hbodies t' ht')).symm
    have ht : t ∈ w.module.targets m.name := by simp [htargets]
    have hhalted : w₁.HaltedAt m handle? (w.module.targets m.name) t w' :=
      { full := ((JoinPoint.full_of_foldlM_weave hlast).1 hfull).1
        front := ⟨front, back, htargets, fun t' ht' => by
            rw [hfront t' ht', hbody (by simp [htargets, ht'])],
          fun id hid => point_of_hasPoints hpoints (hothers id hid)⟩
        done := ⟨done, a, rest, hadvice, htakes, by rw [hlast, hbody ht]⟩
        members := fun bodies => by rw [hpoints.module_eq, Module.withBodies_withBodies] }
    exact .inr ⟨t, ⟨handle?, w₁, ⟨w₀, h₀, hhandle⟩, hhalted⟩, hfailure⟩

end Weaving

/-- What comes of a marker type, unless the pass fails: whether it is accepted, and what is left of the workspace. -/
inductive Workspace.Outcome (w : Workspace) (m : MarkerType) : Bool → Workspace → Prop
  /-- There is nothing to weave. -/
  | idle {w' : Workspace} {warning : Diagnostic} (targets : w.module.targets m.name = []) (untouched : w.Untouched w')
      (code : warning.code.map Code.text = some "W0203") (level : warning.level = .warning)
      (site : warning.site = ⟨m.name, none⟩)
      (diagnostics : w'.pass.diagnostics = w.pass.diagnostics ++ w.module.bodylessWarnings m.name ++
        [warning]) : Outcome w m true w'
  /-- Some advice breaks a rule. -/
  | rejected {w' : Workspace} {t : Target} {a : Advice} {error : Diagnostic}
      (target : t ∈ w.module.targets m.name) (advice : a ∈ m.advice) (broken : ¬ a.Lawful t)
      (untouched : w.Untouched w') (isError : error.isError)
      (diagnostics : w'.pass.diagnostics = w.pass.diagnostics ++ w.module.bodylessWarnings m.name ++
        [error]) : Outcome w m false w'
  /-- All advice keeps all rules. -/
  | woven {w' : Workspace} (targets : w.module.targets m.name ≠ [])
      (lawful : ∀ t ∈ w.module.targets m.name, ∀ a ∈ m.advice, a.Lawful t)
      (woven : w.Woven m (w.module.targets m.name) w') : Outcome w m true w'

/-- A branch target would pass the largest 64-bit word: in a constructor of the marker type, or in the target at which
the pass ends. -/
def Workspace.Overflowing (w : Workspace) (m : MarkerType) (w' : Workspace) : Prop :=
  (∃ t, w.module.type? m.owner = some t ∧ ¬ t.TakesHandle) ∨
    ∃ t ∈ w.module.targets m.name, ∃ a ∈ m.advice, ∃ receiver w₁, Weaving.Overflows a receiver t w₁ w'

/-- Some advice asks for the return value, and no local is left for it in some target. -/
def Workspace.Stuck (w : Workspace) (m : MarkerType) : Prop :=
  (∀ t ∈ w.module.targets m.name, ∀ a ∈ m.advice, a.Lawful t) ∧ (∃ a ∈ m.advice, a.takesResult) ∧
    ∃ t ∈ w.module.targets m.name, (w.point t.id).Full

namespace Weaving

open Step Workspace

variable {w w' : Workspace} {m : MarkerType} {failure : Failure}

theorem outcome_inject (h : w.module.Numbered) {accepted : Bool}
    (hy : Yields (inject m) w accepted w') : w.Outcome m accepted w' := by
  obtain ⟨hempty, rfl, rfl⟩ | ⟨-, violation, target, hviolation, rfl, rfl⟩ | ⟨hne, hlawful, rfl, hinto⟩ :=
    yields_inject_iff.1 hy
  · exact .idle hempty ⟨rfl, rfl, rfl, rfl, rfl⟩ rfl rfl rfl rfl
  · have hbroken : ¬ ∀ t ∈ w.module.targets m.name, ∀ a ∈ m.advice, a.Lawful t := by
      rw [← MarkerType.firstViolation?_eq_none_iff, hviolation]
      simp
    simp only [not_forall] at hbroken
    obtain ⟨t, ht, a, ha, hbroken⟩ := hbroken
    exact .rejected ht ha hbroken ⟨rfl, rfl, rfl, rfl, rfl⟩ rfl rfl
  · exact .woven hne (MarkerType.firstViolation?_eq_none_iff.1 hlawful)
      (woven_injectInto h (untouched_presented w m) hinto)

/-- The pass only fails where it is stuck, but for a type that is not there and for branch targets that overflow. -/
private theorem stuck_of_fails_inject (h : w.module.Numbered) (hf : Fails (inject m) w failure w')
    (hlocal : failure ≠ .overflow) :
    w.module.type? m.owner = none ∧ failure = .unknownType m.owner ∧ w.Untouched w' ∨
      w.Stuck m ∧ ∃ t, w.StoppedAt m (w.module.targets m.name) t w' ∧ failure = .localsExhausted t.id := by
  obtain ⟨-, hlawful, hinto⟩ := fails_inject_iff.1 hf
  rcases stoppedAt_injectInto h (untouched_presented w m) hinto hlocal with hmissing | ⟨t, hstopped, hfailure⟩
  · exact .inl hmissing
  · refine .inr ⟨⟨MarkerType.firstViolation?_eq_none_iff.1 hlawful, ?_⟩, t, hstopped, hfailure⟩
    obtain ⟨handle?, w₁, hprepared, hhalted⟩ := hstopped
    obtain ⟨done, a, rest, hadvice, htakes, -⟩ := hhalted.done
    obtain ⟨front, back, htargets, -⟩ := hhalted.front
    have ht : t ∈ w.module.targets m.name := by simp [htargets]
    exact ⟨⟨a, by simp [hadvice], htakes⟩, t, ht,
      ((hprepared.equipped h).full_iff (isSome_of_mem_targets h ht)).1 hhalted.full⟩

/-- Where the pass is stuck, the marker type does not come through. -/
private theorem not_stuck_of_outcome (h : w.module.Numbered) {accepted : Bool} (ho : w.Outcome m accepted w') :
    ¬ w.Stuck m := by
  rintro ⟨hlawful, htakes, t, ht, hfull⟩
  cases ho with
  | idle htargets =>
    rw [htargets] at ht
    cases ht
  | rejected ht ha hbroken => exact hbroken (hlawful _ ht _ ha)
  | woven _ _ hwoven =>
    obtain ⟨handle?, w₁, hprepared, hinjected⟩ := hwoven
    have hfull₁ := ((hprepared.equipped h).full_iff (isSome_of_mem_targets h ht)).2 hfull
    have hnone : m.advice.foldlM (JoinPoint.weave t
        (receiverOf w₁.pass.settings.handleStorage handle? t)) (w₁.point t.id) = none :=
      JoinPoint.foldlM_weave_eq_none_iff.2 ⟨htakes, hfull₁⟩
    have hsome := hinjected.woven t ht
    rw [JoinPoint.weaveAll, hnone] at hsome
    cases hsome

/-- If a branch target overflows, it does so where advice or the call of a hidden method is put in. -/
private theorem overflowing_of_fails_inject (hf : Fails (inject m) w .overflow w') : w.Overflowing m w' := by
  obtain ⟨-, -, hinto⟩ := fails_inject_iff.1 hf
  rcases fails_injectInto_iff.1 hinto with hf | ⟨handle?, w₁, hhandle, hforM⟩
  · obtain ⟨-, rfl, ⟨-, hfailure⟩ | ⟨t, ht, hfits, -⟩⟩ := fails_handleOf_iff.1 (fails_handleFor_iff.1 hf).2
    · cases hfailure
    · exact .inl ⟨t, ht, hfits⟩
  · obtain ⟨t, ht, w₂, hall⟩ := exists_fails_of_fails_forM hforM
    obtain ⟨a, ha, w₃, hf⟩ := exists_fails_of_fails_forM (fails_injectAll.1 hall)
    rcases fails_injectAdvice_iff.1 hf with ⟨-, ⟨-, hfailure⟩ | ⟨-, -, -, -, -, hfailure⟩⟩ | ⟨-, hover⟩
    · cases hfailure
    · cases hfailure
    · exact .inr ⟨t, ht, a, ha, _, w₃, hover⟩

/-- A marker type that has been read is woven completely or not at all, unless the pass is stuck or a branch target
overflows.  If the pass is stuck, it fails, and leaves the targets in front of the first one that has no local for its
return value woven, that one woven in part, and the others as they are. -/
theorem inject_whole_unless_stuck {encoding : Encoding} {source : String} {module : Module} {pass : Pass}
    {id : TypeId} (decoded : encoding.decode source = .ok module)
    (read : Yields (scan id) ⟨pass, module⟩ (some m) w) :
    (∀ accepted w', Yields (inject m) w accepted w' →
      ¬ w.Stuck m ∧ (w'.module = w.module ∨ w.Woven m (w.module.targets m.name) w')) ∧
    ∀ failure w', Fails (inject m) w failure w' → (failure = .overflow ∧ w.Overflowing m w') ∨
      (w.Stuck m ∧ ∃ t, failure = .localsExhausted t.id ∧ w.StoppedAt m (w.module.targets m.name) t w') := by
  obtain ⟨t, ht, hdeclared, rfl⟩ := yields_scan_iff.1 read
  have hnumbered := numbered_scanned (Module.numbered_of_decode decoded) ht
  constructor
  · intro accepted w' hy
    have houtcome := outcome_inject hnumbered hy
    refine ⟨not_stuck_of_outcome hnumbered houtcome, ?_⟩
    cases houtcome with
    | idle _ huntouched => exact .inl huntouched.module_eq
    | rejected _ _ _ huntouched => exact .inl huntouched.module_eq
    | woven _ _ hwoven => exact .inr hwoven
  · intro failure w' hf
    by_cases hlocal : failure = .overflow
    · subst hlocal
      exact .inl ⟨rfl, overflowing_of_fails_inject hf⟩
    rcases stuck_of_fails_inject hnumbered hf hlocal with ⟨hmissing, -⟩ | ⟨hstuck, t, hstopped, hfailure⟩
    · -- the type of the markers is there, since they have been read
      have howner : m.owner = id := (t.owner_of_scan hdeclared).trans (Module.id_of_type? ht)
      rw [howner, type?_scanned_self ht] at hmissing
      cases hmissing
    · exact .inr ⟨hstuck, t, hfailure, hstopped⟩

end Weaving

namespace Sample

/-- A body with all the locals that a body can have. -/
def crowdedBody : Body where
  locals := Array.replicate Body.maxLocals .int32
  initLocals := true
  code := [.ldcI4 1, .simple .ret]

/-- The sample with this body. -/
def crowdedModule : Module :=
  { module with types := [markerDecl, { owner with methods := [{ target with body := some crowdedBody }] }] }

private theorem decode_crowdedModule : Encoding.decode (Encoding.encode crowdedModule .json) .json =
    .ok crowdedModule :=
  Encoding.decode_encode_json crowdedModule

/-- The entry advice is put in; then the exit advice finds no local. -/
private theorem fails_injectAll_crowdedBody {w : Workspace} (handle? : Option Handle)
    (hbody : w.module.body? ⟨2⟩ = some crowdedBody) (hslot : w.pass.slot? ⟨2⟩ = none) :
    ∃ w', Step.Fails (Weaving.injectAll admission.marker handle? (target.target owner)) w
      (.localsExhausted ⟨2⟩) w' := by
  let receiver := receiverOf w.pass.settings.handleStorage handle? (target.target owner)
  let code := onEntry.entryCode receiver (target.target owner)
  let w₁ := w.entered code ⟨2⟩ crowdedBody
  have hfits : crowdedBody.SpliceFits (w.pass.cursor ⟨2⟩) code .displaced := by
    have hcode : ∀ i ∈ crowdedBody.code, i.target? = none := by decide
    have hplain : Plain code := onEntry.plain_entryCode (plain_receiverOf _ _ _) _
    refine ⟨fun i hi target ht => ?_, fun i hi target ht => ?_⟩
    · rw [hcode i hi] at ht
      cases ht
    · rw [Instruction.target?_of_isPlain (hplain i hi)] at ht
      cases ht
  have hbody₁ : w₁.module.body? ⟨2⟩ = some (crowdedBody.splice (w.pass.cursor ⟨2⟩) code .displaced) :=
    Module.body?_setBody_self hbody _
  have hfull : (crowdedBody.splice (w.pass.cursor ⟨2⟩) code .displaced).addLocal .int32 = none := by
    simp [Body.addLocal, Body.splice, crowdedBody]
  refine ⟨w₁, Weaving.fails_injectAll.2 (Step.fails_forM_cons.2 (.inr ⟨w₁, ?_, Step.fails_forM_cons.2 (.inl ?_)⟩))⟩
  · exact Weaving.yields_injectAdvice_iff.2 (.inl ⟨rfl, _, hbody, hfits, rfl⟩)
  · exact Weaving.fails_injectAdvice_iff.2 (.inl ⟨rfl, .inr ⟨rfl, hslot, _, hbody₁, hfull, rfl⟩⟩)

/-- The handle is made before the pass comes to the target. -/
private theorem fails_inject_crowdedModule : ∃ w', Step.Fails (Weaving.inject admission.marker)
    (Workspace.scanned ⟨{ settings }, crowdedModule⟩ ⟨0⟩ markerDecl) (.localsExhausted ⟨2⟩) w' := by
  let w := Workspace.scanned ⟨{ settings }, crowdedModule⟩ ⟨0⟩ markerDecl
  have htargets : w.module.targets admission.marker.name = [target.target owner] := by decide +kernel
  have hfits : (markerDecl.scan settings.markers).rest.TakesHandle := by
    have hmethods : ∀ x ∈ (markerDecl.scan settings.markers).rest.methods, x.isConstructor = false := by decide +kernel
    intro _ x hx hconstructor
    rw [hmethods x hx] at hconstructor
    cases hconstructor
  obtain ⟨handle, w₁, hhandle, hbody, hslot⟩ : ∃ handle w₁,
      Step.Yields (Weaving.handleFor admission.marker) (w.presented admission.marker) (some handle) w₁ ∧
        w₁.module.body? ⟨2⟩ = some crowdedBody ∧ w₁.pass.slot? ⟨2⟩ = none :=
    ⟨_, _, Weaving.yields_handleFor_iff.2 (.inr ⟨by decide, _, rfl, Weaving.yields_handleOf_new rfl rfl hfits⟩),
      rfl, rfl⟩
  have hwarned := Weaving.untouched_warned w₁ admission.marker (some handle) [target.target owner]
  obtain ⟨w', hfails⟩ := fails_injectAll_crowdedBody (some handle)
    (hwarned.module_eq ▸ hbody) ((hwarned.caches.slot? _).trans hslot)
  refine ⟨w', Weaving.fails_inject_iff.2 ?_⟩
  show w.module.targets admission.marker.name ≠ [] ∧ _
  rw [htargets]
  exact ⟨by simp, by decide +kernel, Weaving.fails_injectInto_iff.2
    (.inr ⟨_, w₁, hhandle, Step.fails_forM_cons.2 (.inl hfails)⟩)⟩

end Sample

namespace Weaving

open Step Workspace

/-- The marker type of the sample is woven, unless the return value of its target finds no local. -/
theorem inject_whole_unless_stuck_sample :
    (∃ m w w', Yields (scan ⟨0⟩) ⟨{ settings := Sample.settings }, Sample.module⟩ (some m) w ∧
      Yields (inject m) w true w' ∧ ¬ w.Stuck m ∧ w.Woven m (w.module.targets m.name) w') ∧
    ∃ m w w' t, Yields (scan ⟨0⟩) ⟨{ settings := Sample.settings }, Sample.crowdedModule⟩ (some m) w ∧
      Fails (inject m) w (.localsExhausted ⟨2⟩) w' ∧ w.Stuck m ∧ w.StoppedAt m (w.module.targets m.name) t w' := by
  constructor
  · have hread : Yields (scan ⟨0⟩) ⟨{ settings := Sample.settings }, Sample.module⟩
        (some Sample.admission.marker) _ := yields_of_run (by decide +kernel)
    have hinject : Yields (inject Sample.admission.marker)
        ((scan ⟨0⟩).run ⟨{ settings := Sample.settings }, Sample.module⟩).2 true _ :=
      yields_of_run (by decide +kernel)
    obtain ⟨hstuck, hsame | hwoven⟩ :=
      (inject_whole_unless_stuck Sample.decode_source hread).1 true _ hinject
    · exact absurd hsame (by decide +kernel)
    · exact ⟨_, _, _, hread, hinject, hstuck, hwoven⟩
  · have hread : Yields (scan ⟨0⟩) ⟨{ settings := Sample.settings }, Sample.crowdedModule⟩
        (some Sample.admission.marker) _ := yields_scan_iff.2 ⟨Sample.markerDecl, rfl, by decide +kernel, rfl⟩
    obtain ⟨w', hfails⟩ := Sample.fails_inject_crowdedModule
    rcases (inject_whole_unless_stuck Sample.decode_crowdedModule hread).2 _ w' hfails with
      ⟨hfailure, -⟩ | ⟨hstuck, t, -, hstopped⟩
    · cases hfailure
    · exact ⟨_, _, w', t, hread, hfails, hstuck, hstopped⟩

end Weaving

end AdviceWeaving
