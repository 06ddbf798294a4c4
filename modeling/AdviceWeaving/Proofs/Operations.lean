import AdviceWeaving.Proofs.Growth
import AdviceWeaving.Proofs.Lockstep

/-!
# Operations

A pass edits its module in single operations: it reads a type, sweeps a method, makes a handle, allots a local, or puts
advice into a target; in between it only takes notes.  Passes follow one another on the same module, each with nothing
remembered.  `Workspace.perform` carries out any operations in any order, some of which may fail, and
`Workspace.trace` tells in which workspace each of them begins.  Whatever is carried out, the module grows
(`Workspace.grows_perform`), and as long as the pass is the same, it forgets nothing (`Workspace.evolves_perform`).

Every pass, over any module, is a run of operations (`Workspace.performs_walk`).
-/

namespace AdviceWeaving

/-! ### Steps that read and sweep -/

namespace Weaving

open Step Workspace

variable {w : Workspace}

theorem numbered_scan (h : w.module.Numbered) (id : TypeId) :
    ((scan id).run w).2.module.Numbered := by
  rcases hrun : (scan id).run w with ⟨failure | marker?, w'⟩
  · rcases fails_scan_iff.1 hrun with ⟨-, -, rfl⟩ | ⟨t, ht, -, rfl⟩
    · exact h
    · exact numbered_scanned h ht
  · obtain ⟨t, ht, -, rfl⟩ := yields_scan_iff.1 hrun
    exact numbered_scanned h ht

theorem numbered_updateMethod_swept {m : Module} (h : m.Numbered) (names : MarkerNames) (id : MethodId) :
    (m.updateMethod id (swept names)).Numbered := by
  rw [h.updateMethod_eq]
  refine h.mapMethods fun t _ x _ => ?_
  split
  · exact x.profile_swept names t
  · rfl

/-- To sweep a method changes nothing, or takes the markers of the method away and adds them to the tally. -/
theorem run_sweepMethod (w : Workspace) (id : MethodId) :
    ((sweepMethod id).run w).2 = w ∨
      ∃ t x, w.module.method? id = some (t, x) ∧ x.countMarkers w.pass.settings.markers ≠ 0 ∧
        ((sweepMethod id).run w).2 = w.cleared id t x := by
  rcases hrun : (sweepMethod id).run w with ⟨failure | u, w'⟩
  · exact .inl (fails_sweepMethod_iff.1 hrun).2.2
  · obtain ⟨t, x, hx, ⟨-, rfl⟩ | ⟨hcount, rfl⟩⟩ := yields_sweepMethod_iff.1 hrun
    · exact .inl rfl
    · exact .inr ⟨t, x, hx, hcount, rfl⟩

theorem numbered_sweepMethod (h : w.module.Numbered) (id : MethodId) :
    ((sweepMethod id).run w).2.module.Numbered := by
  rcases run_sweepMethod w id with hrun | ⟨t, x, -, -, hrun⟩ <;> rw [hrun]
  · exact h
  · exact numbered_updateMethod_swept h _ id

end Weaving

/-- A walk of the standard visitors does no more than to weave types and to sweep methods. -/
theorem Standard.keeps_walk {vs : List (Visitor Workspace)} (hvs : Standard vs) {I : Workspace → Prop}
    (hweave : ∀ id, Step.Keeps I (Weaving.weaveType id)) (hsweep : ∀ id, Step.Keeps I (Weaving.sweepMethod id)) :
    Step.Keeps I (walk Workspace.module vs) := by
  refine Walk.keeps_walk fun v hv => ?_
  have hpure : Step.Keeps I (pure () : Weaving Unit) := Step.keeps_pure ()
  rcases hvs v hv with rfl | rfl
  · exact ⟨hpure, hpure, hweave, fun _ => hpure, fun _ _ => hpure, fun _ _ => hpure, hpure⟩
  · exact ⟨hpure, hpure, fun _ => hpure, hsweep, fun _ _ => hpure, fun _ _ => hpure, hpure⟩

/-! ### Operations and runs -/

/-- What is done to a module at one stroke, in a pass and between two passes. -/
inductive Operation
  | scan (id : TypeId)
  | sweep (id : MethodId)
  | handle (id : TypeId)
  | slot (id : MethodId) (type : ValueType)
  | advise (a : Advice) (handle? : Option Handle) (t : Target)
  | note (definitions : List MarkerType) (diagnostics : List Diagnostic) (tally : Tally)
  /-- End the pass and begin another one. -/
  | renew (settings : Settings)

/-- The operation belongs to the pass in which it begins. -/
def Operation.continues : Operation → Bool
  | renew _ => false
  | _ => true

namespace Workspace

/-- The workspace after an operation, whether this succeeds or not. -/
def after (w : Workspace) : Operation → Workspace
  | .scan id => ((Weaving.scan id).run w).2
  | .sweep id => ((Weaving.sweepMethod id).run w).2
  | .handle id => ((Weaving.handleOf id).run w).2
  | .slot id type => ((Weaving.slotOf id type).run w).2
  | .advise a handle? t =>
    ((Weaving.injectAdvice a (receiverOf w.pass.settings.handleStorage handle? t) t).run w).2
  | .note definitions diagnostics tally => ⟨{ w.pass with definitions, diagnostics, tally }, w.module⟩
  | .renew settings => ⟨{ settings }, w.module⟩

/-- The workspace after some operations, one after the other. -/
def perform (w : Workspace) (ops : List Operation) : Workspace :=
  ops.foldl after w

/-- The operations, each with the workspace in which it begins. -/
def trace (w : Workspace) : List Operation → List (Workspace × Operation)
  | [] => []
  | o :: ops => (w, o) :: (w.after o).trace ops

/-- The operation asks for a local of the type that the method returns, if it asks for one. -/
def Fits (w : Workspace) : Operation → Prop
  | .slot id type => ∀ d x, w.module.method? id = some (d, x) → x.ret = type
  | .advise _ _ t => ∀ d x, w.module.method? t.id = some (d, x) → x.ret = t.ret
  | _ => True

/-- All operations belong to one pass, and each of them fits where it begins. -/
def Suits (w : Workspace) (ops : List Operation) : Prop :=
  (∀ o ∈ ops, o.continues) ∧ ∀ p ∈ w.trace ops, p.1.Fits p.2

variable {w w₀ w₁ w' : Workspace} {o : Operation} {ops : List Operation}

private theorem perform_append (w : Workspace) (ops ops' : List Operation) :
    w.perform (ops ++ ops') = (w.perform ops).perform ops' :=
  List.foldl_append

theorem perform_concat (w : Workspace) (ops : List Operation) (o : Operation) :
    w.perform (ops ++ [o]) = (w.perform ops).after o :=
  w.perform_append ops [o]

private theorem trace_append (w : Workspace) (ops ops' : List Operation) :
    w.trace (ops ++ ops') = w.trace ops ++ (w.perform ops).trace ops' := by
  induction ops generalizing w with
  | nil => rfl
  | cons o ops ih => exact congrArg ((w, o) :: ·) (ih (w.after o))

theorem trace_concat (w : Workspace) (ops : List Operation) (o : Operation) :
    w.trace (ops ++ [o]) = w.trace ops ++ [(w.perform ops, o)] :=
  w.trace_append ops [o]

theorem Suits.of_concat (h : w.Suits (ops ++ [o])) : w.Suits ops ∧ o.continues ∧ (w.perform ops).Fits o := by
  obtain ⟨hcontinues, hfits⟩ := h
  rw [trace_concat] at hfits
  exact ⟨⟨fun o' ho' => hcontinues o' (List.mem_append_left _ ho'), fun p hp => hfits p (List.mem_append_left _ hp)⟩,
    hcontinues o (List.mem_append_right _ List.mem_cons_self),
    hfits (w.perform ops, o) (List.mem_append_right _ List.mem_cons_self)⟩

end Workspace

/-! ### What an operation of a pass may change -/

/-- The type has the field and the method of the handle, each the first of its name. -/
def TypeDecl.Bears (t : TypeDecl) (handle : Handle) : Prop :=
  (∃ f, t.field? handleFieldName = some f ∧ f.signature t.name = handle.field) ∧
    ∃ x, t.method? initializerName = some x ∧ x.signature t.name = handle.initializer

theorem TypeDecl.Bears.grows {t t' : TypeDecl} {handle : Handle} (h : t.Bears handle) (hgrows : t.Grows t') :
    t'.Bears handle := by
  obtain ⟨⟨f, hf, hfield⟩, x, hx, hinitializer⟩ := h
  obtain ⟨x', hx', hprototype⟩ := hgrows.method? hx
  refine ⟨⟨f, hgrows.field? hf, by rw [hgrows.name_eq, hfield]⟩, x', hx', ?_⟩
  rw [hgrows.name_eq, ← hinitializer]
  exact congrArg Prototype.signature hprototype

/-- A method that has a body keeps having one. -/
private theorem Module.Grows.isSome_body? {m m' : Module} (h : m.Grows m') (hm : m.Numbered) (hm' : m'.Numbered)
    {id : MethodId} (hid : (m.body? id).isSome) : (m'.body? id).isSome := by
  obtain ⟨b, hb⟩ := Option.isSome_iff_exists.1 hid
  obtain ⟨⟨t, x⟩, hx, hb⟩ := Option.bind_eq_some_iff.1 hb
  obtain ⟨t', x', hx', -, hprototype⟩ := h.method? hm hm' hx
  have hbody : x'.body.isSome = x.body.isSome := congrArg Prototype.hasBody hprototype
  have hsome : x.body = some b := hb
  rw [body?, hx', Option.bind_some, hbody, hsome]
  rfl

namespace Workspace

/-- The handles that the pass knows are those of types in the module. -/
def Consistent (w : Workspace) : Prop :=
  ∀ id handle, w.pass.handle? id = some handle → ∃ t, w.module.type? id = some t ∧ t.Bears handle

/-- Whatever method the pass has put code or a local into, has a body. -/
structure Grounded (w : Workspace) : Prop where
  cursors : ∀ id, (w.pass.cursors.lookup id).isSome → (w.module.body? id).isSome
  slots : ∀ id, (w.pass.slot? id).isSome → (w.module.body? id).isSome

/-- The workspace `w'` comes from `w` in the same pass. -/
structure Evolves (w w' : Workspace) : Prop where
  grows : w.module.Grows w'.module
  numbered : w.module.Numbered → w'.module.Numbered
  settings_eq : w'.pass.settings = w.pass.settings
  handle? : ∀ id handle, w.pass.handle? id = some handle → w'.pass.handle? id = some handle
  slot? : ∀ id slot, w.pass.slot? id = some slot → w'.pass.slot? id = some slot
  consistent : w.Consistent → w'.Consistent
  grounded : w.module.Numbered → w.Grounded → w'.Grounded

variable {w w₀ w₁ w' : Workspace} {o : Operation} {ops : List Operation}

namespace Evolves

private theorem refl (w : Workspace) : w.Evolves w :=
  ⟨.refl _, id, rfl, fun _ _ => id, fun _ _ => id, id, fun _ => id⟩

private theorem trans (h : w.Evolves w₁) (h' : w₁.Evolves w') : w.Evolves w' where
  grows := h.grows.trans h'.grows
  numbered hw := h'.numbered (h.numbered hw)
  settings_eq := h'.settings_eq.trans h.settings_eq
  handle? id handle hw := h'.handle? id handle (h.handle? id handle hw)
  slot? id slot hw := h'.slot? id slot (h.slot? id slot hw)
  consistent hw := h'.consistent (h.consistent hw)
  grounded hw hground := h'.grounded (h.numbered hw) (h.grounded hw hground)

/-- A change of the module and of no more than notes, and of cursors and locals of methods that have bodies. -/
private theorem of_module (hgrows : w.module.Grows w'.module) (hnumbered : w.module.Numbered → w'.module.Numbered)
    (hsettings : w'.pass.settings = w.pass.settings) (hhandles : w'.pass.handles = w.pass.handles)
    (hslots : w'.pass.slots = w.pass.slots)
    (hcursors : ∀ id, (w'.pass.cursors.lookup id).isSome →
      (w.pass.cursors.lookup id).isSome ∨ (w.module.body? id).isSome) : w.Evolves w' where
  grows := hgrows
  numbered := hnumbered
  settings_eq := hsettings
  handle? id handle h := by rwa [Pass.handle?, hhandles]
  slot? id slot h := by rwa [Pass.slot?, hslots]
  consistent hw id handle h := by
    rw [Pass.handle?, hhandles] at h
    obtain ⟨t, ht, hbears⟩ := hw id handle h
    obtain ⟨t', ht', htt'⟩ := hgrows.type? ht
    exact ⟨t', ht', hbears.grows htt'⟩
  grounded hw hground :=
    ⟨fun id h => hgrows.isSome_body? hw (hnumbered hw) ((hcursors id h).elim (hground.cursors id) fun h => h),
      fun id h => hgrows.isSome_body? hw (hnumbered hw) (hground.slots id (by rwa [Pass.slot?, hslots] at h))⟩

end Evolves

end Workspace

/-- A type that gets its handle bears it. -/
theorem TypeDecl.bears_newHandle (t : TypeDecl) (storage : HandleStorage) (id : MethodId) :
    (t.withHandle storage id).Bears (t.newHandle storage) := by
  refine ⟨⟨_, field?_withHandle, rfl⟩, ?_⟩
  cases hm : t.method? initializerName with
  | some x =>
    obtain ⟨x', hx', hprototype⟩ := (t.grows_withHandle storage id).method? hm
    refine ⟨x', hx', (congrArg Prototype.signature hprototype).trans ?_⟩
    simp [newHandle, hm, Method.prototype]
  | none =>
    have hnone : t.prototypes.find? (·.signature.name = initializerName) = none := by
      rw [← method?_map_prototype, hm]
      rfl
    have hfind := method?_map_prototype (t.withHandle storage id) initializerName
    rw [prototypes_withHandle storage id hm, List.find?_append, hnone, Option.none_or] at hfind
    obtain ⟨x, hx, hprototype⟩ := Option.map_eq_some_iff.1 hfind
    refine ⟨x, hx, (congrArg Prototype.signature hprototype).trans ?_⟩
    simp [newHandle, hm]
    rfl

/-- Only one type gets something. -/
theorem Module.exists_types_withHandle {m : Module} {id : TypeId} {t : TypeDecl} (ht : m.type? id = some t)
    (storage : HandleStorage) :
    ∃ front back, m.types = front ++ t :: back ∧
      (m.withHandle storage t).types = front ++ t.withHandle storage ⟨m.ids.nextMethod⟩ :: back := by
  have hid := id_of_type? ht
  obtain ⟨front, back, htypes, -, hput⟩ := exists_put_eq ht
  exact ⟨front, back, htypes, hput (t.withHandle storage ⟨m.ids.nextMethod⟩) hid⟩

theorem Module.type?_withHandle {m : Module} {id : TypeId} {t : TypeDecl} (ht : m.type? id = some t)
    (storage : HandleStorage) :
    (m.withHandle storage t).type? id = some (t.withHandle storage ⟨m.ids.nextMethod⟩) :=
  have hid := id_of_type? ht
  type?_put_self (t := t.withHandle storage ⟨m.ids.nextMethod⟩) ht hid

private theorem Module.Numbered.setBody {m : Module} (h : m.Numbered) {id : MethodId} {b : Body}
    (hb : m.body? id = some b)
    (b' : Body) : (m.setBody id b').Numbered := by
  rw [← h.withBodies_self, h.setBody_withBodies (by rw [hb]; rfl)]
  exact h.withBodies _

/-- A constructor that calls a hidden method is one of its type, and has a body. -/
theorem Module.Numbered.exists_constructor {m : Module} (h : m.Numbered) {id : TypeId} {t : TypeDecl}
    (ht : m.type? id = some t) {k : MethodId} (hk : k ∈ t.constructorIds) :
    ∃ x, m.method? k = some (t, x) ∧ x.body.isSome := by
  obtain ⟨x, hx, rfl⟩ := List.mem_map.1 hk
  obtain ⟨hx, hconstructs⟩ := List.mem_filter.1 hx
  exact ⟨x, h.method?_eq_some_iff.2 ⟨mem_methods.2 ⟨(h.type?_eq_some_iff.1 ht).1, hx⟩, rfl⟩,
    (Bool.and_eq_true_iff.1 hconstructs).2⟩

namespace Weaving

open Step Workspace

variable {w w' : Workspace} {failure : Failure}

private theorem isSome_lookup_foldl_advance {p : Pass} {n : Nat} {ids : List MethodId} {k : MethodId}
    (h : ((ids.foldl (·.advance n) p).cursors.lookup k).isSome) : (p.cursors.lookup k).isSome ∨ k ∈ ids := by
  induction ids generalizing p with
  | nil => exact .inl h
  | cons id ids ih =>
    by_cases hk : k = id
    · exact .inr (hk ▸ List.mem_cons_self)
    · refine (ih h).imp (fun h => ?_) (List.mem_cons_of_mem id)
      have h : (List.lookup k ((id, p.cursor id + n) :: p.cursors)).isSome := h
      rwa [List.lookup_cons, beq_false_of_ne hk] at h

private theorem evolves_scan (w : Workspace) (id : TypeId) : w.Evolves ((scan id).run w).2 := by
  have hnumbered (hw : w.module.Numbered) := numbered_scan hw id
  cases ht : w.module.type? id with
  | none =>
    have hfails : Fails (scan id) w _ w := fails_scan_iff.2 (.inl ⟨ht, rfl, rfl⟩)
    rw [hfails]
    exact .refl w
  | some t =>
    have hgrows : w.module.Grows (w.scanned id t).module := by
      rw [module_scanned, Module.updateType_eq_put ht (t.scan_rest_id _)]
      exact Module.grows_put ht (t.grows_scan _)
    rw [run_scan ht] at hnumbered ⊢
    exact .of_module hgrows hnumbered rfl rfl rfl fun _ => .inl

private theorem evolves_sweepMethod (w : Workspace) (id : MethodId) : w.Evolves ((sweepMethod id).run w).2 := by
  rcases run_sweepMethod w id with hrun | ⟨t, x, hx, -, hrun⟩ <;> rw [hrun]
  · exact .refl w
  · exact .of_module (Module.grows_swept hx _) (fun hw => numbered_updateMethod_swept hw _ id) rfl rfl rfl
      fun _ => .inl

private theorem handle?_withHandle (p : Pass) (t : TypeDecl) (k : TypeId) :
    (p.withHandle t).handle? k =
      if k = t.id then some (t.newHandle p.settings.handleStorage) else p.handle? k := by
  simp only [Pass.handle?, Pass.withHandle, List.lookup_cons]
  by_cases hk : k = t.id
  · simp [hk]
  · simp [hk, beq_false_of_ne hk]

/-- The new handle is that of its type, and the others stay where they are. -/
private theorem consistent_withHandle {t : TypeDecl} (ht : w.module.type? t.id = some t) (hw : w.Consistent) :
    (⟨w.pass.withHandle t, w.module.withHandle w.pass.settings.handleStorage t⟩ : Workspace).Consistent := by
  intro k handle hk
  rw [handle?_withHandle] at hk
  by_cases hid : k = t.id
  · rw [if_pos hid] at hk
    cases hk
    exact ⟨_, hid ▸ Module.type?_withHandle ht _, t.bears_newHandle _ _⟩
  · rw [if_neg hid] at hk
    obtain ⟨u, hu, hbears⟩ := hw k handle hk
    obtain ⟨u', hu', hgrows⟩ := (Module.grows_withHandle ht w.pass.settings.handleStorage).type? hu
    exact ⟨u', hu', hbears.grows hgrows⟩

/-- The cursors that move are those of constructors. -/
private theorem isSome_body?_of_cursor_withHandle {t : TypeDecl} (ht : w.module.type? t.id = some t)
    (hw : w.module.Numbered) (hground : w.Grounded) {k : MethodId}
    (hk : ((w.pass.withHandle t).cursors.lookup k).isSome) : (w.module.body? k).isSome := by
  simp only [Pass.withHandle] at hk
  split at hk
  · exact hground.cursors k hk
  · refine (isSome_lookup_foldl_advance hk).elim (hground.cursors k) fun hk => ?_
    obtain ⟨x, hx, hsome⟩ := hw.exists_constructor ht hk
    rw [Module.body?, hx]
    exact hsome

theorem evolves_handleOf (w : Workspace) (id : TypeId) : w.Evolves ((handleOf id).run w).2 := by
  rcases hrun : (handleOf id).run w with ⟨failure | handle, w'⟩
  · obtain ⟨-, rfl, -⟩ := fails_handleOf_iff.1 hrun
    exact .refl w'
  · obtain ⟨-, rfl⟩ | ⟨hnew, t, ht, -, rfl, rfl⟩ := yields_handleOf_iff.1 hrun
    · exact .refl w'
    obtain rfl := Module.id_of_type? ht
    have hgrows := Module.grows_withHandle ht w.pass.settings.handleStorage
    have hnumbered (hw : w.module.Numbered) := (equipped_handleOf hw hrun).numbered
    refine ⟨hgrows, hnumbered, rfl, fun k handle hk => ?_, fun _ _ h => h, consistent_withHandle ht,
      fun hw hground => ⟨fun k hk => hgrows.isSome_body? hw (hnumbered hw) ?_,
        fun k hk => hgrows.isSome_body? hw (hnumbered hw) (hground.slots k hk)⟩⟩
    · show (w.pass.withHandle t).handle? k = some handle
      rw [handle?_withHandle, if_neg, hk]
      rintro rfl
      cases hnew.symm.trans hk
    · exact isSome_body?_of_cursor_withHandle ht hw hground hk

private theorem evolves_setBody {id : MethodId} {b : Body} (hb : w.module.body? id = some b) (b' : Body)
    (hmodule : w'.module = w.module.setBody id b') (hsettings : w'.pass.settings = w.pass.settings)
    (hhandles : w'.pass.handles = w.pass.handles) (hslots : w'.pass.slots = w.pass.slots)
    (hcursors : ∀ k, k ≠ id → w'.pass.cursors.lookup k = w.pass.cursors.lookup k) : w.Evolves w' := by
  refine .of_module (hmodule ▸ Module.grows_setBody hb b') (fun hw => hmodule ▸ hw.setBody hb b') hsettings hhandles
    hslots fun k hk => ?_
  by_cases hid : k = id
  · exact .inr (by rw [hid, hb]; rfl)
  · exact .inl (by rwa [hcursors k hid] at hk)

private theorem evolves_slotOf (w : Workspace) (id : MethodId) (type : ValueType) :
    w.Evolves ((slotOf id type).run w).2 := by
  rcases hrun : (slotOf id type).run w with ⟨failure | slot, w'⟩
  · obtain ⟨-, rfl, -⟩ := fails_slotOf_iff.1 hrun
    exact .refl w'
  · obtain ⟨-, rfl⟩ | ⟨hnew, b, b', hb, -, rfl⟩ := yields_slotOf_iff.1 hrun
    · exact .refl w'
    -- the local comes with the body, and is noted afterwards
    have hbody : w.Evolves ⟨w.pass, (w.allotted id slot b').module⟩ :=
      evolves_setBody hb _ rfl rfl rfl rfl fun _ _ => rfl
    have hlookup {k : MethodId} (hk : k ≠ id) : List.lookup k ((id, slot) :: w.pass.slots) = w.pass.slot? k := by
      rw [List.lookup_cons, beq_false_of_ne hk]
      rfl
    refine ⟨hbody.grows, hbody.numbered, rfl, fun _ _ h => h, fun k known hk => ?_, hbody.consistent,
      fun hw hground => ⟨(hbody.grounded hw hground).cursors, fun k hk => ?_⟩⟩
    · refine (hlookup ?_).trans hk
      rintro rfl
      rw [hnew] at hk
      cases hk
    · by_cases hid : k = id
      · rw [hid]
        exact Option.isSome_of_eq_some (Module.body?_setBody_self hb _)
      · have hk : (List.lookup k ((id, slot) :: w.pass.slots)).isSome := hk
        rw [hlookup hid] at hk
        exact (hbody.grounded hw hground).slots k hk

private theorem evolves_injectAdvice (w : Workspace) (a : Advice) (receiver : List Instruction) (t : Target) :
    w.Evolves ((injectAdvice a receiver t).run w).2 := by
  have hexited {w₁ : Workspace} {code : List Instruction} {b : Body} (hb : w₁.module.body? t.id = some b) :
      w₁.Evolves (w₁.exited code t.id b) :=
    evolves_setBody hb _ rfl rfl rfl rfl fun _ _ => rfl
  have hslotOf {slot : UInt16} {w₁ : Workspace} (hy : Yields (slotOf t.id t.ret) w slot w₁) : w.Evolves w₁ := by
    have hevolves := evolves_slotOf w t.id t.ret
    rwa [show (slotOf t.id t.ret).run w = _ from hy] at hevolves
  rcases hrun : (injectAdvice a receiver t).run w with ⟨failure | u, w'⟩
  · rcases fails_injectAdvice_iff.1 hrun with ⟨rfl, -⟩ | ⟨-, ⟨-, rfl, -⟩ | ⟨-, -, rfl, -⟩ | ⟨-, -, slot, b, hslot, -⟩⟩
    · exact .refl w'
    · exact .refl w'
    · exact .refl w'
    · exact hslotOf hslot
  · obtain ⟨-, b, hb, -, rfl⟩ | ⟨-, -, b, hb, -, rfl⟩ | ⟨-, -, slot, w₁, b, hslot, hb, -, rfl⟩ :=
      yields_injectAdvice_iff.1 hrun
    · refine evolves_setBody hb _ rfl rfl rfl rfl fun k hk => ?_
      show List.lookup k ((t.id, _) :: w.pass.cursors) = _
      rw [List.lookup_cons, beq_false_of_ne hk]
    · exact hexited hb
    · exact (hslotOf hslot).trans (hexited hb)

end Weaving

/-! ### What a run of operations may change -/

namespace Workspace

variable {w w₀ w' : Workspace} {o : Operation} {ops : List Operation}

theorem evolves_after (w : Workspace) (ho : o.continues) : w.Evolves (w.after o) := by
  cases o with
  | scan id => exact Weaving.evolves_scan w id
  | sweep id => exact Weaving.evolves_sweepMethod w id
  | handle id => exact Weaving.evolves_handleOf w id
  | slot id type => exact Weaving.evolves_slotOf w id type
  | advise a handle? t => exact Weaving.evolves_injectAdvice w a _ t
  | note definitions diagnostics tally => exact .of_module (.refl _) id rfl rfl rfl fun _ => .inl
  | renew settings => cases ho

/-- As long as the pass is the same, it forgets nothing. -/
theorem evolves_perform (w : Workspace) (hops : ∀ o ∈ ops, o.continues) : w.Evolves (w.perform ops) := by
  induction ops generalizing w with
  | nil => exact .refl w
  | cons o ops ih =>
    rw [List.forall_mem_cons] at hops
    exact (evolves_after w hops.1).trans (ih (w.after o) hops.2)

theorem grows_after (w : Workspace) (o : Operation) : w.module.Grows (w.after o).module := by
  cases o with
  | renew settings => exact .refl _
  | _ => exact (evolves_after w rfl).grows

/-- In whatever passes, the module grows. -/
theorem grows_perform (w : Workspace) (ops : List Operation) : w.module.Grows (w.perform ops).module := by
  induction ops generalizing w with
  | nil => exact .refl _
  | cons o ops ih => exact (grows_after w o).trans (ih (w.after o))

theorem consistent_start (settings : Settings) (m : Module) : (⟨{ settings }, m⟩ : Workspace).Consistent :=
  fun _ _ h => by cases h

theorem grounded_start (settings : Settings) (m : Module) : (⟨{ settings }, m⟩ : Workspace).Grounded :=
  ⟨fun _ h => (nomatch h), fun _ h => (nomatch h)⟩

/-- In whatever passes, no handle is known that the module has not. -/
theorem Consistent.perform (h : w.Consistent) (ops : List Operation) : (w.perform ops).Consistent := by
  induction ops generalizing w with
  | nil => exact h
  | cons o ops ih =>
    refine ih (w := w.after o) ?_
    cases o with
    | renew settings => exact consistent_start settings w.module
    | _ => exact (evolves_after w rfl).consistent h

end Workspace

/-! ### Passes as runs of operations -/

/-- The method is in the module, and its return value is of the given type. -/
def Module.Returns (m : Module) (id : MethodId) (type : ValueType) : Prop :=
  ∃ d x, m.method? id = some (d, x) ∧ x.ret = type

theorem Workspace.Evolves.returns {w w' : Workspace} (h : w.Evolves w') (hw : w.module.Numbered) {id : MethodId}
    {type : ValueType} (hret : w.module.Returns id type) : w'.module.Returns id type := by
  obtain ⟨d, x, hx, hret⟩ := hret
  obtain ⟨d', x', hx', -, hprototype⟩ := h.grows.method? hw (h.numbered hw) hx
  exact ⟨d', x', hx', (congrArg (·.signature.ret) hprototype).trans hret⟩

namespace Workspace

variable {w w₀ w' : Workspace} {o : Operation} {ops : List Operation}

/-- Operations of one pass lead from `w₀` to `w`; if identifiers name what they should, each of them fits. -/
def Performs (w₀ w : Workspace) : Prop :=
  ∃ ops, w₀.perform ops = w ∧ (∀ o ∈ ops, o.continues) ∧
    (w₀.module.Numbered → ∀ p ∈ w₀.trace ops, p.1.Fits p.2)

namespace Performs

private theorem refl (w : Workspace) : w.Performs w :=
  ⟨[], rfl, fun _ h => (nomatch h), fun _ _ h => (nomatch h)⟩

private theorem evolves (h : w₀.Performs w) : w₀.Evolves w := by
  obtain ⟨ops, rfl, hops, -⟩ := h
  exact evolves_perform w₀ hops

private theorem after (h : w₀.Performs w) (ho : o.continues) (hfits : w₀.module.Numbered → w.Fits o) :
    w₀.Performs (w.after o) := by
  obtain ⟨ops, rfl, hops, hall⟩ := h
  refine ⟨ops ++ [o], w₀.perform_concat ops o, fun o' ho' => ?_, fun h₀ p hp => ?_⟩
  · rcases List.mem_append.1 ho' with ho' | ho'
    · exact hops o' ho'
    · exact List.mem_singleton.1 ho' ▸ ho
  · rw [trace_concat, List.mem_append, List.mem_singleton] at hp
    rcases hp with hp | rfl
    · exact hall h₀ p hp
    · exact hfits h₀

/-- Notes are taken. -/
private theorem untouched (h : w₀.Performs w) (hw : w.Untouched w') : w₀.Performs w' := by
  have hnote : w.after (.note w'.pass.definitions w'.pass.diagnostics w'.pass.tally) = w' := by
    obtain ⟨hmodule, hsettings, hhandles, hslots, hcursors⟩ := hw
    cases w'
    simp only [Workspace.after, Workspace.mk.injEq] at *
    exact ⟨by rw [← hsettings, ← hhandles, ← hslots, ← hcursors], hmodule.symm⟩
  exact hnote ▸ h.after rfl fun _ => trivial

end Performs

end Workspace

private theorem Module.Numbered.returns_of_mem_targets {m : Module} (h : m.Numbered) {marker : String} {t : Target}
    (ht : t ∈ m.targets marker) : m.Returns t.id t.ret := by
  obtain ⟨p, hp, rfl, -⟩ := Module.mem_targets ht
  obtain ⟨d, x, hx, rfl⟩ := Module.mem_profiles.1 hp
  exact ⟨d, x, h.method?_eq_some_iff.2 ⟨hx, rfl⟩, rfl⟩

private theorem Module.Returns.fits {w : Workspace} {t : Target} (h : w.module.Returns t.id t.ret) (a : Advice)
    (handle? : Option Handle) : w.Fits (.advise a handle? t) := by
  obtain ⟨d, x, hx, hret⟩ := h
  intro d' x' hx'
  cases hx.symm.trans hx'
  exact hret

namespace Weaving

open Step Workspace

variable {w w₀ : Workspace} {I : Workspace → Prop} {targets : List Target}

private theorem keeps_notes (hI : ∀ w w', w.Untouched w' → I w → I w') {f : Pass → Pass}
    (hf : ∀ p, Pass.SameCaches p (f p)) : Keeps I (updatePass f) :=
  fun w h => hI w _ ⟨rfl, hf w.pass⟩ h

/-- A run in which advice can be put into the targets. -/
private def Ready (w₀ : Workspace) (targets : List Target) (w : Workspace) : Prop :=
  w₀.Performs w ∧ (w₀.module.Numbered → ∀ t ∈ targets, w.module.Returns t.id t.ret)

private theorem Ready.after {o : Operation} (h : Ready w₀ targets w) (ho : o.continues)
    (hfits : w₀.module.Numbered → w.Fits o) : Ready w₀ targets (w.after o) :=
  ⟨h.1.after ho hfits, fun h₀ t ht => (evolves_after w ho).returns (h.1.evolves.numbered h₀) (h.2 h₀ t ht)⟩

private theorem Ready.untouched (w w' : Workspace) (hw : w.Untouched w') (h : Ready w₀ targets w) :
    Ready w₀ targets w' :=
  ⟨h.1.untouched hw, hw.module_eq ▸ h.2⟩

private theorem keeps_injectAll (m : MarkerType) (handle? : Option Handle) {t : Target} (ht : t ∈ targets) :
    Keeps (Ready w₀ targets) (injectAll m handle? t) := by
  refine keeps_get_bind fun w h => ?_
  -- the receiver is found once, and stays the same for all advice
  let I (w₁ : Workspace) : Prop := Ready w₀ targets w₁ ∧ w₁.pass.settings = w.pass.settings
  have hforM : Keeps I (forM m.advice fun a =>
      injectAdvice a (receiverOf w.pass.settings.handleStorage handle? t) t) := by
    refine keeps_forM fun a _ w₁ h₁ => ?_
    have hsettings := (evolves_injectAdvice w₁ a (receiverOf w.pass.settings.handleStorage handle? t) t).settings_eq
    have hready := h₁.1.after (o := .advise a handle? t) rfl fun h₀ => (h₁.1.2 h₀ t ht).fits a handle?
    rw [Workspace.after, h₁.2] at hready
    exact ⟨hready, hsettings.trans h₁.2⟩
  exact (hforM w ⟨h, rfl⟩).1

private theorem keeps_injectInto (m : MarkerType) : Keeps (Ready w₀ targets) (injectInto m targets) := by
  have hhandle : Keeps (Ready w₀ targets) (handleFor m) := by
    unfold handleFor
    split
    · exact Keeps.map some fun w h => h.after (o := .handle m.owner) rfl fun _ => trivial
    · exact keeps_pure none
  have hreport (diagnostics : List Diagnostic) : Keeps (Ready w₀ targets) (report diagnostics) :=
    keeps_notes Ready.untouched fun _ => ⟨rfl, rfl, rfl, rfl⟩
  have hrest (handle? : Option Handle) : Keeps (Ready w₀ targets) (do
      targets.forM (injectAll m handle?)
      tally fun n => { n with targets := n.targets + targets.length }) :=
    (keeps_forM fun t ht => keeps_injectAll m handle? ht).bind fun _ =>
      keeps_notes Ready.untouched fun _ => ⟨rfl, rfl, rfl, rfl⟩
  refine hhandle.bind fun handle? => ?_
  cases handle? with
  | none => exact hrest none
  | some handle => exact fun w h => (hreport _).bind (fun _ => hrest (some handle)) w h

private theorem keeps_inject (m : MarkerType) : Keeps w₀.Performs (inject m) := by
  have hnotes {f : Pass → Pass} (hf : ∀ p, Pass.SameCaches p (f p)) : Keeps w₀.Performs (updatePass f) :=
    keeps_notes (fun _ _ hw h => h.untouched hw) hf
  have hreport (diagnostics : List Diagnostic) : Keeps w₀.Performs (report diagnostics) :=
    hnotes fun _ => ⟨rfl, rfl, rfl, rfl⟩
  have htally (f : Tally → Tally) : Keeps w₀.Performs (tally f) := hnotes fun _ => ⟨rfl, rfl, rfl, rfl⟩
  refine (htally _).bind fun _ w h => ?_
  have hfound : Keeps w₀.Performs (findTargets m.name) := fun w h => hreport _ w h
  refine bind_induction (hfound w h) fun targets w₁ hy h₁ => ?_
  split
  · exact (hreport _).bind (fun _ => keeps_pure true) w₁ h₁
  split
  · exact (hreport _).bind (fun _ => (htally _).bind fun _ => keeps_pure false) w₁ h₁
  · have hready : Ready w₀ targets w₁ := by
      refine ⟨h₁, fun h₀ t ht => ?_⟩
      simp [findTargets] at hy
      obtain ⟨rfl, rfl⟩ := hy
      exact (h.evolves.numbered h₀).returns_of_mem_targets ht
    exact (Keeps.bind (keeps_injectInto m) (fun _ => keeps_pure true) w₁ hready).1

/-- Marker types are woven without an identifier being given to a second type or method. -/
theorem numbered_inject {m : MarkerType} (h : w.module.Numbered) : ((inject m).run w).2.module.Numbered :=
  (keeps_inject m w (.refl w)).evolves.numbered h

end Weaving

namespace Workspace

open Step

/-- A walk of the visitors of a pass is a run, whether it comes to its end or not. -/
theorem performs_walk {names : List String} {vs : List (Visitor Workspace)} (hvs : visitorsNamed names = .ok vs)
    (w : Workspace) : w.Performs ((walk Workspace.module vs).run w).2 := by
  refine (standard_of_visitorsNamed hvs).1.keeps_walk (I := w.Performs) (fun id => ?_) (fun id w₁ h₁ => ?_) w (.refl w)
  · refine Keeps.bind (fun w₁ h₁ => h₁.after (o := .scan id) rfl fun _ => trivial) fun marker? => ?_
    cases marker? with
    | none => exact keeps_pure ()
    | some marker =>
      exact (Weaving.keeps_inject marker).bind fun _ w₁ h₁ => h₁.untouched ⟨rfl, rfl, rfl, rfl, rfl⟩
  · exact h₁.after (o := .sweep id) rfl fun _ => trivial

/-- What any pass makes of the module is what a run makes of it. -/
theorem exists_perform_of_weave (w : Workspace) (settings : Settings) :
    ∃ ops, (w.module.weave settings).2 = (w.perform ops).module := by
  unfold Module.weave
  cases hvs : visitorsNamed settings.components with
  | error failure => exact ⟨[], rfl⟩
  | ok vs =>
    obtain ⟨ops, hops, -⟩ := performs_walk hvs ⟨{ settings }, w.module⟩
    exact ⟨.renew settings :: ops, congrArg Workspace.module hops.symm⟩

end Workspace

end AdviceWeaving
