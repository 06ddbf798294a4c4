import AdviceWeaving.Proofs.Operations

/-!
# Handles and locals are made once

A type that has been given its handle keeps it: whatever is done afterwards, in this pass or in later ones and with
whatever storage, to ask for the handle gives the same one and changes nothing in the module
(`Weaving.keepsHandle_of_yields`).  In a run of passes a type gets at most one field, one hidden method, and one call of
it in each constructor (`Workspace.grows_perform`, `Workspace.countP_initializes_le_one`), and in a pass a method gets
one local for its return value (`Weaving.keepsSlot_of_yields`).  All of this is collected in
`Weaving.handleOf_idempotent`.
-/

namespace AdviceWeaving

open Step

/-! ### Asking again -/

namespace Workspace

/-- Whatever is done, to ask for the handle gives this one, and changes neither the module nor a cursor. -/
def KeepsHandle (w : Workspace) (id : TypeId) (handle : Handle) : Prop :=
  ∀ ops, ∃ w', Yields (Weaving.handleOf id) (w.perform ops) handle w' ∧ w'.module = (w.perform ops).module ∧
    w'.pass.cursors = (w.perform ops).pass.cursors

/-- Whatever is done in the same pass, to ask for the local gives this one, and changes nothing. -/
def KeepsSlot (w : Workspace) (id : MethodId) (slot : UInt16) : Prop :=
  ∀ ops, (∀ o ∈ ops, Operation.continues o) → ∀ type,
    Yields (Weaving.slotOf id type) (w.perform ops) slot (w.perform ops)

end Workspace

namespace TypeDecl.Bears

variable {t : TypeDecl} {handle : Handle}

private theorem newHandle_eq (h : t.Bears handle) (storage : HandleStorage) : t.newHandle storage = handle := by
  obtain ⟨⟨f, hf, hfield⟩, x, hx, hinitializer⟩ := h
  cases handle
  simp_all [newHandle, TypeDecl.handle]

/-- To give a type the handle that it bears gives it nothing. -/
private theorem withHandle_eq (h : t.Bears handle) {m : Module} {id : TypeId} (ht : m.type? id = some t)
    (storage : HandleStorage) : m.withHandle storage t = m := by
  obtain ⟨⟨f, hf, -⟩, x, hx, -⟩ := h
  have htype : t.withHandle storage ⟨m.ids.nextMethod⟩ = t := by
    simp [withHandle, fieldsWithHandle, methodsWithHandle, hf, hx]
  rw [Module.withHandle, htype, Module.put_self ht, hx]
  rfl

end TypeDecl.Bears

namespace Weaving

open Workspace

variable {w w₁ : Workspace}

/-- A type that bears a handle gives it, whether the pass knows it or not. -/
private theorem yields_handleOf_of_bears (hw : w.Consistent) {id : TypeId} {t : TypeDecl} {handle : Handle}
    (ht : w.module.type? id = some t) (hbears : t.Bears handle) :
    ∃ w', Yields (handleOf id) w handle w' ∧ w'.module = w.module ∧ w'.pass.cursors = w.pass.cursors := by
  cases hknown : w.pass.handle? id with
  | some known =>
    -- the type bears what the pass knows as well
    obtain ⟨t', ht', hbears'⟩ := hw id known hknown
    cases ht.symm.trans ht'
    obtain rfl : known = handle := (hbears'.newHandle_eq .shared).symm.trans (hbears.newHandle_eq .shared)
    exact ⟨w, yields_handleOf_known hknown, rfl, rfl⟩
  | none =>
    obtain ⟨x, hx⟩ : ∃ x, t.method? initializerName = some x := hbears.2.imp fun _ h => h.1
    have hfits : t.TakesHandle := fun hnone => by cases hx.symm.trans hnone
    refine ⟨_, hbears.newHandle_eq w.pass.settings.handleStorage ▸ yields_handleOf_new hknown ht hfits,
      hbears.withHandle_eq ht _, ?_⟩
    simp [Pass.withHandle, hx]

/-- A handle that has been given stays the handle of its type. -/
theorem keepsHandle_of_yields (hw : w.Consistent) {id : TypeId} {handle : Handle}
    (hy : Yields (handleOf id) w handle w₁) : w₁.KeepsHandle id handle := by
  obtain ⟨t, ht, hbears⟩ : ∃ t, w₁.module.type? id = some t ∧ t.Bears handle := by
    obtain ⟨hknown, rfl⟩ | ⟨-, t, ht, -, rfl, rfl⟩ := yields_handleOf_iff.1 hy
    · exact hw id handle hknown
    · exact ⟨_, Module.type?_withHandle ht _, t.bears_newHandle _ _⟩
  have hw₁ : w₁.Consistent := by
    have hevolves := evolves_handleOf w id
    rw [hy] at hevolves
    exact hevolves.consistent hw
  intro ops
  obtain ⟨t', ht', hgrows⟩ := (grows_perform w₁ ops).type? ht
  exact yields_handleOf_of_bears (hw₁.perform ops) ht' (hbears.grows hgrows)

/-- A local that has been given stays the local for the return value. -/
theorem keepsSlot_of_yields {id : MethodId} {type : ValueType} {slot : UInt16}
    (hy : Yields (slotOf id type) w slot w₁) : w₁.KeepsSlot id slot := by
  have hslot : w₁.pass.slot? id = some slot := by
    obtain ⟨hknown, rfl⟩ | ⟨-, b, b', -, -, rfl⟩ := yields_slotOf_iff.1 hy
    · exact hknown
    · simp [Workspace.allotted, Pass.slot?]
  exact fun ops hops type => yields_slotOf_iff.2 (.inl ⟨(evolves_perform w₁ hops).slot? id slot hslot, rfl⟩)

/-- The first time that a local is given it is made, with nothing else in the body but that locals are cleared. -/
private theorem locals_of_yields_slotOf {id : MethodId} {type : ValueType} {slot : UInt16}
    (hnew : w.pass.slot? id = none)
    (hy : Yields (slotOf id type) w slot w₁) :
    ∃ b, w.module.body? id = some b ∧
      w₁.module.body? id = some { b with locals := b.locals.push type, initLocals := true } := by
  obtain ⟨hknown, -⟩ | ⟨-, b, b', hb, hadd, rfl⟩ := yields_slotOf_iff.1 hy
  · cases hnew.symm.trans hknown
  refine ⟨b, hb, ?_⟩
  unfold Body.addLocal at hadd
  split at hadd
  · cases hadd
    exact Module.body?_setBody_self hb _
  · cases hadd

end Weaving

/-! ### Making once -/

namespace Workspace

/-- The operation makes the hidden method of a type, and lets all constructors call it. -/
def initializes (id : TypeId) (w : Workspace) : Operation → Bool
  | .handle k => k = id && (w.pass.handle? id).isNone &&
      (w.module.type? id).any (·.method? initializerName |>.isNone) &&
      ((Weaving.handleOf id).run w).1.toOption.isSome
  | _ => false

variable {w : Workspace} {id : TypeId} {o : Operation} {ops : List Operation}

theorem initializes_iff :
    w.initializes id o ↔ o = .handle id ∧ w.pass.handle? id = none ∧
      ∃ t, w.module.type? id = some t ∧ t.TakesHandle ∧ t.method? initializerName = none := by
  have hsucceeds {t : TypeDecl} (hnew : w.pass.handle? id = none) (ht : w.module.type? id = some t) :
      ((Weaving.handleOf id).run w).1.toOption.isSome ↔ t.TakesHandle := by
    by_cases hfits : t.TakesHandle
    · rw [Weaving.yields_handleOf_new hnew ht hfits]
      simpa [Except.toOption] using hfits
    · rw [Weaving.fails_handleOf_overflow hnew ht hfits]
      simpa [Except.toOption] using hfits
  cases o with
  | handle k =>
    cases hnew : w.pass.handle? id with
    | some handle => simp [initializes, hnew]
    | none =>
      cases ht : w.module.type? id with
      | none => simp [initializes, ht]
      | some t => simp [initializes, hnew, ht, hsucceeds hnew ht, and_comm, and_left_comm]
  | _ => simp [initializes]

/-- A type that is given its handle has a hidden method afterwards. -/
theorem exists_hidden_after {t : TypeDecl} (hnew : w.pass.handle? id = none) (ht : w.module.type? id = some t)
    (hfits : t.TakesHandle) :
    ∃ t' x, (w.after (.handle id)).module.type? id = some t' ∧ t'.method? initializerName = some x := by
  obtain ⟨-, x, hx, -⟩ := t.bears_newHandle w.pass.settings.handleStorage ⟨w.module.ids.nextMethod⟩
  refine ⟨_, x, ?_, hx⟩
  rw [after, Weaving.yields_handleOf_new hnew ht hfits]
  exact Module.type?_withHandle ht _

/-- A type that has its hidden method is not given another one. -/
private theorem initializes_eq_false {t : TypeDecl} {x : Method} (ht : w.module.type? id = some t)
    (hx : t.method? initializerName = some x) {p : Workspace × Operation} (hp : p ∈ w.trace ops) :
    p.1.initializes id p.2 = false := by
  induction ops generalizing w t x with
  | nil => cases hp
  | cons o ops ih =>
    rcases List.mem_cons.1 hp with rfl | hp
    · rw [← Bool.not_eq_true, initializes_iff]
      rintro ⟨-, -, t', ht', -, hnone⟩
      cases ht.symm.trans ht'
      cases hx.symm.trans hnone
    · obtain ⟨t', ht', hgrows⟩ := (grows_after w o).type? ht
      obtain ⟨x', hx', -⟩ := hgrows.method? hx
      exact ih ht' hx' hp

/-- In a run of passes, the hidden method of a type is made once at most. -/
theorem countP_initializes_le_one (w : Workspace) (ops : List Operation) (id : TypeId) :
    (w.trace ops).countP (fun p => p.1.initializes id p.2) ≤ 1 := by
  induction ops generalizing w with
  | nil => exact Nat.zero_le 1
  | cons o ops ih =>
    rw [trace, List.countP_cons]
    split
    · next hinit =>
      obtain ⟨rfl, hnew, t, ht, hfits, -⟩ := initializes_iff.1 hinit
      obtain ⟨t', x, ht', hx⟩ := exists_hidden_after hnew ht hfits
      have hrest : ((w.after (.handle id)).trace ops).countP (fun p => p.1.initializes id p.2) = 0 :=
        List.countP_eq_zero.2 fun p hp => by simp [initializes_eq_false ht' hx hp]
      exact Nat.le_of_eq (congrArg (· + 1) hrest)
    · exact ih (w.after o)

/-- If the hidden method is not made, then no method changes. -/
private theorem methods_of_not_initializes (h : w.initializes id (.handle id) = false) :
    (w.after (.handle id)).module.types.map (·.methods) = w.module.types.map (·.methods) := by
  cases hknown : w.pass.handle? id with
  | some known => rw [after, Weaving.yields_handleOf_known hknown]
  | none =>
    cases ht : w.module.type? id with
    | none => rw [after, Weaving.fails_handleOf_unknown hknown ht]
    | some t =>
      by_cases hfits : t.TakesHandle
      case neg => rw [after, Weaving.fails_handleOf_overflow hknown ht hfits]
      obtain ⟨x, hx⟩ : ∃ x, t.method? initializerName = some x := by
        rw [← Bool.not_eq_true, initializes_iff] at h
        exact Option.ne_none_iff_exists'.1 fun hnone => h ⟨rfl, hknown, t, ht, hfits, hnone⟩
      obtain ⟨front, back, htypes, htypes'⟩ := Module.exists_types_withHandle ht w.pass.settings.handleStorage
      rw [after, Weaving.yields_handleOf_new hknown ht hfits, htypes, htypes']
      simp [TypeDecl.withHandle, TypeDecl.methodsWithHandle, hx]

/-- If it is made, then every constructor of the type gets one call of it, and no other method changes. -/
private theorem methods_of_initializes (h : w.initializes id (.handle id)) :
    ∃ front t back x, w.module.types = front ++ t :: back ∧ t.id = id ∧ x.name = initializerName ∧
      (w.after (.handle id)).module.types.map (·.methods) = front.map (·.methods) ++
        (t.methods.map (·.prologue (initializerCall (initializerSig t.name))) ++ [x]) :: back.map (·.methods) := by
  obtain ⟨-, hnew, t, ht, hfits, hnone⟩ := initializes_iff.1 h
  obtain ⟨front, back, htypes, htypes'⟩ := Module.exists_types_withHandle ht w.pass.settings.handleStorage
  let hidden := initializerMethod w.pass.settings.handleStorage (t.handle w.pass.settings.handleStorage)
  refine ⟨front, t, back, { hidden with id := ⟨w.module.ids.nextMethod⟩ }, htypes, Module.id_of_type? ht, rfl, ?_⟩
  rw [after, Weaving.yields_handleOf_new hnew ht hfits, htypes']
  simp [TypeDecl.withHandle, TypeDecl.methodsWithHandle, hnone, hidden]

end Workspace

namespace Weaving

open Workspace

/-- Handles and locals are made once.  In any passes over any module, a handle that has been given is given again
whatever has come in between, in the same pass or in a later one, and then neither the module nor a cursor changes.
No type gets a second field, a second hidden method, or calls of it in its constructors a second time.  In one pass
all requests for the local of a method give the same one, and only the first of them adds it.  The operations in
between may be those of whole passes. -/
theorem handleOf_idempotent (m : Module) (settings : Settings) (ops : List Operation) :
    let start : Workspace := ⟨{ settings }, m⟩
    let w := start.perform ops
    (∀ id handle w₁, Yields (handleOf id) w handle w₁ → w₁.KeepsHandle id handle) ∧
    (m.Grows w.module ∧ ∀ id, (start.trace ops).countP (fun p => p.1.initializes id p.2) ≤ 1 ∧
      (w.initializes id (.handle id) = false →
        (w.after (.handle id)).module.types.map (·.methods) = w.module.types.map (·.methods)) ∧
      (w.initializes id (.handle id) →
        ∃ front t back x, w.module.types = front ++ t :: back ∧ t.id = id ∧ x.name = initializerName ∧
          (w.after (.handle id)).module.types.map (·.methods) = front.map (·.methods) ++
            (t.methods.map (·.prologue (initializerCall (initializerSig t.name))) ++ [x]) ::
              back.map (·.methods))) ∧
    (∀ id type,
      (∀ slot w₁, Yields (slotOf id type) w slot w₁ → w₁.KeepsSlot id slot ∧
        (w.pass.slot? id = none → ∃ b, w.module.body? id = some b ∧
          w₁.module.body? id = some { b with locals := b.locals.push type, initLocals := true }) ∧
        (w.pass.slot? id ≠ none → w₁ = w)) ∧
      ∀ failure w₁, Fails (slotOf id type) w failure w₁ → w₁ = w) ∧
    ∀ settings', ∃ ops', (w.module.weave settings').2 = (w.perform ops').module := by
  intro start w
  have hw : w.Consistent := (consistent_start settings m).perform ops
  refine ⟨fun id handle w₁ hy => keepsHandle_of_yields hw hy, ⟨grows_perform start ops, fun id => ?_⟩,
    fun id type => ⟨fun slot w₁ hy => ?_, fun _ _ hf => (fails_slotOf_iff.1 hf).2.1⟩, w.exists_perform_of_weave⟩
  · exact ⟨countP_initializes_le_one start ops id, methods_of_not_initializes, methods_of_initializes⟩
  · refine ⟨keepsSlot_of_yields hy, fun hnew => locals_of_yields_slotOf hnew hy, fun hknown => ?_⟩
    obtain ⟨-, hsame⟩ | ⟨hnew, -⟩ := yields_slotOf_iff.1 hy
    · exact hsame
    · exact absurd hnew hknown

/-- A type gets its handle for a pass that keeps handles in instances, and keeps it in a later pass that shares them.  Its
constructor gets a local once, however often one is asked for. -/
theorem handleOf_idempotent_renewed :
    let start : Workspace := ⟨{}, .ofTypes "m" [sampleOwner [] []]⟩
    (∃ handle w₁ w', Yields (handleOf ⟨0⟩) start handle w₁ ∧
      Yields (handleOf ⟨0⟩) (w₁.perform [.renew { handleStorage := .shared }]) handle w' ∧ w'.module = w₁.module) ∧
    ∃ w₁ b, Yields (slotOf ⟨0⟩ .int32) start 0 w₁ ∧ w₁.module.body? ⟨0⟩ = some b ∧ b.locals = #[.int32] ∧
      Yields (slotOf ⟨0⟩ .int32) (w₁.perform [.handle ⟨0⟩]) 0 (w₁.perform [.handle ⟨0⟩]) := by
  intro start
  obtain ⟨hhandles, -, hslots, -⟩ := handleOf_idempotent start.module {} []
  constructor
  · have hy : Yields (handleOf ⟨0⟩) start _ _ := yields_handleOf_new rfl rfl (takesHandle_sampleOwner (by simp))
    obtain ⟨w', hy', hmodule, -⟩ := hhandles ⟨0⟩ _ _ hy [.renew { handleStorage := .shared }]
    exact ⟨_, _, w', hy, hy', hmodule⟩
  · have hy : Yields (slotOf ⟨0⟩ .int32) start 0 _ := yields_slotOf_iff.2 (.inr ⟨rfl, _, _, rfl, rfl, rfl⟩)
    obtain ⟨hkeeps, hmade, -⟩ := (hslots ⟨0⟩ .int32).1 0 _ hy
    obtain ⟨b, hb, hb'⟩ := hmade rfl
    cases hb
    exact ⟨_, _, hy, hb', rfl, hkeeps [.handle ⟨0⟩] (by simp [Operation.continues]) .int32⟩

end Weaving

end AdviceWeaving
