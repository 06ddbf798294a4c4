import AdviceWeaving.Proofs.Epilogues
import AdviceWeaving.Proofs.Profiles
import AdviceWeaving.Proofs.Steps

/-!
# What a step can do

Many steps of a pass choose between ways: a marker type is woven or not, a local is there or is made, advice comes on
entry or on exit.  For each of these steps one statement tells all its ways, what each asks for and what it leaves.
What a pass does is proved from these statements, way by way, and no step is opened again.  The visits of an outline
come apart likewise (`Outline.enlist_cases`, `Outline.weaveType_cases`).
-/

namespace AdviceWeaving

/-! ### Visits of an outline -/

namespace Outline

variable {settings : Settings} {o : Outline} {id : TypeId} {t : TypeDecl} {m : MarkerType}

/-- The outline without the markers of the type `t`, which have been read. -/
def scanType (settings : Settings) (o : Outline) (id : TypeId) (t : TypeDecl) : Outline :=
  { o with module := o.module.updateType id fun _ => (t.scan settings.markers).rest }

theorem type?_scanType_self (ht : o.module.type? id = some t) :
    (o.scanType settings id t).module.type? id = some (t.scan settings.markers).rest :=
  Module.type?_updateType_self ht (t.scan_rest_id _)

theorem type?_scanType_of_ne (ht : o.module.type? id = some t) {k : TypeId} (hk : k ≠ id) :
    (o.scanType settings id t).module.type? k = o.module.type? k :=
  Module.type?_updateType_of_ne ht (t.scan_rest_id _) hk

theorem profiles_scanType (ht : o.module.type? id = some t) :
    (o.scanType settings id t).module.profiles = o.module.profiles :=
  Module.profiles_updateType ht (t.profiles_scan _)

theorem numbered_scanType (h : o.module.Numbered) (ht : o.module.type? id = some t) :
    (o.scanType settings id t).module.Numbered :=
  h.updateType ht (t.scan_rest_id _) (t.profiles_scan _)

/-- A marker type is not noted, or noted as it is, or noted with the hidden members that its type gets. -/
theorem enlist_cases {motive : Outline → Prop} (skipped : motive o)
    (static : m.firstViolation? (o.module.targets m.name) = none → m.advice.any (!·.isStatic) = false →
      motive { o with admissions := o.admissions ++ [{ marker := m, targets := o.module.targets m.name }] })
    (equipped : ∀ t, m.firstViolation? (o.module.targets m.name) = none → m.advice.any (!·.isStatic) = true →
      t.id = m.owner → o.module.type? t.id = some t →
      motive
        { module := (o.module.addHandleField settings.handleStorage t).addInitializer settings.handleStorage t
          admissions := o.admissions ++ [{ marker := m, targets := o.module.targets m.name
                                           handle? := some (t.handle settings.handleStorage)
                                           initializes := (t.method? initializerName).isNone }] }) :
    motive (o.enlist settings m) := by
  by_cases hrejected : (o.module.targets m.name).isEmpty ∨ (m.firstViolation? (o.module.targets m.name)).isSome
  · rw [enlist_of_rejected hrejected]
    exact skipped
  have hlawful : m.firstViolation? (o.module.targets m.name) = none := by
    simpa using fun hsome => hrejected (.inr hsome)
  cases hany : m.advice.any (!·.isStatic) with
  | false =>
    rw [enlist_of_static hrejected hany]
    exact static hlawful hany
  | true =>
    cases ht : o.module.type? m.owner with
    | none =>
      rw [enlist_of_missing hrejected hany ht]
      exact skipped
    | some t =>
      rw [enlist_of_instance hrejected hany ht]
      have hid := Module.id_of_type? ht
      exact equipped t hlawful hany hid (hid ▸ ht)

theorem weaveType_of_unmarked (ht : o.module.type? id = some t) (h : (t.scan settings.markers).declared = .ok none) :
    o.weaveType settings id = o.scanType settings id t := by
  simp only [weaveType, ht, h]
  rfl

theorem weaveType_of_marker (ht : o.module.type? id = some t)
    (h : (t.scan settings.markers).declared = .ok (some m)) :
    o.weaveType settings id = (o.scanType settings id t).enlist settings m := by
  simp only [weaveType, ht, h]
  rfl

/-- The markers of a type that is there are read; if they declare a marker type, it is that of this type. -/
theorem weaveType_cases {motive : Outline → Prop} (missing : o.module.type? id = none → motive o)
    (read : ∀ t, o.module.type? id = some t → motive (o.scanType settings id t))
    (marked : ∀ t m, o.module.type? id = some t → (t.scan settings.markers).declared = .ok (some m) → m.owner = id →
      motive ((o.scanType settings id t).enlist settings m)) :
    motive (o.weaveType settings id) := by
  cases ht : o.module.type? id with
  | none =>
    simp only [weaveType, ht]
    exact missing ht
  | some t =>
    cases h : (t.scan settings.markers).declared with
    | error failure =>
      simp only [weaveType, ht, h]
      exact read t ht
    | ok m? =>
      cases m? with
      | none =>
        rw [weaveType_of_unmarked ht h]
        exact read t ht
      | some m =>
        rw [weaveType_of_marker ht h]
        exact marked t m ht h ((t.owner_of_scan h).trans (Module.id_of_type? ht))

/-- At a type the marker type may be woven, and then the stray markers may be removed. -/
theorem visitType_cases {motive : Outline → Prop} (idle : motive o) (weave : motive (o.weaveType settings id))
    (sweep : ∀ o', motive o' → motive (o'.sweepType settings id)) : motive (o.visitType settings id) := by
  have hweave : motive (if injectionWeaverName ∈ settings.components then o.weaveType settings id else o) := by
    split
    · exact weave
    · exact idle
  simp only [visitType]
  split
  · exact sweep _ hweave
  · exact hweave

end Outline

/-! ### What steps leave -/

namespace Workspace

variable (w : Workspace)

/-- The markers of the type `t` have been read and removed. -/
def scanned (id : TypeId) (t : TypeDecl) : Workspace :=
  { w with module := w.module.updateType id fun _ => (t.scan w.pass.settings.markers).rest }.counting fun n =>
    { n with markersStripped := n.markersStripped + (t.scan w.pass.settings.markers).stripped }

/-- A marker type has been dealt with. -/
def defining (m : MarkerType) : Workspace :=
  { w with pass := { w.pass with definitions := w.pass.definitions ++ [m] } }

/-- A marker type has been counted, and the carriers that are no targets have been found. -/
def presented (m : MarkerType) : Workspace :=
  (w.counting fun n => { n with markerTypes := n.markerTypes + 1 }).reporting (w.module.bodylessWarnings m.name)

/-- Static targets have been warned of, if there is a handle. -/
def warned (m : MarkerType) (handle? : Option Handle) (targets : List Target) : Workspace :=
  if handle?.isSome then w.reporting (Weaving.nullReceiverWarnings w.pass.settings.handleStorage m targets) else w

/-- The body `b` of a target has got a local for its return value. -/
def allotted (id : MethodId) (slot : UInt16) (b : Body) : Workspace where
  pass := { w.pass with slots := (id, slot) :: w.pass.slots }
  module := w.module.setBody id { b with initLocals := true }

/-- The code of entry advice has been put into the body `b` of a target. -/
def entered (code : List Instruction) (id : MethodId) (b : Body) : Workspace :=
  { pass := w.pass.advance code.length id
    module := w.module.setBody id (b.splice (w.pass.cursor id) code .displaced) : Workspace }.counting fun n =>
      { n with entrySites := n.entrySites + 1 }

/-- The code of exit advice has been put into the body `b` of a target. -/
def exited (code : List Instruction) (id : MethodId) (b : Body) : Workspace :=
  { w with module := w.module.setBody id (b.spliceAtExits fun _ => code).1 }.counting fun n =>
    { n with exitSites := n.exitSites + (b.spliceAtExits fun _ => code).2 }

/-- The markers have been removed from the method `x` of the type `t`. -/
def cleared (id : MethodId) (t : TypeDecl) (x : Method) : Workspace :=
  ({ w with module := w.module.updateMethod id (Weaving.swept w.pass.settings.markers) }.counting fun n =>
    { n with markersStripped := n.markersStripped + x.countMarkers w.pass.settings.markers }).reporting
    [Weaving.strayMarkerWarning t x]

variable {w} {id : TypeId} {t : TypeDecl}

theorem module_scanned : (w.scanned id t).module =
    w.module.updateType id fun _ => (t.scan w.pass.settings.markers).rest := rfl

theorem markersStripped_scanned : (w.scanned id t).pass.tally.markersStripped =
    w.pass.tally.markersStripped + (t.scan w.pass.settings.markers).stripped := rfl

theorem type?_scanned_self (ht : w.module.type? id = some t) :
    (w.scanned id t).module.type? id = some (t.scan w.pass.settings.markers).rest :=
  Module.type?_updateType_self ht (t.scan_rest_id _)

theorem numbered_scanned (h : w.module.Numbered) (ht : w.module.type? id = some t) :
    (w.scanned id t).module.Numbered :=
  h.updateType ht (t.scan_rest_id _) (t.profiles_scan _)

end Workspace

/-! ### Steps -/

namespace Weaving

open Step

variable {w w' : Workspace} {failure : Failure} {u : Unit}

/-- A type is left without its markers, even if one of them is faulty. -/
theorem yields_scan_iff {id : TypeId} {m? : Option MarkerType} :
    Yields (scan id) w m? w' ↔ ∃ t, w.module.type? id = some t ∧
      (t.scan w.pass.settings.markers).declared = .ok m? ∧ w' = w.scanned id t := by
  simp [scan]
  rfl

theorem fails_scan_iff {id : TypeId} :
    Fails (scan id) w failure w' ↔ (w.module.type? id = none ∧ failure = .unknownType id ∧ w' = w) ∨
      ∃ t, w.module.type? id = some t ∧ (t.scan w.pass.settings.markers).declared = .error failure ∧
        w' = w.scanned id t := by
  simp [scan]
  rfl

theorem run_scan {id : TypeId} {t : TypeDecl} (ht : w.module.type? id = some t) :
    ((scan id).run w).2 = w.scanned id t := by
  rcases hrun : (scan id).run w with ⟨failure | m?, w'⟩
  · rcases fails_scan_iff.1 hrun with ⟨hnone, -⟩ | ⟨t', ht', -, rfl⟩
    · cases hnone.symm.trans ht
    · cases ht.symm.trans ht'
      rfl
  · obtain ⟨t', ht', -, rfl⟩ := yields_scan_iff.1 hrun
    cases ht.symm.trans ht'
    rfl

theorem yields_weaveType_iff {id : TypeId} :
    Yields (weaveType id) w u w' ↔ Yields (scan id) w none w' ∨
      ∃ m w₁ accepted w₂, Yields (scan id) w (some m) w₁ ∧ Yields (inject m) w₁ accepted w₂ ∧ w' = w₂.defining m := by
  rw [weaveType, yields_bind]
  constructor
  · rintro ⟨m?, w₁, hscan, hy⟩
    cases m? with
    | none =>
      obtain ⟨-, rfl⟩ := yields_pure.1 hy
      exact .inl hscan
    | some m =>
      obtain ⟨accepted, w₂, hinject, hy⟩ := yields_bind.1 hy
      exact .inr ⟨m, w₁, accepted, w₂, hscan, hinject, yields_updatePass.1 hy⟩
  · rintro (hscan | ⟨m, w₁, accepted, w₂, hscan, hinject, rfl⟩)
    · exact ⟨none, w', hscan, yields_pure.2 ⟨rfl, rfl⟩⟩
    · exact ⟨some m, w₁, hscan, yields_bind.2 ⟨accepted, w₂, hinject, yields_updatePass.2 rfl⟩⟩

/-- A marker type has no targets, or breaks a rule on one of them, or is put into them. -/
theorem yields_inject_iff {m : MarkerType} {accepted : Bool} :
    Yields (inject m) w accepted w' ↔
      (w.module.targets m.name = [] ∧ accepted = true ∧
        w' = (w.presented m).reporting [noTargetsWarning m.name]) ∨
      (w.module.targets m.name ≠ [] ∧
        ∃ violation target, m.firstViolation? (w.module.targets m.name) = some (violation, target) ∧
          accepted = false ∧ w' = ((w.presented m).reporting [violation.diagnostic target.qualified]).counting
            fun n => { n with rejected := n.rejected + 1 }) ∨
      (w.module.targets m.name ≠ [] ∧ m.firstViolation? (w.module.targets m.name) = none ∧ accepted = true ∧
        Yields (injectInto m (w.module.targets m.name)) (w.presented m) () w') := by
  by_cases hempty : w.module.targets m.name = []
  · simp [inject, findTargets, hempty, Workspace.presented, and_comm]
  · cases hviolation : m.firstViolation? (w.module.targets m.name) with
    | none =>
      simp [inject, findTargets, hempty, hviolation, Workspace.presented, and_comm, Unique.exists_iff]
    | some found =>
      obtain ⟨violation, target⟩ := found
      simp [inject, findTargets, hempty, hviolation, Workspace.presented, and_comm]

theorem fails_inject_iff {m : MarkerType} :
    Fails (inject m) w failure w' ↔ w.module.targets m.name ≠ [] ∧
      m.firstViolation? (w.module.targets m.name) = none ∧
      Fails (injectInto m (w.module.targets m.name)) (w.presented m) failure w' := by
  by_cases hempty : w.module.targets m.name = []
  · simp [inject, findTargets, hempty]
  · cases hviolation : m.firstViolation? (w.module.targets m.name) with
    | none => simp [inject, findTargets, hempty, hviolation, Workspace.presented]
    | some found => simp [inject, findTargets, hempty, hviolation]

theorem yields_handleFor_iff {m : MarkerType} {handle? : Option Handle} :
    Yields (handleFor m) w handle? w' ↔
      (m.advice.any (!·.isStatic) = false ∧ handle? = none ∧ w' = w) ∨
      (m.advice.any (!·.isStatic) = true ∧ ∃ handle, handle? = some handle ∧
        Yields (handleOf m.owner) w handle w') := by
  unfold handleFor
  cases m.advice.any (!·.isStatic) <;> simp [and_comm]

theorem fails_handleFor_iff {m : MarkerType} :
    Fails (handleFor m) w failure w' ↔
      m.advice.any (!·.isStatic) = true ∧ Fails (handleOf m.owner) w failure w' := by
  unfold handleFor
  cases m.advice.any (!·.isStatic) <;> simp

theorem yields_injectInto_iff {m : MarkerType} {targets : List Target} :
    Yields (injectInto m targets) w u w' ↔ ∃ handle? w₁ w₂, Yields (handleFor m) w handle? w₁ ∧
      Yields (forM targets (injectAll m handle?)) (w₁.warned m handle? targets) () w₂ ∧
      w' = w₂.counting fun n => { n with targets := n.targets + targets.length } := by
  rw [injectInto, yields_bind]
  refine exists_congr fun handle? => exists_congr fun w₁ => ?_
  cases handle? with
  | none => simp [Workspace.warned, Unique.exists_iff]
  | some handle => simp [Workspace.warned, Unique.exists_iff]

theorem fails_injectInto_iff {m : MarkerType} {targets : List Target} :
    Fails (injectInto m targets) w failure w' ↔ Fails (handleFor m) w failure w' ∨
      ∃ handle? w₁, Yields (handleFor m) w handle? w₁ ∧
        Fails (forM targets (injectAll m handle?)) (w₁.warned m handle? targets) failure w' := by
  rw [injectInto, fails_bind]
  refine or_congr Iff.rfl (exists_congr fun handle? => exists_congr fun w₁ => ?_)
  cases handle? with
  | none => simp [Workspace.warned]
  | some handle => simp [Workspace.warned]

theorem yields_slotOf_iff {id : MethodId} {type : ValueType} {slot : UInt16} :
    Yields (slotOf id type) w slot w' ↔ (w.pass.slot? id = some slot ∧ w' = w) ∨
      (w.pass.slot? id = none ∧ ∃ b b', w.module.body? id = some b ∧ b.addLocal type = some (slot, b') ∧
        w' = w.allotted id slot b') := by
  rw [slotOf, yields_get_bind]
  cases hslot : w.pass.slot? id with
  | some known => simp [eq_comm]
  | none => simp; rfl

theorem fails_slotOf_iff {id : MethodId} {type : ValueType} :
    Fails (slotOf id type) w failure w' ↔ w.pass.slot? id = none ∧ w' = w ∧
      ((w.module.body? id = none ∧ failure = .unknownMethod id) ∨
        ∃ b, w.module.body? id = some b ∧ b.addLocal type = none ∧ failure = .localsExhausted id) := by
  rw [slotOf, fails_get_bind]
  cases hslot : w.pass.slot? id with
  | some known => simp
  | none =>
    cases hbody : w.module.body? id with
    | none => simp [hbody, and_comm]
    | some b => simp [hbody, and_comm, and_left_comm]

/-- Entry advice takes a body that has room for it; exit advice may ask for a local first. -/
theorem yields_injectAdvice_iff {a : Advice} {receiver : List Instruction} {t : Target} :
    Yields (injectAdvice a receiver t) w u w' ↔
      (a.timing = .onEntry ∧ ∃ b, w.module.body? t.id = some b ∧
        b.SpliceFits (w.pass.cursor t.id) (a.entryCode receiver t) .displaced ∧
        w' = w.entered (a.entryCode receiver t) t.id b) ∨
      (a.timing = .onExit ∧ a.binds .targetReturnValue = false ∧
        ∃ b, w.module.body? t.id = some b ∧ b.ExitsFit (a.exitCode receiver t none) ∧
          w' = w.exited (a.exitCode receiver t none) t.id b) ∨
      (a.timing = .onExit ∧ a.binds .targetReturnValue = true ∧
        ∃ slot w₁ b, Yields (slotOf t.id t.ret) w slot w₁ ∧ w₁.module.body? t.id = some b ∧
          b.ExitsFit (a.exitCode receiver t (some slot)) ∧
          w' = w₁.exited (a.exitCode receiver t (some slot)) t.id b) := by
  unfold injectAdvice
  cases htiming : a.timing with
  | onEntry =>
    simp [injectOnEntry, Body.splice?_eq_some_iff, and_assoc]
    rfl
  | onExit =>
    cases hbinds : a.binds .targetReturnValue with
    | false =>
      simp [injectOnExit, hbinds, Body.spliceAtExits?_eq_some_iff, and_assoc]
      rfl
    | true =>
      simp [injectOnExit, hbinds, Body.spliceAtExits?_eq_some_iff, and_assoc]
      rfl

/-- A branch target of the advice, or of the body that takes it, would pass the largest 64-bit word; by then a local may
have been made. -/
def Overflows (a : Advice) (receiver : List Instruction) (t : Target) (w w' : Workspace) : Prop :=
  (a.timing = .onEntry ∧ w' = w ∧ ∃ b, w.module.body? t.id = some b ∧
    ¬ b.SpliceFits (w.pass.cursor t.id) (a.entryCode receiver t) .displaced) ∨
  (a.timing = .onExit ∧ a.binds .targetReturnValue = false ∧ w' = w ∧
    ∃ b, w.module.body? t.id = some b ∧ ¬ b.ExitsFit (a.exitCode receiver t none)) ∨
  (a.timing = .onExit ∧ a.binds .targetReturnValue = true ∧
    ∃ slot b, Yields (slotOf t.id t.ret) w slot w' ∧ w'.module.body? t.id = some b ∧
      ¬ b.ExitsFit (a.exitCode receiver t (some slot)))

/-- Advice cannot be put into what has no body, nor where it asks for a local that is not left, nor where a branch
target overflows. -/
theorem fails_injectAdvice_iff {a : Advice} {receiver : List Instruction} {t : Target} :
    Fails (injectAdvice a receiver t) w failure w' ↔
      (w' = w ∧ ((w.module.body? t.id = none ∧ failure = .unknownMethod t.id) ∨
        (a.takesResult ∧ w.pass.slot? t.id = none ∧
          ∃ b, w.module.body? t.id = some b ∧ b.addLocal t.ret = none ∧ failure = .localsExhausted t.id))) ∨
      (failure = .overflow ∧ Overflows a receiver t w w') := by
  unfold injectAdvice Overflows
  cases htiming : a.timing with
  | onEntry =>
    simp [injectOnEntry, Advice.takesResult, htiming, Body.splice?_eq_none_iff]
    grind
  | onExit =>
    cases hbinds : a.binds .targetReturnValue with
    | false =>
      simp [injectOnExit, hbinds, Advice.takesResult, htiming, Body.spliceAtExits?_eq_none_iff]
      grind
    | true =>
      simp [injectOnExit, hbinds, Advice.takesResult, htiming, Body.spliceAtExits?_eq_none_iff]
      constructor
      · rintro (hf | ⟨slot, w₁, hslot, ⟨hnone, rfl, rfl⟩ | ⟨b, hb, hfits, rfl, rfl⟩⟩)
        · obtain ⟨hnew, rfl, hbody | hfull⟩ := fails_slotOf_iff.1 hf
          · exact .inl ⟨rfl, .inl hbody⟩
          · exact .inl ⟨rfl, .inr ⟨hnew, hfull⟩⟩
        · obtain ⟨-, rfl⟩ | ⟨-, b, b', hb, -, rfl⟩ := yields_slotOf_iff.1 hslot
          · exact .inl ⟨rfl, .inl ⟨hnone, rfl⟩⟩
          -- a local that has been made is in a body
          · cases hnone.symm.trans (Module.body?_setBody_self hb _)
        · exact .inr ⟨rfl, slot, hslot, b, hb, hfits⟩
      · rintro (⟨rfl, hbody | ⟨hnew, hfull⟩⟩ | ⟨rfl, slot, hslot, b, hb, hfits⟩)
        · cases hslot : w'.pass.slot? t.id with
          | some slot => exact .inr ⟨slot, w', yields_slotOf_iff.2 (.inl ⟨hslot, rfl⟩), .inl ⟨hbody.1, hbody.2, rfl⟩⟩
          | none => exact .inl (fails_slotOf_iff.2 ⟨hslot, rfl, .inl hbody⟩)
        · exact .inl (fails_slotOf_iff.2 ⟨hnew, rfl, .inr hfull⟩)
        · exact .inr ⟨slot, w', hslot, .inr ⟨b, hb, hfits, rfl, rfl⟩⟩

/-- A method is left as it is if it has no markers. -/
theorem yields_sweepMethod_iff {id : MethodId} :
    Yields (sweepMethod id) w u w' ↔ ∃ t x, w.module.method? id = some (t, x) ∧
      ((x.countMarkers w.pass.settings.markers = 0 ∧ w' = w) ∨
        (x.countMarkers w.pass.settings.markers ≠ 0 ∧ w' = w.cleared id t x)) := by
  rw [sweepMethod, yields_get_bind]
  cases hx : w.module.method? id with
  | none => simp
  | some found =>
    obtain ⟨t, x⟩ := found
    by_cases hcount : x.countMarkers w.pass.settings.markers = 0
    · simp [hcount]
    · simp [hcount]
      rfl

theorem fails_sweepMethod_iff {id : MethodId} :
    Fails (sweepMethod id) w failure w' ↔ w.module.method? id = none ∧ failure = .unknownMethod id ∧ w' = w := by
  rw [sweepMethod, fails_get_bind]
  cases hx : w.module.method? id with
  | none => simp
  | some found =>
    obtain ⟨t, x⟩ := found
    by_cases hcount : x.countMarkers w.pass.settings.markers = 0 <;> simp [hcount]

end Weaving

/-! ### Handles -/

namespace TypeDecl

variable (storage : HandleStorage) (t : TypeDecl)

/-- The handle of the type `t`: its members of these names, or else those that are made. -/
def newHandle : Handle where
  field := t.handle storage
  initializer := (t.method? initializerName).elim (initializerSig t.name) (·.signature t.name)

/-- The fields of the type `t`, with that of its handle. -/
def fieldsWithHandle : List Field :=
  if (t.field? handleFieldName).isSome then t.fields else t.fields ++ [handleField storage t]

/-- The methods of the type `t`, with the hidden one. If it is made, it gets the given identifier and the constructors
run it first. -/
def methodsWithHandle (id : MethodId) : List Method :=
  if (t.method? initializerName).isSome then t.methods
  else t.methods.map (·.prologue (initializerCall (initializerSig t.name))) ++
    [{ initializerMethod storage (t.handle storage) with id }]

/-- The type `t` with the members of its handle. -/
def withHandle (id : MethodId) : TypeDecl :=
  { t with fields := t.fieldsWithHandle storage, methods := t.methodsWithHandle storage id }

/-- The type `t` has its hidden method, or its constructors can take the call of one. -/
def TakesHandle : Prop :=
  t.method? initializerName = none → t.TakesCall (initializerSig t.name)

end TypeDecl

/-- The module in which the type `t` has the members of its handle. -/
def Module.withHandle (m : Module) (storage : HandleStorage) (t : TypeDecl) : Module :=
  { m.put (t.withHandle storage ⟨m.ids.nextMethod⟩) with
    ids := if (t.method? initializerName).isSome then m.ids else m.ids.takeMethod.2 }

/-- What a pass knows when the type `t` has its handle. -/
def Pass.withHandle (p : Pass) (t : TypeDecl) : Pass :=
  { p with
    handles := (t.id, t.newHandle p.settings.handleStorage) :: p.handles
    cursors :=
      if (t.method? initializerName).isSome then p.cursors
      else (t.constructorIds.foldl (·.advance 2) p).cursors }

theorem Pass.foldl_advance_eq (p : Pass) (n : Nat) (ids : List MethodId) :
    ids.foldl (·.advance n) p = { p with cursors := (ids.foldl (·.advance n) p).cursors } := by
  induction ids generalizing p with
  | nil => rfl
  | cons id ids ih => exact ih (p.advance n id)

namespace Weaving

open Step

variable {w w' : Workspace} {id : TypeId} {t t₁ : TypeDecl} {handle : Handle}

private theorem yields_callInitializer (ht : w.module.type? t.id = some t) {initializer : MethodSig}
    (hfits : t.TakesCall initializer) :
    Yields (callInitializer t initializer) w ()
      ⟨{ w.pass with cursors := (t.constructorIds.foldl (·.advance 2) w.pass).cursors },
        w.module.put { t with methods := t.methods.map (·.prologue (initializerCall initializer)) }⟩ := by
  simp only [callInitializer, yields_bind, yields_updateModule, yields_updatePass, yields_expect]
  refine ⟨_, _, ⟨TypeDecl.mapM_prologue?_eq_some_iff.2 ⟨hfits, rfl⟩, rfl⟩, (), _, rfl, ?_⟩
  rw [Module.updateType_eq_put ht rfl]
  exact congrArg (Workspace.mk · _) (Pass.foldl_advance_eq w.pass 2 t.constructorIds).symm

private theorem yields_initializerOf (ht : w.module.type? t.id = some t) (hfits : t.TakesHandle)
    {storage : HandleStorage} (hstorage : storage = w.pass.settings.handleStorage) :
    Yields (initializerOf t (t.handle storage)) w (t.newHandle storage).initializer
      ⟨{ w.pass with cursors := (w.pass.withHandle t).cursors },
        { w.module.put { t with methods := t.methodsWithHandle storage ⟨w.module.ids.nextMethod⟩ } with
          ids := if (t.method? initializerName).isSome then w.module.ids else w.module.ids.takeMethod.2 }⟩ := by
  rw [initializerOf]
  cases hm : t.method? initializerName with
  | some x =>
    have hsame : { t with methods := t.methodsWithHandle storage ⟨w.module.ids.nextMethod⟩ } = t := by
      simp [TypeDecl.methodsWithHandle, hm]
    rw [hsame, Module.put_self ht]
    exact yields_pure.2 ⟨by simp [TypeDecl.newHandle, hm], by simp [Pass.withHandle, hm]⟩
  | none =>
    subst hstorage
    let x := initializerMethod w.pass.settings.handleStorage (t.handle w.pass.settings.handleStorage)
    have hsig : x.signature t.name = initializerSig t.name := rfl
    let t₁ : TypeDecl := { t with methods := t.methods.map (·.prologue (initializerCall (initializerSig t.name))) }
    have ht₁ : (w.module.put t₁).type? t.id = some t₁ := Module.type?_put_self (t := t₁) ht rfl
    simp only
    rw [yields_get_bind, yields_bind, hsig]
    refine ⟨(), _, yields_callInitializer ht (hfits hm), ?_⟩
    rw [yields_get_bind, yields_bind]
    refine ⟨_, _, yields_expect.2 ⟨Module.pushMethod_eq_put ht₁ x, rfl⟩, ?_⟩
    rw [yields_bind]
    refine ⟨(), _, yields_updateModule.2 rfl, yields_pure.2 ⟨by simp [TypeDecl.newHandle, hm], ?_⟩⟩
    have hput : (w.module.put t₁).put
        { t with methods := t.methodsWithHandle w.pass.settings.handleStorage ⟨w.module.ids.nextMethod⟩ } =
        w.module.put _ := Module.put_put ht rfl rfl
    rw [← hput, TypeDecl.methodsWithHandle, if_neg (by simp [hm])]
    simp only [Pass.withHandle, hm, Option.isSome_none, Bool.false_eq_true, if_false]
    rfl

private theorem yields_makeHandleField (ht : w.module.type? t.id = some t₁) (hfields : t₁.fields = t.fields) :
    Yields (makeHandleField t) w ()
      ⟨w.pass, w.module.put { t₁ with fields := t.fieldsWithHandle w.pass.settings.handleStorage }⟩ := by
  rw [makeHandleField, TypeDecl.fieldsWithHandle]
  cases hf : t.field? handleFieldName with
  | some f =>
    have hsame : { t₁ with fields := t.fields } = t₁ := by rw [← hfields]
    simp [hsame, Module.put_self ht]
  | none =>
    simp [Module.updateType_eq_put ht, hfields]

/-- A type that has no handle yet gets one. -/
theorem yields_handleOf_new (hnew : w.pass.handle? id = none) (ht : w.module.type? id = some t)
    (hfits : t.TakesHandle) :
    Yields (handleOf id) w (t.newHandle w.pass.settings.handleStorage)
      ⟨w.pass.withHandle t, w.module.withHandle w.pass.settings.handleStorage t⟩ := by
  obtain rfl := Module.id_of_type? ht
  let t₁ : TypeDecl :=
    { t with methods := t.methodsWithHandle w.pass.settings.handleStorage ⟨w.module.ids.nextMethod⟩ }
  have ht₁ : (w.module.put t₁).type? t.id = some t₁ := Module.type?_put_self (t := t₁) ht rfl
  rw [handleOf, yields_get_bind, hnew]
  simp only
  rw [yields_get_bind, yields_bind]
  refine ⟨t, _, yields_expect.2 ⟨ht, rfl⟩, ?_⟩
  rw [yields_get_bind, yields_bind]
  refine ⟨_, _, yields_initializerOf ht hfits rfl, ?_⟩
  rw [yields_bind]
  refine ⟨(), _, yields_makeHandleField ht₁ rfl, ?_⟩
  rw [yields_bind]
  refine ⟨(), _, yields_updatePass.2 rfl, yields_pure.2 ⟨rfl, ?_⟩⟩
  let t' := t.withHandle w.pass.settings.handleStorage ⟨w.module.ids.nextMethod⟩
  have hput : (w.module.put t₁).put t' = w.module.put t' := Module.put_put ht rfl rfl
  rw [Module.withHandle, ← hput]
  rfl

theorem yields_handleOf_known (hknown : w.pass.handle? id = some handle) : Yields (handleOf id) w handle w := by
  rw [handleOf, yields_get_bind, hknown]
  exact yields_pure.2 ⟨rfl, rfl⟩

theorem fails_handleOf_unknown (hnew : w.pass.handle? id = none) (ht : w.module.type? id = none) :
    Fails (handleOf id) w (.unknownType id) w := by
  rw [handleOf, fails_get_bind, hnew]
  simp [ht]

/-- Nothing is made if a constructor has no room for the call. -/
theorem fails_handleOf_overflow (hnew : w.pass.handle? id = none) (ht : w.module.type? id = some t)
    (hfits : ¬ t.TakesHandle) : Fails (handleOf id) w .overflow w := by
  obtain rfl := Module.id_of_type? ht
  obtain ⟨hm, hcall⟩ := Classical.not_imp.1 hfits
  have hnone : t.methods.mapM (·.prologue? (initializerCall (initializerSig t.name))) = none := by
    rw [Option.eq_none_iff_forall_ne_some]
    exact fun methods h => hcall (TypeDecl.mapM_prologue?_eq_some_iff.1 h).1
  rw [handleOf, fails_get_bind, hnew]
  simp only
  rw [fails_get_bind, fails_bind]
  refine .inr ⟨t, _, yields_expect.2 ⟨ht, rfl⟩, ?_⟩
  rw [fails_get_bind, fails_bind, initializerOf, hm]
  refine .inl (fails_get_bind.2 (fails_bind.2 (.inl ?_)))
  rw [callInitializer, fails_bind]
  exact .inl (fails_expect.2 ⟨hnone, rfl, rfl⟩)

/-- To ask for a handle gives the one that is known, or makes one. -/
theorem yields_handleOf_iff :
    Yields (handleOf id) w handle w' ↔
      (w.pass.handle? id = some handle ∧ w' = w) ∨
      (w.pass.handle? id = none ∧ ∃ t, w.module.type? id = some t ∧ t.TakesHandle ∧
        handle = t.newHandle w.pass.settings.handleStorage ∧
        w' = ⟨w.pass.withHandle t, w.module.withHandle w.pass.settings.handleStorage t⟩) := by
  constructor
  · intro hy
    cases hknown : w.pass.handle? id with
    | some known =>
      cases hy.symm.trans (yields_handleOf_known hknown)
      exact .inl ⟨rfl, rfl⟩
    | none =>
      cases ht : w.module.type? id with
      | none => cases hy.symm.trans (fails_handleOf_unknown hknown ht)
      | some t =>
        by_cases hfits : t.TakesHandle
        · cases hy.symm.trans (yields_handleOf_new hknown ht hfits)
          exact .inr ⟨rfl, t, rfl, hfits, rfl, rfl⟩
        · cases hy.symm.trans (fails_handleOf_overflow hknown ht hfits)
  · rintro (⟨hknown, rfl⟩ | ⟨hnew, t, ht, hfits, rfl, rfl⟩)
    · exact yields_handleOf_known hknown
    · exact yields_handleOf_new hnew ht hfits

/-- A handle that cannot be given leaves everything as it is. -/
theorem fails_handleOf_iff {failure : Failure} :
    Fails (handleOf id) w failure w' ↔ w.pass.handle? id = none ∧ w' = w ∧
      ((w.module.type? id = none ∧ failure = .unknownType id) ∨
        ∃ t, w.module.type? id = some t ∧ ¬ t.TakesHandle ∧ failure = .overflow) := by
  constructor
  · intro hf
    cases hknown : w.pass.handle? id with
    | some known => cases hf.symm.trans (yields_handleOf_known hknown)
    | none =>
      cases ht : w.module.type? id with
      | none =>
        cases hf.symm.trans (fails_handleOf_unknown hknown ht)
        exact ⟨rfl, rfl, .inl ⟨rfl, rfl⟩⟩
      | some t =>
        by_cases hfits : t.TakesHandle
        · cases hf.symm.trans (yields_handleOf_new hknown ht hfits)
        · cases hf.symm.trans (fails_handleOf_overflow hknown ht hfits)
          exact ⟨rfl, rfl, .inr ⟨t, rfl, hfits, rfl⟩⟩
  · rintro ⟨hnew, rfl, ⟨ht, rfl⟩ | ⟨t, ht, hfits, rfl⟩⟩
    · exact fails_handleOf_unknown hnew ht
    · exact fails_handleOf_overflow hnew ht hfits

end Weaving

/-! ### A pass -/

/-- A pass ends well if its visitors are known and their walk ends well; then it reports on what the walk has left. -/
theorem Module.weave_eq_ok_iff {m m' : Module} {settings : Settings} {report : PassReport} :
    m.weave settings = (.ok report, m') ↔ ∃ vs w, visitorsNamed settings.components = .ok vs ∧
      Step.Yields (walk Workspace.module vs) { pass := { settings }, module := m } () w ∧
      w.report = report ∧ w.module = m' := by
  unfold weave
  cases visitorsNamed settings.components with
  | error failure => simp
  | ok vs =>
    rcases hrun : (walk Workspace.module vs).run { pass := { settings }, module := m } with ⟨failure | u, w⟩
    · simp only [hrun]
      constructor
      · intro h
        cases h
      · rintro ⟨_, _, hvs, hy, -⟩
        cases hvs
        cases hrun.symm.trans hy
    · simp only [hrun]
      constructor
      · intro h
        cases h
        exact ⟨vs, w, rfl, hrun, rfl, rfl⟩
      · rintro ⟨_, _, hvs, hy, rfl, rfl⟩
        cases hvs
        cases hrun.symm.trans hy
        rfl

end AdviceWeaving
