import AdviceWeaving.Proofs.Congruence
import AdviceWeaving.Proofs.JoinPoints
import AdviceWeaving.Proofs.Unmarked

/-!
# Passes side by side

Of two workspaces that are `Paired`, the second holds the module of the first with some types unmarked, and both
passes remember the same of what they have put in.  What a pass does to bodies, and to types that keep their markers,
it does in both alike (`Weaving.congruence_paired`); what it removes from unmarked types is gone from the second already
(`Weaving.respects_sweepMethod`).
-/

namespace AdviceWeaving

/-- The second workspace is the first with the types `ids` unmarked. -/
structure Workspace.Paired (settings : Settings) (ids : List TypeId) (w v : Workspace) : Prop where
  module_eq : v.module = w.module.unmarked settings.markers ids
  settings_eq : w.pass.settings = settings
  caches : w.pass.SameCaches v.pass

namespace Workspace.Paired

variable {settings : Settings} {ids : List TypeId} {w v : Workspace}

private theorem body? (h : w.Paired settings ids v) (id : MethodId) : v.module.body? id = w.module.body? id := by
  rw [h.module_eq, Module.body?_unmarked]

private theorem type? (h : w.Paired settings ids v) {id : TypeId} (hid : id ∉ ids) :
    v.module.type? id = w.module.type? id := by
  rw [h.module_eq, Module.type?_unmarked_of_not_mem hid]

end Workspace.Paired

namespace Weaving

open Step Workspace

variable {settings : Settings} {ids : List TypeId} {w v : Workspace}

/-! ### Single changes -/

theorem lockstep_updatePass (h : w.Paired settings ids v) {f g : Pass → Pass}
    (hsettings : (f w.pass).settings = w.pass.settings) (hfg : (f w.pass).SameCaches (g v.pass)) :
    Lockstep (Paired settings ids) (updatePass f) (updatePass g) w v :=
  ⟨rfl, h.module_eq, hsettings.trans h.settings_eq, hfg⟩

private theorem lockstep_updateModule (h : w.Paired settings ids v) {f g : Module → Module}
    (hfg : g v.module = (f w.module).unmarked settings.markers ids) :
    Lockstep (Paired settings ids) (updateModule f) (updateModule g) w v :=
  ⟨rfl, hfg, h.settings_eq, h.caches⟩

private theorem lockstep_report (h : w.Paired settings ids v) (ds es : List Diagnostic) :
    Lockstep (Paired settings ids) (report ds) (report es) w v :=
  lockstep_updatePass h rfl
    ⟨h.caches.settings_eq, h.caches.handles_eq, h.caches.slots_eq, h.caches.cursors_eq⟩

private theorem respects_addMethod {id : TypeId} (hid : id ∉ ids) (x : Method) :
    Respects (Paired settings ids) (addMethod id x) := by
  refine respects_get_bind fun w v h => ?_
  rw [h.module_eq, Module.pushMethod_unmarked hid]
  cases w.module.pushMethod id x with
  | none => exact respects_throw _ w v h
  | some pushed =>
    exact lockstep_updateModule h (f := fun _ => pushed.1)
      (g := fun _ => pushed.1.unmarked settings.markers ids) rfl

/-- Whatever is done to code, and to types that keep their markers, is done in both alike. -/
theorem congruence_paired : Congruence (Paired settings ids) ids where
  markers_eq h := by rw [h.caches.settings_eq]
  storage_eq h := by rw [h.caches.settings_eq]
  handle?_eq h := h.caches.handle?
  slot?_eq h := h.caches.slot?
  cursor_eq h := h.caches.cursor
  body?_eq h := h.body?
  type?_eq h _ hid := h.type? hid
  report ds _ _ h := lockstep_report h ds ds
  tally _ _ _ h := lockstep_updatePass h rfl
    ⟨h.caches.settings_eq, h.caches.handles_eq, h.caches.slots_eq, h.caches.cursors_eq⟩
  addHandle id handle _ _ h := lockstep_updatePass h rfl
    ⟨h.caches.settings_eq, congrArg ((id, handle) :: ·) h.caches.handles_eq, h.caches.slots_eq,
      h.caches.cursors_eq⟩
  addSlot id slot _ _ h := lockstep_updatePass h rfl
    ⟨h.caches.settings_eq, h.caches.handles_eq, congrArg ((id, slot) :: ·) h.caches.slots_eq,
      h.caches.cursors_eq⟩
  advance n id _ _ h := lockstep_updatePass h rfl (h.caches.advance n id)
  setBody _ _ _ _ h := lockstep_updateModule h (by rw [h.module_eq, Module.setBody_unmarked])
  updateType _ hid _ hf _ _ h :=
    lockstep_updateModule h (by rw [h.module_eq, Module.updateType_unmarked_of_not_mem hid hf])
  addMethod _ hid x := respects_addMethod hid x

/-! ### Marker types -/

private theorem respects_findTargets {marker : String} (hmarker : marker ≠ settings.markers.rise) :
    Respects (Paired settings ids) (findTargets marker) := by
  refine respects_get_bind fun w v h => ?_
  dsimp only
  rw [h.module_eq, Module.bodylessWarnings_unmarked hmarker, Module.targets_unmarked hmarker]
  exact (lockstep_report h _ _).bind fun _ w v _ h => respects_pure _ w v h

/-- A marker type that keeps its markers is woven, or rejected, in both alike. -/
theorem respects_inject {m : MarkerType} (howner : m.owner ∉ ids)
    (hname : m.name ≠ settings.markers.rise) : Respects (Paired settings ids) (inject m) :=
  congruence_paired.respects_inject howner (respects_findTargets hname)

/-! ### Markers -/

end Weaving

end AdviceWeaving
