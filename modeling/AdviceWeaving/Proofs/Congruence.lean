import AdviceWeaving.Proofs.Admissions
import AdviceWeaving.Proofs.Lockstep

/-!
# Relations that injection respects

A relation between workspaces is a `Workspace.Congruence` if related workspaces look alike to injection, and stay
related under each single change that it makes.  Then all steps of injection respect the relation, up to that of a whole
marker type (`Workspace.Congruence.respects_inject`): they read nothing else, and change nothing in other ways.

The types `ids` are those in which related workspaces may differ.
-/

namespace AdviceWeaving

namespace Weaving

open Step

variable {Q : Workspace → Workspace → Prop}

theorem respects_expect {α : Type} (failure : Failure) (a? : Option α) : Respects Q (expect failure a?) := by
  cases a? with
  | none => exact respects_throw failure
  | some a => exact respects_pure a

private theorem respects_conclude {α : Type} (result : Except Failure α) : Respects Q (conclude result) := by
  cases result with
  | error failure => exact respects_throw failure
  | ok a => exact respects_pure a

/-- A new method behind the others of its type. -/
def addMethod (id : TypeId) (x : Method) : Weaving Unit := do
  let (module, _) ← expect (.unknownType id) ((← get).module.pushMethod id x)
  updateModule fun _ => module

end Weaving

open Step Weaving

/-- Related workspaces look alike to injection, but for the types `ids`, and single changes keep them related. -/
structure Workspace.Congruence (Q : Workspace → Workspace → Prop) (ids : List TypeId) : Prop where
  markers_eq : ∀ {w v}, Q w v → v.pass.settings.markers = w.pass.settings.markers
  storage_eq : ∀ {w v}, Q w v → v.pass.settings.handleStorage = w.pass.settings.handleStorage
  handle?_eq : ∀ {w v}, Q w v → ∀ id, v.pass.handle? id = w.pass.handle? id
  slot?_eq : ∀ {w v}, Q w v → ∀ id, v.pass.slot? id = w.pass.slot? id
  cursor_eq : ∀ {w v}, Q w v → ∀ id, v.pass.cursor id = w.pass.cursor id
  body?_eq : ∀ {w v}, Q w v → ∀ id, v.module.body? id = w.module.body? id
  type?_eq : ∀ {w v}, Q w v → ∀ id, id ∉ ids → v.module.type? id = w.module.type? id
  report : ∀ diagnostics, Respects Q (Weaving.report diagnostics)
  tally : ∀ f, Respects Q (Weaving.tally f)
  addHandle : ∀ id handle, Respects Q (updatePass fun p => { p with handles := (id, handle) :: p.handles })
  addSlot : ∀ id slot, Respects Q (updatePass fun p => { p with slots := (id, slot) :: p.slots })
  advance : ∀ n id, Respects Q (updatePass (·.advance n id))
  setBody : ∀ id body, Respects Q (updateModule (·.setBody id body))
  updateType : ∀ id, id ∉ ids → ∀ f : TypeDecl → TypeDecl, (∀ t, t.id = id → (f t).id = id) →
    Respects Q (updateModule (·.updateType id f))
  addMethod : ∀ id, id ∉ ids → ∀ x, Respects Q (Weaving.addMethod id x)

namespace Workspace.Congruence

variable {Q : Workspace → Workspace → Prop} {ids : List TypeId}

/-! ### Advice -/

private theorem respects_injectOnEntry (h : Congruence Q ids) (a : Advice) (receiver : List Instruction) (t : Target) :
    Respects Q (injectOnEntry a receiver t) := by
  refine respects_get_bind fun w v hwv => ?_
  rw [h.body?_eq hwv]
  refine ((respects_expect _ _).bind fun body => respects_get_bind fun w v hwv => ?_) w v hwv
  rw [h.cursor_eq hwv]
  exact ((respects_expect _ _).bind fun _ => (h.setBody _ _).bind fun _ => (h.advance _ _).bind fun _ => h.tally _)
    w v hwv

private theorem respects_slotOf (h : Congruence Q ids) (id : MethodId) (type : ValueType) :
    Respects Q (slotOf id type) := by
  refine respects_get_bind fun w v hwv => ?_
  rw [h.slot?_eq hwv]
  cases w.pass.slot? id with
  | some slot => exact respects_pure slot w v hwv
  | none =>
    refine respects_get_bind (fun w v hwv => ?_) w v hwv
    rw [h.body?_eq hwv]
    refine ((respects_expect _ _).bind fun body => (respects_expect _ _).bind fun found => ?_) w v hwv
    exact (h.setBody _ _).bind fun _ => (h.addSlot _ _).bind fun _ => respects_pure found.1

private theorem respects_injectOnExit (h : Congruence Q ids) (a : Advice) (receiver : List Instruction) (t : Target) :
    Respects Q (injectOnExit a receiver t) := by
  have hrest (slot? : Option UInt16) : Respects Q (do
      let code := a.exitCode receiver t slot?
      let body ← expect (.unknownMethod t.id) ((← get).module.body? t.id)
      let spliced ← expect .overflow (body.spliceAtExits? fun _ => code)
      updateModule (·.setBody t.id spliced.1)
      Weaving.tally fun n => { n with exitSites := n.exitSites + spliced.2 }) := by
    refine respects_get_bind fun w v hwv => ?_
    rw [h.body?_eq hwv]
    exact ((respects_expect _ _).bind fun body => (respects_expect _ _).bind fun _ => (h.setBody _ _).bind fun _ =>
      h.tally _) w v hwv
  exact respects_ite (((h.respects_slotOf t.id t.ret).map some).bind hrest)
    ((respects_pure none).bind hrest)

private theorem respects_injectAdvice (h : Congruence Q ids) (a : Advice) (receiver : List Instruction) (t : Target) :
    Respects Q (injectAdvice a receiver t) := by
  unfold injectAdvice
  cases a.timing with
  | onEntry => exact h.respects_injectOnEntry a receiver t
  | onExit => exact h.respects_injectOnExit a receiver t

private theorem respects_injectAll (h : Congruence Q ids) (m : MarkerType) (handle? : Option Handle) (t : Target) :
    Respects Q (injectAll m handle? t) := by
  refine respects_get_bind fun w v hwv => ?_
  rw [h.storage_eq hwv]
  exact respects_forM (fun a _ => h.respects_injectAdvice a _ t) w v hwv

/-! ### Hidden members -/

private theorem respects_makeHandleField (h : Congruence Q ids) {t : TypeDecl} (ht : t.id ∉ ids) :
    Respects Q (makeHandleField t) := by
  refine respects_ite (respects_get_bind fun w v hwv => ?_) (respects_pure ())
  rw [h.storage_eq hwv]
  refine h.updateType t.id ht _ ?_ w v hwv
  exact fun _ hid => hid

private theorem respects_foldl_advance (h : Congruence Q ids) (n : Nat) (l : List MethodId) :
    Respects Q (updatePass fun p => l.foldl (·.advance n) p) := by
  induction l with
  | nil => exact respects_pure ()
  | cons id l ih => exact (h.advance n id).bind fun _ => ih

private theorem respects_callInitializer (h : Congruence Q ids) {t : TypeDecl} (ht : t.id ∉ ids)
    (initializer : MethodSig) : Respects Q (callInitializer t initializer) := by
  refine (respects_expect _ _).bind fun methods => (h.updateType t.id ht _ ?_).bind fun _ =>
    h.respects_foldl_advance _ _
  exact fun _ hid => hid

private theorem respects_initializerOf (h : Congruence Q ids) {t : TypeDecl} (ht : t.id ∉ ids) (field : FieldSig) :
    Respects Q (initializerOf t field) := by
  unfold initializerOf
  cases t.method? initializerName with
  | some method => exact respects_pure _
  | none =>
    refine respects_get_bind fun w v hwv => ?_
    rw [h.storage_eq hwv]
    have hadd (x : Method) : Respects Q (do
        callInitializer t (x.signature t.name)
        Weaving.addMethod t.id x
        pure (x.signature t.name)) :=
      (h.respects_callInitializer ht _).bind fun _ => (h.addMethod t.id ht x).bind fun _ => respects_pure _
    simp only [Weaving.addMethod, bind_assoc] at hadd
    exact hadd (initializerMethod w.pass.settings.handleStorage field) w v hwv

private theorem respects_handleOf (h : Congruence Q ids) {id : TypeId} (hid : id ∉ ids) : Respects Q (handleOf id) := by
  refine respects_get_bind fun w v hwv => ?_
  rw [h.handle?_eq hwv]
  cases w.pass.handle? id with
  | some handle => exact respects_pure handle w v hwv
  | none =>
    refine respects_get_bind (fun w v hwv => ?_) w v hwv
    rw [h.type?_eq hwv id hid]
    cases ht : w.module.type? id with
    | none => exact respects_throw _ w v hwv
    | some t =>
      have htid : t.id ∉ ids := Module.id_of_type? ht ▸ hid
      have hstart : Respects Q (do
          let field := t.handle (← get).pass.settings.handleStorage
          let initializer ← initializerOf t field
          makeHandleField t
          updatePass fun p => { p with handles := (id, ⟨field, initializer⟩) :: p.handles }
          pure (⟨field, initializer⟩ : Handle)) := by
        refine respects_get_bind fun w v hwv => ?_
        rw [h.storage_eq hwv]
        refine ((h.respects_initializerOf htid _).bind fun initializer => ?_) w v hwv
        exact (h.respects_makeHandleField htid).bind fun _ => (h.addHandle id _).bind fun _ => respects_pure _
      exact hstart w v hwv

/-! ### Marker types -/

private theorem respects_handleFor (h : Congruence Q ids) {m : MarkerType} (hm : m.owner ∉ ids) :
    Respects Q (handleFor m) :=
  respects_ite ((h.respects_handleOf hm).map some) (respects_pure none)

private theorem respects_injectInto (h : Congruence Q ids) {m : MarkerType} (hm : m.owner ∉ ids)
    (targets : List Target) : Respects Q (injectInto m targets) := by
  refine (h.respects_handleFor hm).bind fun handle? => ?_
  have hrest : Respects Q (do
      targets.forM (injectAll m handle?)
      Weaving.tally fun n => { n with targets := n.targets + targets.length }) :=
    (respects_forM fun t _ => h.respects_injectAll m handle? t).bind fun _ => h.tally _
  have hreport : Respects Q (do
      Weaving.report (nullReceiverWarnings (← get).pass.settings.handleStorage m targets)) := by
    refine respects_get_bind fun w v hwv => ?_
    rw [h.storage_eq hwv]
    exact h.report _ w v hwv
  exact respects_ite (hreport.bind fun _ => hrest) hrest

/-- A marker type is woven, or rejected, in both workspaces alike, if its targets are found alike. -/
theorem respects_inject (h : Congruence Q ids) {m : MarkerType} (hm : m.owner ∉ ids)
    (hfind : Respects Q (findTargets m.name)) : Respects Q (inject m) := by
  refine (h.tally _).bind fun _ => hfind.bind fun targets => ?_
  refine respects_ite ((h.report _).bind fun _ => respects_pure true) ?_
  cases m.firstViolation? targets with
  | none => exact (h.respects_injectInto hm targets).bind fun _ => respects_pure true
  | some found =>
    exact (h.report _).bind fun _ => (h.tally _).bind fun _ => respects_pure false

/-- The markers of a type are read alike. -/
theorem respects_scan (h : Congruence Q ids) {id : TypeId} (hid : id ∉ ids) : Respects Q (scan id) := by
  refine respects_get_bind fun w v hwv => ?_
  rw [h.type?_eq hwv id hid, h.markers_eq hwv]
  refine (respects_expect _ _ w v hwv).bind fun t w' v' hy hwv => ?_
  have htid : t.id = id := Module.id_of_type? (yields_expect.1 hy).1
  have hupdate := h.updateType id hid (fun _ => (t.scan w.pass.settings.markers).rest) fun _ _ =>
    (t.scan_rest_id _).trans htid
  exact (hupdate.bind fun _ => (h.tally _).bind fun _ => respects_conclude _) w' v' hwv

end Workspace.Congruence

end AdviceWeaving
