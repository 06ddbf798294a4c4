import AdviceWeaving.Proofs.Splicing
import AdviceWeaving.Proofs.Transitions

/-!
# Stages of a pass

Between two steps of a pass, every body of the module is one of a module without woven code, in some
wrapping.  A `PassStage` names this module and the wrappings; a workspace is at a stage
(`Workspace.At`) if it holds the bodies in these wrappings, and if what the pass remembers of
cursors and locals agrees with them.  The lemmas tell to which stage each step of an injection
leads: `injectAdvice` puts its code into one wrapping (`Wrapping.add`), and `handleOf` may put a
call in front of the constructors of a type.
-/

namespace AdviceWeaving

/-! ### Stages -/

/-- How far a pass has come: the handles that it knows, the module without the woven code, and the
code around each of its bodies. -/
structure PassStage where
  settings : Settings
  handles : List (TypeId × Handle)
  module : Module
  wrap : MethodId → Wrapping

/-- The stage with another wrapping around one body. -/
def PassStage.set (s : PassStage) (id : MethodId) (w : Wrapping) : PassStage :=
  { s with wrap := Function.update s.wrap id w }

@[simp] theorem PassStage.wrap_set_self (s : PassStage) (id : MethodId) (w : Wrapping) :
    (s.set id w).wrap id = w :=
  Function.update_self ..

theorem PassStage.wrap_set_of_ne (s : PassStage) {id k : MethodId} (h : k ≠ id) (w : Wrapping) :
    (s.set id w).wrap k = s.wrap k :=
  Function.update_of_ne h ..

@[simp] theorem PassStage.set_set (s : PassStage) (id : MethodId) (w w' : Wrapping) :
    (s.set id w).set id w' = s.set id w' := by
  simp [PassStage.set]

/-- The workspace holds the given bodies, which are those of the stage in its wrappings. -/
structure Workspace.Holds (w : Workspace) (s : PassStage) (bodies : MethodId → Body) : Prop where
  module_eq : w.module = s.module.withBodies bodies
  numbered : s.module.Numbered
  around : ∀ id b, s.module.body? id = some b →
    (s.wrap id).Around b (bodies id) (w.pass.cursor id) (w.pass.slot? id)
  unused : ∀ id : MethodId, s.module.ids.nextMethod ≤ id.index →
    s.wrap id = {} ∧ w.pass.cursor id = 0 ∧ w.pass.slot? id = none
  settings_eq : w.pass.settings = s.settings
  handles_eq : w.pass.handles = s.handles

/-- The workspace is at a stage. -/
def Workspace.At (w : Workspace) (s : PassStage) : Prop :=
  ∃ bodies, w.Holds s bodies

/-- A pass starts with the module as it is. -/
theorem Workspace.at_start {m : Module} (h : m.Numbered) (settings : Settings) :
    ({ pass := { settings }, module := m } : Workspace).At ⟨settings, [], m, fun _ => {}⟩ :=
  ⟨fun id => (m.body? id).getD default,
    { module_eq := h.withBodies_self.symm
      numbered := h
      around := fun id b hb => by
        show ({} : Wrapping).Around b ((m.body? id).getD default) 0 none
        rw [hb]
        exact .start b
      unused := fun _ _ => ⟨rfl, rfl, rfl⟩
      settings_eq := rfl
      handles_eq := rfl }⟩

namespace Workspace

variable {w w' : Workspace} {s : PassStage} {bodies : MethodId → Body}

/-- What else a pass knows does not matter for its stage. -/
theorem At.of_eq (h : w.At s) (hmodule : w'.module = w.module)
    (hsettings : w'.pass.settings = w.pass.settings)
    (hhandles : w'.pass.handles = w.pass.handles) (hslots : w'.pass.slots = w.pass.slots)
    (hcursors : w'.pass.cursors = w.pass.cursors) : w'.At s := by
  have hslot (id : MethodId) : w'.pass.slot? id = w.pass.slot? id := by rw [Pass.slot?, hslots]; rfl
  have hcursor (id : MethodId) : w'.pass.cursor id = w.pass.cursor id := by
    rw [Pass.cursor, hcursors]
    rfl
  obtain ⟨bodies, h⟩ := h
  exact ⟨bodies,
    { module_eq := hmodule.trans h.module_eq
      numbered := h.numbered
      around := fun id b hb => by
        rw [hcursor, hslot]
        exact h.around id b hb
      unused := fun id hid => by
        rw [hcursor, hslot]
        exact h.unused id hid
      settings_eq := hsettings.trans h.settings_eq
      handles_eq := hhandles.trans h.handles_eq }⟩

theorem Holds.body?_eq (h : w.Holds s bodies) (id : MethodId) :
    w.module.body? id = (s.module.body? id).map fun _ => bodies id := by
  rw [h.module_eq, Module.body?_withBodies]

/-- What is found in place of a body of the stage is the body that it has become. -/
theorem Holds.bodies_eq (h : w.Holds s bodies) {id : MethodId} {base body : Body}
    (hbase : s.module.body? id = some base) (hbody : w.module.body? id = some body) :
    bodies id = body := by
  rw [h.body?_eq, hbase] at hbody
  exact Option.some.inj hbody

/-- A change of one body and of the wrapping around it. -/
private theorem Holds.setBody (h : w.Holds s bodies) {id : MethodId} {base body : Body}
    {wrapping : Wrapping} (hbase : s.module.body? id = some base)
    (hmodule : w'.module = w.module.setBody id body)
    (haround : wrapping.Around base body (w'.pass.cursor id) (w'.pass.slot? id))
    (hcursor : ∀ k, k ≠ id → w'.pass.cursor k = w.pass.cursor k)
    (hslot : ∀ k, k ≠ id → w'.pass.slot? k = w.pass.slot? k)
    (hsettings : w'.pass.settings = w.pass.settings) (hhandles : w'.pass.handles = w.pass.handles) :
    w'.Holds (s.set id wrapping) (Function.update bodies id body) where
  module_eq := by
    rw [hmodule, h.module_eq, h.numbered.setBody_withBodies (by rw [hbase]; rfl)]
    rfl
  numbered := h.numbered
  around k b hb := by
    by_cases hk : k = id
    · subst hk
      cases hbase.symm.trans hb
      simpa using haround
    · simpa [s.wrap_set_of_ne hk, hk, hcursor k hk, hslot k hk] using h.around k b hb
  unused k hk := by
    -- an identifier that has not been given out is not that of a body
    have hne : k ≠ id := by
      rintro rfl
      have hlt := h.numbered.lt_of_body? hbase
      have hk : s.module.ids.nextMethod ≤ k.index := hk
      omega
    simpa [s.wrap_set_of_ne hne, hcursor k hne, hslot k hne] using h.unused k hk
  settings_eq := hsettings.trans h.settings_eq
  handles_eq := hhandles.trans h.handles_eq

end Workspace

/-! ### Injected code is plain -/

theorem plain_loadHandle (storage : HandleStorage) (field : FieldSig) (t : Target) :
    Plain (loadHandle storage field t) := by
  cases storage <;> cases h : t.isStatic <;>
    simp [Plain, loadHandle, h, Instruction.isPlain, Instruction.target?, Instruction.isReturn]

private theorem Advice.plain_callCode (a : Advice) : Plain a.callCode := by
  cases h : a.ret.isVoid <;>
    simp [Plain, callCode, h, Instruction.isPlain, Instruction.target?, Instruction.isReturn]

theorem Advice.plain_entryCode (a : Advice) {receiver : List Instruction} (h : Plain receiver)
    (t : Target) : Plain (a.entryCode receiver t) := by
  refine (h.append ?_).append a.plain_callCode
  intro i hi
  obtain ⟨b, _, rfl⟩ := List.mem_map.1 hi
  rfl

private theorem Advice.plain_exitCode (a : Advice) {receiver : List Instruction} (h : Plain receiver)
    (t : Target) (slot? : Option UInt16) : Plain (a.exitCode receiver t slot?) := by
  have hslot (op : SlotOp) : Plain (slot?.map (.slot op)).toList := by
    intro i hi
    cases slot? with
    | none => cases hi
    | some slot => obtain rfl := List.mem_singleton.1 hi; rfl
  have hload : Plain (a.bindings.map (·.load t slot?)) := by
    intro i hi
    obtain ⟨b, _, rfl⟩ := List.mem_map.1 hi
    unfold Binding.load
    split <;> rfl
  exact ((((hslot .stloc).append h).append hload).append a.plain_callCode).append (hslot .ldloc)

theorem plain_initializerCall (initializer : MethodSig) : Plain (initializerCall initializer) := by
  simp [Plain, initializerCall, Instruction.isPlain, Instruction.target?, Instruction.isReturn]

/-! ### Advice in a target -/

/-- Put advice into the wrapping of a target whose body has `locals` locals. -/
def Wrapping.add (t : Target) (receiver : List Instruction) (locals : Nat) (w : Wrapping)
    (a : Advice) : Wrapping :=
  match a.timing with
  | .onEntry => { w with entry := w.entry ++ a.entryCode receiver t }
  | .onExit =>
    if a.binds .targetReturnValue then
      { w with
        exit := w.exit ++ a.exitCode receiver t (some (UInt16.ofNat locals))
        slot? := w.slot?.or (some t.ret) }
    else
      { w with exit := w.exit ++ a.exitCode receiver t none }

namespace Pass

theorem cursor_advance (p : Pass) (n : Nat) (id k : MethodId) :
    (p.advance n id).cursor k = if k = id then p.cursor id + n else p.cursor k := by
  simp only [cursor, advance, List.lookup_cons]
  by_cases h : k = id
  · simp [h]
  · simp [h, beq_false_of_ne h]

theorem cursor_foldl_advance (p : Pass) (n : Nat) {ids : List MethodId} (h : ids.Nodup)
    (k : MethodId) :
    (ids.foldl (·.advance n) p).cursor k = if k ∈ ids then p.cursor k + n else p.cursor k := by
  induction ids generalizing p with
  | nil => simp
  | cons id ids ih =>
    obtain ⟨hid, hids⟩ := List.nodup_cons.1 h
    rw [List.foldl_cons, ih _ hids, cursor_advance]
    by_cases hk : k = id
    · subst hk; simp [hid]
    · simp [hk]

end Pass

namespace Weaving

open Step

variable {w w' : Workspace} {s : PassStage} {bodies : MethodId → Body} {u : Unit} {t : Target}
  {base : Body} {receiver : List Instruction}

private theorem at_entered {id : MethodId} {body : Body} {code : List Instruction} (h : w.At s)
    (hbase : s.module.body? id = some base) (hbody : w.module.body? id = some body)
    (hcode : Plain code) (hfits : body.SpliceFits (w.pass.cursor id) code .displaced) :
    (w.entered code id body).At (s.set id { s.wrap id with entry := (s.wrap id).entry ++ code }) := by
  obtain ⟨bodies, h⟩ := h
  obtain rfl := h.bodies_eq hbase hbody
  refine ⟨_, h.setBody hbase rfl ?_ ?_ ?_ rfl rfl⟩
  · have haround := (h.around id base hbase).spliceEntry hcode hfits
    simpa [Workspace.entered, Workspace.counting, Pass.slot?, Pass.cursor, Pass.advance] using haround
  · intro k hk
    have hcursor := Pass.cursor_advance w.pass code.length id k
    rw [if_neg hk] at hcursor
    exact hcursor
  · exact fun _ _ => rfl

theorem holds_slotOf {id : MethodId} {type : ValueType} {slot : UInt16} (h : w.Holds s bodies)
    (hbase : s.module.body? id = some base) (hy : Yields (slotOf id type) w slot w') :
    slot = UInt16.ofNat base.locals.size ∧
      w'.At (s.set id { s.wrap id with slot? := (s.wrap id).slot?.or (some type) }) := by
  have haround := h.around id base hbase
  obtain ⟨hslot, rfl⟩ | ⟨hslot, body, body', hbody, hadd, rfl⟩ := yields_slotOf_iff.1 hy
  · -- the local was made for other advice
    rw [hslot] at haround
    obtain ⟨hknown, hsome⟩ := haround.slot_eq
    have hsame : ({ s.wrap id with slot? := (s.wrap id).slot?.or (some type) } : Wrapping) =
        s.wrap id := by
      rw [Option.or_of_isSome hsome]
    rw [hsame, PassStage.set, Function.update_eq_self]
    exact ⟨hknown, bodies, h⟩
  · obtain rfl := h.bodies_eq hbase hbody
    rw [hslot] at haround
    obtain ⟨hsize, haround'⟩ := haround.addLocal hadd
    have hnone : (s.wrap id).slot? = none := by simpa using haround.slot?_eq.symm
    refine ⟨hsize, _, h.setBody hbase rfl ?_ (fun _ _ => rfl) ?_ rfl rfl⟩
    · rw [hnone]
      simpa [Workspace.allotted, Pass.slot?, Pass.cursor] using haround'
    · intro k hk
      simp [Workspace.allotted, Pass.slot?, List.lookup_cons, beq_false_of_ne hk]

private theorem at_exited {id : MethodId} {body : Body} {code : List Instruction} (h : w.At s)
    (hbase : s.module.body? id = some base) (hbody : w.module.body? id = some body)
    (hcode : Plain code) (hfits : body.ExitsFit code) :
    (w.exited code id body).At (s.set id { s.wrap id with exit := (s.wrap id).exit ++ code }) := by
  obtain ⟨bodies, h⟩ := h
  obtain rfl := h.bodies_eq hbase hbody
  exact ⟨_, h.setBody hbase rfl ((h.around id base hbase).spliceExits hcode hfits) (fun _ _ => rfl)
    (fun _ _ => rfl) rfl rfl⟩

theorem at_injectAdvice {a : Advice} (h : w.At s) (hbase : s.module.body? t.id = some base)
    (hreceiver : Plain receiver) (hy : Yields (injectAdvice a receiver t) w u w') :
    w'.At (s.set t.id ((s.wrap t.id).add t receiver base.locals.size a)) := by
  obtain ⟨htiming, body, hbody, hfits, rfl⟩ | ⟨htiming, hbinds, body, hbody, hfits, rfl⟩ |
    ⟨htiming, hbinds, slot, w₁, body, hslot, hbody, hfits, rfl⟩ := yields_injectAdvice_iff.1 hy
  · have hat := at_entered h hbase hbody (a.plain_entryCode hreceiver t) hfits
    simpa [Wrapping.add, htiming] using hat
  · have hat := at_exited h hbase hbody (a.plain_exitCode hreceiver t none) hfits
    simpa [Wrapping.add, htiming, hbinds] using hat
  · obtain ⟨bodies, h⟩ := h
    obtain ⟨rfl, h₁⟩ := holds_slotOf h hbase hslot
    have hat := at_exited h₁ hbase hbody
      (a.plain_exitCode hreceiver t (some (UInt16.ofNat base.locals.size))) hfits
    simpa [Wrapping.add, htiming, hbinds] using hat

end Weaving

end AdviceWeaving
