import AdviceWeaving.Proofs.Calling
import AdviceWeaving.Proofs.Injecting
import Mathlib.Data.List.Forall2

/-!
# Operands of the calls of advice

A call of advice is supplied with what it takes: the instance, if the advice is called on one, and a
value of the right type for each parameter (`Advice.Supplied`).  Whether a handle is loaded is
decided once for a marker type, from all of its advice.  So the code of advice is a balanced call,
on entry and on exit, just if the advice is called on an instance or no other advice of its marker
type is (`MarkerType.balanced_call_iff`); static advice of a marker type that has other advice as
well leaves a handle behind on the stack.
-/

namespace AdviceWeaving

/-! ### Balanced calls -/

/-- The instruction loads a value of the given type for a parameter: the name of the target, or the
local of its return value. -/
def Target.Passes (t : Target) (locals : Array ValueType) (slot? : Option UInt16) (type : ValueType)
    (i : Instruction) : Prop :=
  i = .ldstr t.name ∧ type = .string ∨
    ∃ slot, slot? = some slot ∧ i = .slot .ldloc slot ∧ locals[slot.toNat]? = some type

/-- What is put on the stack before a call of advice is what the call takes, in order: the instance
in the handle, if the advice is called on one, and nothing otherwise, and then a value for each
parameter. -/
structure Advice.Supplied (a : Advice) (storage : HandleStorage) (handle? : Option Handle)
    (t : Target) (locals : Array ValueType) (slot? : Option UInt16)
    (receiver params : List Instruction) : Prop where
  receiver_of_instance : a.call.onInstance = true →
    ∃ handle, handle? = some handle ∧ receiver = loadHandle storage handle.field t
  receiver_of_static : a.call.onInstance = false → receiver = []
  passes : List.Forall₂ (t.Passes locals slot?) a.call.params params
  depth_eq : depthAfter 0 (receiver ++ params) =
    some (Instruction.call .call a.call).stackEffect.pops

/-- The code is a call on entry: it may be entered with any depth, never goes below it, and gives it
back. -/
def Advice.BalancedOnEntry (a : Advice) (storage : HandleStorage) (handle? : Option Handle)
    (t : Target) (code : List Instruction) : Prop :=
  (∃ receiver params, a.Supplied storage handle? t #[] none receiver params ∧
    code = receiver ++ params ++ a.callCode) ∧
  ∀ depth, depthAfter depth code = some depth ∧
    ∀ k, ∃ d, depthAfter depth (code.take k) = some d ∧ depth ≤ d

/-- The code is a call in front of a `ret` of the target: it gives back the depth there, and on
every machine the values on the stack. -/
def Advice.BalancedOnExit (a : Advice) (storage : HandleStorage) (handle? : Option Handle)
    (t : Target) (locals : Array ValueType) (slot? : Option UInt16) (code : List Instruction) :
    Prop :=
  (∃ receiver params, a.Supplied storage handle? t locals slot? receiver params ∧
    code = (slot?.map (.slot .stloc)).toList ++ (receiver ++ params) ++ a.callCode ++
      (slot?.map (.slot .ldloc)).toList) ∧
  depthAfter (!t.ret.isVoid).toNat code = some (!t.ret.isVoid).toNat ∧
  ∀ (V E : Type) (M : Machine V E) (f : Frame V E), f.stack.length = (!t.ret.isVoid).toNat →
    ∃ f', M.exec code f = some f' ∧ f'.stack = f.stack

/-! ### When the code of advice is a balanced call -/

private theorem isSome_of_handleFor {m : MarkerType} {w w' : Workspace} {handle? : Option Handle}
    (h : (Weaving.handleFor m).run w = (.ok handle?, w')) :
    handle?.isSome = m.advice.any (!·.isStatic) := by
  have hy : Step.Yields (Weaving.handleFor m) w handle? w' := h
  unfold Weaving.handleFor at hy
  split at hy
  · next hany =>
    obtain ⟨handle, _, rfl⟩ := Step.yields_map.1 hy
    exact hany.symm
  · next hany =>
    obtain ⟨rfl, _⟩ := Step.yields_pure.1 hy
    simpa using hany

section

variable {storage : HandleStorage} {handle? : Option Handle} {t : Target} {a : Advice}

private theorem eq_of_toNat_eq {p q : Bool} (h : p.toNat = q.toNat) : p = q := by
  cases p <;> cases q <;> first | rfl | cases h

private theorem depthAfter_receiverOf (storage : HandleStorage) (handle? : Option Handle) (t : Target)
    (depth : Nat) :
    depthAfter depth (receiverOf storage handle? t) = some (depth + handle?.isSome.toNat) := by
  cases handle? with
  | none => rfl
  | some handle => exact depthAfter_loadHandle storage handle.field t depth

/-- In straight code that can be entered with an empty stack, the stack never goes below the depth
on entry. -/
private theorem exists_depthAfter_ge {code : List Instruction} {n : Nat} (h : depthAfter 0 code = some n)
    (depth k : Nat) : ∃ d, depthAfter depth (code.take k) = some d ∧ depth ≤ d := by
  rw [← List.take_append_drop k code, depthAfter_append] at h
  obtain ⟨d, hd, _⟩ := Option.bind_eq_some_iff.1 h
  have hadd := depthAfter_add hd depth
  rw [Nat.zero_add] at hadd
  exact ⟨d + depth, hadd, by omega⟩

/-- The parameters of advice are supplied; so is the receiver, if a handle is there just for advice
that is called on an instance. -/
private theorem Advice.Declared.supplied (hdeclared : a.Declared) (hhandle : handle?.isSome = !a.isStatic)
    {locals : Array ValueType} {slot? : Option UInt16} {load : Binding → Instruction}
    (hload : ∀ b ∈ a.bindings, t.Passes locals slot? b.type (load b)) :
    a.Supplied storage handle? t locals slot? (receiverOf storage handle? t)
      (a.bindings.map load) where
  receiver_of_instance h := by
    rw [hdeclared.onInstance_eq, ← hhandle] at h
    obtain ⟨handle, rfl⟩ := Option.isSome_iff_exists.1 h
    exact ⟨handle, rfl, rfl⟩
  receiver_of_static h := by
    rw [hdeclared.onInstance_eq, ← hhandle, Option.isSome_eq_false_iff,
      Option.isNone_iff_eq_none] at h
    rw [h]
    rfl
  passes := by
    rw [hdeclared.params_eq, List.forall₂_map_left_iff, List.forall₂_map_right_iff,
      List.forall₂_same]
    exact hload
  depth_eq := by
    have hloads : ∀ i ∈ a.bindings.map load, i.stackEffect = ⟨0, 1⟩ := by
      intro i hi
      obtain ⟨b, hb, rfl⟩ := List.mem_map.1 hi
      rcases hload b hb with ⟨h, _⟩ | ⟨_, _, h, _⟩ <;> rw [h] <;> rfl
    rw [depthAfter_append, depthAfter_receiverOf, Option.bind_some, depthAfter_loads hloads]
    simp [Instruction.stackEffect, hdeclared.params_eq, hdeclared.onInstance_eq, hhandle,
      Nat.add_comm]

private theorem Advice.balancedOnEntry_iff (hdeclared : a.Declared) (hserves : a.Serves t)
    (htiming : a.timing = .onEntry) (hhandle : (!a.isStatic).toNat ≤ handle?.isSome.toNat) :
    a.BalancedOnEntry storage handle? t (a.entryCode (receiverOf storage handle? t) t) ↔
      handle?.isSome = !a.isStatic := by
  have hdepth (depth : Nat) : depthAfter depth (a.entryCode (receiverOf storage handle? t) t) = _ :=
    hdeclared.depthAfter_entryCode hhandle (depthAfter_receiverOf storage handle? t depth)
  constructor
  · rintro ⟨_, hbalanced⟩
    have h := hdepth 0
    rw [(hbalanced 0).1] at h
    have hnat : handle?.isSome.toNat = (!a.isStatic).toNat := by
      have := Option.some.inj h
      omega
    exact eq_of_toNat_eq hnat
  · intro hsame
    have hnone : ∀ b ∈ a.bindings, b.source ≠ some .targetReturnValue := by
      simpa [Advice.binds] using hserves.onEntry htiming
    refine ⟨⟨receiverOf storage handle? t, a.bindings.map fun _ => .ldstr t.name,
      hdeclared.supplied hsame fun b hb => ?_, rfl⟩, fun depth => ?_⟩
    · rcases hserves.typed b hb with ⟨_, htype⟩ | ⟨hsource, _⟩
      · exact .inl ⟨rfl, htype⟩
      · exact (hnone b hb hsource).elim
    · exact ⟨by rw [hdepth, hsame, Nat.add_sub_cancel], exists_depthAfter_ge (hdepth 0) depth⟩

/-- The receiver of a marker type with this handle. -/
private theorem exec_receiverOf {V E : Type} (M : Machine V E) (storage : HandleStorage)
    (handle? : Option Handle) (t : Target) (f : Frame V E) :
    ∃ values : List V, values.length = handle?.isSome.toNat ∧ ∀ stack locals, ∃ env,
      M.exec (receiverOf storage handle? t) { f with stack, locals } =
          some { f with stack := values.reverse ++ stack, locals, env } ∧
        ((∀ i ∈ receiverOf storage handle? t, M.Silent i) → env = f.env) := by
  cases handle? with
  | none => exact ⟨[], rfl, fun stack locals => ⟨f.env, rfl, fun _ => rfl⟩⟩
  | some handle =>
    exact ⟨M.handle storage handle.field t f.args f.env, Machine.length_handle f.args f.env,
      fun stack locals => Machine.exec_loadHandle storage handle.field t { f with stack, locals }⟩

/-- The code of exit advice, entered with the depth at a `ret` of the target. -/
private theorem Advice.Declared.exists_depthAfter_exitCode (hdeclared : a.Declared)
    (storage : HandleStorage) (hserves : a.Serves t)
    (hhandle : (!a.isStatic).toNat ≤ handle?.isSome.toNat) (slot : UInt16) :
    ∃ depth, depth + (a.binds .targetReturnValue).toNat = (!t.ret.isVoid).toNat ∧
      depthAfter (!t.ret.isVoid).toNat
          (a.exitCode (receiverOf storage handle? t) t
            (if a.binds .targetReturnValue then some slot else none)) =
        some (depth + handle?.isSome.toNat - (!a.isStatic).toNat +
          (a.binds .targetReturnValue).toNat) := by
  obtain ⟨depth, hdepth⟩ :
      ∃ depth, depth + (a.binds .targetReturnValue).toNat = (!t.ret.isVoid).toNat := by
    cases hbinds : a.binds .targetReturnValue with
    | false => exact ⟨(!t.ret.isVoid).toNat, rfl⟩
    | true => exact ⟨0, by rw [hserves.isVoid_eq_false hbinds]; rfl⟩
  have h := hdeclared.depthAfter_exitCode hhandle (depthAfter_receiverOf storage handle? t depth)
    (if a.binds .targetReturnValue then some slot else none) (t := t)
  have hsome : (if a.binds .targetReturnValue then some slot else none).isSome =
      a.binds .targetReturnValue := by
    cases a.binds .targetReturnValue <;> rfl
  rw [hsome, hdepth] at h
  exact ⟨depth, hdepth, h⟩

private theorem Advice.balancedOnExit_iff (hdeclared : a.Declared) (hserves : a.Serves t)
    (hhandle : (!a.isStatic).toNat ≤ handle?.isSome.toNat) {slot : UInt16}
    {locals : Array ValueType}
    (hslot : a.binds .targetReturnValue → locals[slot.toNat]? = some t.ret) :
    a.BalancedOnExit storage handle? t locals
        (if a.binds .targetReturnValue then some slot else none)
        (a.exitCode (receiverOf storage handle? t) t
          (if a.binds .targetReturnValue then some slot else none)) ↔
      handle?.isSome = !a.isStatic := by
  obtain ⟨depth, hdepth, hafter⟩ :=
    hdeclared.exists_depthAfter_exitCode storage hserves hhandle slot
  constructor
  · rintro ⟨_, hbalanced, _⟩
    rw [hafter] at hbalanced
    have hnat : handle?.isSome.toNat = (!a.isStatic).toNat := by
      have := Option.some.inj hbalanced
      omega
    exact eq_of_toNat_eq hnat
  · intro hsame
    refine ⟨⟨receiverOf storage handle? t,
      a.bindings.map (·.load t (if a.binds .targetReturnValue then some slot else none)),
      hdeclared.supplied hsame fun b hb => ?_, by simp [Advice.exitCode]⟩,
      by rw [hafter, hsame, Nat.add_sub_cancel, hdepth], fun V E M f hf => ?_⟩
    · rcases hserves.typed b hb with ⟨hsource, htype⟩ | ⟨hsource, htype, _⟩
      · exact .inl ⟨by simp [Binding.load, hsource], htype⟩
      · have hbinds : a.binds .targetReturnValue := List.any_eq_true.2 ⟨b, hb, by simp [hsource]⟩
        exact .inr ⟨slot, if_pos hbinds, by simp [Binding.load, hsource, hbinds],
          htype ▸ hslot hbinds⟩
    · obtain ⟨values, hvalues, hreceiver⟩ := exec_receiverOf M storage handle? t f
      have hnonempty : a.binds .targetReturnValue → f.stack ≠ [] := by
        intro hbinds hnil
        rw [hserves.isVoid_eq_false hbinds, hnil] at hf
        cases hf
      obtain ⟨env, locals', hexec, _⟩ :=
        Machine.exec_exitCode hdeclared slot (by rw [hvalues, hsame]) hnonempty hreceiver
      exact ⟨_, hexec, rfl⟩

end

/-- The code that is put in for advice is a balanced call just if the advice is called on an
instance, or all advice of its marker type is static.  Here `marker` is a marker type whose advice
keeps the rules on the target `t`, `handle?` is what is decided on its handle, and `slot` the local
that is made for the return value of the target. -/
theorem MarkerType.balanced_call_iff {names : MarkerNames} {owner : TypeDecl}
    {marker : MarkerType} {t : Target} {w w' : Workspace} {handle? : Option Handle} {a : Advice}
    {slot : UInt16} {locals : Array ValueType}
    (declared : (owner.scan names).declared = .ok (some marker))
    (accepted : marker.violationOn? t = none)
    (handled : (Weaving.handleFor marker).run w = (.ok handle?, w')) (ha : a ∈ marker.advice)
    (slotted : a.takesResult → locals[slot.toNat]? = some t.ret) (storage : HandleStorage) :
    let receiver := receiverOf storage handle? t
    let slot? := if a.binds .targetReturnValue then some slot else none
    (a.timing = .onEntry → (a.BalancedOnEntry storage handle? t (a.entryCode receiver t) ↔
      (a.isStatic = true → ∀ a' ∈ marker.advice, a'.isStatic = true))) ∧
    (a.timing = .onExit → (a.BalancedOnExit storage handle? t locals slot?
      (a.exitCode receiver t slot?) ↔
      (a.isStatic = true → ∀ a' ∈ marker.advice, a'.isStatic = true))) := by
  have hdeclared := owner.declared_scan declared a ha
  have hserves := marker.serves_of_violationOn? accepted a ha
  have hhandle : handle?.isSome = marker.advice.any (!·.isStatic) := isSome_of_handleFor handled
  have hle : (!a.isStatic).toNat ≤ handle?.isSome.toNat := by
    rw [hhandle]
    cases hstatic : a.isStatic with
    | true => exact Nat.zero_le _
    | false =>
      rw [List.any_eq_true.2 ⟨a, ha, by simp [hstatic]⟩]
      exact Nat.le_refl _
  have hsame : handle?.isSome = (!a.isStatic) ↔
      (a.isStatic = true → ∀ a' ∈ marker.advice, a'.isStatic = true) := by
    rw [hhandle]
    cases hstatic : a.isStatic with
    | true => simp [List.any_eq_false]
    | false => simpa using ⟨a, ha, hstatic⟩
  refine ⟨fun htiming => ?_, fun htiming => ?_⟩
  · exact (a.balancedOnEntry_iff hdeclared hserves htiming hle).trans hsame
  · refine (a.balancedOnExit_iff hdeclared hserves hle fun hbinds => slotted ?_).trans hsame
    simp [Advice.takesResult, htiming, hbinds]

/-! ### A marker type with advice of both kinds -/

namespace Sample

def mixedDecl : TypeDecl where
  name := "L"
  attributes := [{ name := "Injection" }]
  methods :=
    [{ name := "S", isStatic := true, ret := .void,
        attributes := [{ name := "Rise", args := [.int 1] }] },
      { id := ⟨1⟩, name := "I", ret := .void,
        attributes := [{ name := "Rise", args := [.int 1] }] }]

def staticAdvice : Advice where
  name := "S"
  method := ⟨0⟩
  timing := .onEntry
  bindings := []
  ret := .void
  isStatic := true
  call := ⟨"L", "S", false, [], .void⟩

def instanceAdvice : Advice where
  name := "I"
  method := ⟨1⟩
  timing := .onEntry
  bindings := []
  ret := .void
  isStatic := false
  call := ⟨"L", "I", true, [], .void⟩

def mixed : MarkerType where
  owner := ⟨0⟩
  name := "L"
  advice := [staticAdvice, instanceAdvice]

def carrier : Target where
  id := ⟨2⟩
  owner := "C"
  name := "F"
  isStatic := false
  ret := .void

def handle : Handle where
  field := ⟨"L", handleFieldName, .named "L"⟩
  initializer := ⟨"L", initializerName, true, [], .void⟩

/-- A pass that has made the handle of the marker type. -/
def workspace : Workspace where
  pass := { handles := [(⟨0⟩, handle)] }
  module := { name := "m", types := [mixedDecl] }

end Sample

/-- Static advice is no balanced call if its marker type has other advice too, but the other
advice is. -/
theorem MarkerType.balanced_call_iff_mixed :
    ¬ Sample.staticAdvice.BalancedOnEntry .shared (some Sample.handle) Sample.carrier
        [.field .ldsfld Sample.handle.field, .call .call Sample.staticAdvice.call, .simple .nop] ∧
      Sample.instanceAdvice.BalancedOnEntry .shared (some Sample.handle) Sample.carrier
        [.field .ldsfld Sample.handle.field, .call .call Sample.instanceAdvice.call,
        .simple .nop] := by
  have hdeclared : (Sample.mixedDecl.scan (.ofNamespace "")).declared = .ok (some Sample.mixed) :=
    rfl
  have haccepted : Sample.mixed.violationOn? Sample.carrier = none := rfl
  have hhandled : (Weaving.handleFor Sample.mixed).run Sample.workspace =
      (.ok (some Sample.handle), Sample.workspace) :=
    rfl
  have hslotted : ∀ a ∈ Sample.mixed.advice, a.takesResult →
      (#[] : Array ValueType)[(0 : UInt16).toNat]? = some Sample.carrier.ret := by decide
  constructor
  · have h := MarkerType.balanced_call_iff hdeclared haccepted hhandled (a := Sample.staticAdvice)
      (by decide) (hslotted _ (by decide)) .shared
    exact fun hbalanced => absurd ((h.1 rfl).1 hbalanced rfl) (by decide)
  · have h := MarkerType.balanced_call_iff hdeclared haccepted hhandled (a := Sample.instanceAdvice)
      (by decide) (hslotted _ (by decide)) .shared
    exact (h.1 rfl).2 (by decide)

end AdviceWeaving
