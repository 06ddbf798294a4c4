import AdviceWeaving.Proofs.Balance
import AdviceWeaving.Proofs.Admissions
import AdviceWeaving.Proofs.Legality

/-!
# Calls of advice

The call of an advice method takes a receiver, if the method is one of an instance, and a value for
each parameter (`Advice.Declared`).  What the woven code puts on the stack before the call comes
from the parameters as well, so it is as much as the call takes, apart from the receiver: this is
loaded if some advice of the marker type is called on an instance.  For a marker type whose advice
is all of one kind (`MarkerType.IsUniform`) that is the same, and the woven code leaves the stack as
it was (`Outline.Sound.depthAfter_entry`, `Outline.Sound.depthAfter_exit`).
-/

namespace AdviceWeaving

/-! ### What reading a type tells of its advice -/

/-- The signature in the calls of advice agrees with its parameters. -/
structure Advice.Declared (a : Advice) : Prop where
  params_eq : a.call.params = a.bindings.map (·.type)
  onInstance_eq : a.call.onInstance = !a.isStatic
  ret_eq : a.call.ret = a.ret

private theorem Method.Declares.declared {names : MarkerNames} {owner : String} {x : Method} {a : Advice}
    (h : x.Declares names owner a) : a.Declared where
  params_eq := by
    rw [h.call_eq, ← List.forall₂_eq_eq_eq, List.forall₂_map_left_iff, List.forall₂_map_right_iff]
    exact h.binds.imp fun p b hb => hb.type_eq.symm
  onInstance_eq := by rw [h.call_eq, h.isStatic_eq]
  ret_eq := by rw [h.call_eq, h.ret_eq]

theorem TypeDecl.declared_scan {names : MarkerNames} {t : TypeDecl} {marker : MarkerType}
    (h : (t.scan names).declared = .ok (some marker)) : ∀ a ∈ marker.advice, a.Declared := by
  intro a ha
  obtain ⟨x, -, hdeclares⟩ := t.exists_declares h a ha
  exact hdeclares.declared

/-! ### What the rules tell of advice -/

/-- Advice gets what its parameters ask for: the name of the target as a string, or its return
value, and that only on exit. -/
structure Advice.Serves (a : Advice) (t : Target) : Prop where
  onEntry : a.timing = .onEntry → a.binds .targetReturnValue = false
  typed : ∀ b ∈ a.bindings, b.source = some .targetName ∧ b.type = .string ∨
    b.source = some .targetReturnValue ∧ b.type = t.ret ∧ t.ret.isVoid = false

private theorem Advice.Legal.serves {a : Advice} {t : Target} (h : a.Legal) (hfits : a.Fits t) : a.Serves t where
  onEntry htiming := by
    by_contra hbinds
    exact waits_iff.1 h.waits ⟨htiming, by simpa using hbinds⟩
  typed b hb := by
    cases hsource : b.source with
    | none => exact absurd hsource (h.bound b hb)
    | some source =>
      cases source with
      | targetName => exact .inl ⟨rfl, h.named b hb hsource⟩
      | targetReturnValue =>
        obtain ⟨hret, htype⟩ := hfits b hb hsource
        exact .inr ⟨rfl, htype.symm, ValueType.isVoid_eq_false_iff.2 hret⟩

theorem MarkerType.serves_of_violationOn? {m : MarkerType} {t : Target}
    (h : m.violationOn? t = none) : ∀ a ∈ m.advice, a.Serves t := by
  intro a ha
  obtain ⟨hlegal, hfits⟩ := violationOn?_eq_none_iff.1 h a ha
  exact hlegal.serves hfits

private theorem MarkerType.serves_of_firstViolation? {m : MarkerType} {targets : List Target}
    (h : m.firstViolation? targets = none) {t : Target} (ht : t ∈ targets) :
    ∀ a ∈ m.advice, a.Serves t :=
  m.serves_of_violationOn? (by simpa using List.findSome?_eq_none_iff.1 h t ht)

/-- Advice keeps all rules on a target: what its parameters ask for is there, they are not too many, and at most one
gets the return value. -/
structure Advice.Lawful (a : Advice) (t : Target) : Prop where
  serves : a.Serves t
  arity : a.bindings.length ≤ maxAdviceParams
  once : a.bindings.countP (·.source = some .targetReturnValue) ≤ 1

/-- What is lawful on a target, is so by itself and on the target. -/
private theorem Advice.lawful_iff {a : Advice} {t : Target} : a.Lawful t ↔ a.Legal ∧ a.Fits t := by
  constructor
  · rintro ⟨hserves, hfew, honce⟩
    have hwaits : a.Waits := waits_iff.2 fun ⟨htiming, hbinds⟩ => by
      rw [hserves.onEntry htiming] at hbinds
      cases hbinds
    refine ⟨⟨hfew, fun b hb hnone => ?_, fun b hb hname => ?_, hwaits, takesOnce_iff.2 honce⟩, fun b hb htakes => ?_⟩
    · rcases hserves.typed b hb with ⟨hsource, -⟩ | ⟨hsource, -⟩ <;> simp [hnone] at hsource
    · rcases hserves.typed b hb with ⟨-, htype⟩ | ⟨hsource, -⟩
      · exact htype
      · simp [hname] at hsource
    · rcases hserves.typed b hb with ⟨hsource, -⟩ | ⟨-, htype, hvoid⟩
      · simp [Binding.TakesReturn, hsource] at htakes
      · exact ⟨ValueType.isVoid_eq_false_iff.1 hvoid, htype.symm⟩
  · rintro ⟨hlegal, hfits⟩
    exact ⟨hlegal.serves hfits, hlegal.few, takesOnce_iff.1 hlegal.once⟩

theorem MarkerType.firstViolation?_eq_none_iff {m : MarkerType} {targets : List Target} :
    m.firstViolation? targets = none ↔ ∀ t ∈ targets, ∀ a ∈ m.advice, a.Lawful t := by
  simp only [firstViolation?_eq_none_iff_legal_and_fits, Advice.lawful_iff]

/-- A target whose return value is taken returns one. -/
theorem Advice.Serves.isVoid_eq_false {a : Advice} {t : Target} (h : a.Serves t)
    (hbinds : a.binds .targetReturnValue) : t.ret.isVoid = false := by
  obtain ⟨b, hb, hsource⟩ := List.any_eq_true.1 hbinds
  rcases h.typed b hb with ⟨hname, _⟩ | ⟨_, _, hvoid⟩
  · simp [hname] at hsource
  · exact hvoid

/-! ### The code of advice -/

theorem depthAfter_loads {depth : Nat} {code : List Instruction}
    (h : ∀ i ∈ code, i.stackEffect = ⟨0, 1⟩) :
    depthAfter depth code = some (depth + code.length) := by
  induction code generalizing depth with
  | nil => rfl
  | cons i code ih =>
    simp only [depthAfter, h i List.mem_cons_self]
    rw [if_pos (Nat.zero_le _), ih fun j hj => h j (List.mem_cons_of_mem _ hj), List.length_cons]
    congr 1
    omega

theorem depthAfter_loadHandle (storage : HandleStorage) (field : FieldSig) (t : Target)
    (depth : Nat) : depthAfter depth (loadHandle storage field t) = some (depth + 1) := by
  cases storage <;> cases h : t.isStatic <;>
    simp [loadHandle, h, depthAfter, Instruction.stackEffect]

private theorem Binding.stackEffect_load (t : Target) (slot? : Option UInt16) (b : Binding) :
    (b.load t slot?).stackEffect = ⟨0, 1⟩ := by
  unfold Binding.load
  split <;> rfl

section Code

variable {a : Advice} {t : Target} {receiver : List Instruction} {depth n : Nat}

/-- The call takes the receiver and the parameters, and what it leaves is taken away. -/
private theorem Advice.Declared.depthAfter_callCode (h : a.Declared) (hn : (!a.isStatic).toNat ≤ n) :
    depthAfter (depth + n + a.bindings.length) a.callCode =
      some (depth + n - (!a.isStatic).toNat) := by
  have hpops : (Instruction.call .call a.call).stackEffect =
      ⟨a.bindings.length + (!a.isStatic).toNat, (!a.ret.isVoid).toNat⟩ := by
    simp [Instruction.stackEffect, h.params_eq, h.onInstance_eq, h.ret_eq]
  simp only [Advice.callCode, depthAfter, hpops]
  rw [if_pos (by omega)]
  cases a.ret.isVoid <;> simp [Instruction.stackEffect] <;> omega

theorem Advice.Declared.depthAfter_entryCode (h : a.Declared) (hn : (!a.isStatic).toNat ≤ n)
    (hreceiver : depthAfter depth receiver = some (depth + n)) :
    depthAfter depth (a.entryCode receiver t) = some (depth + n - (!a.isStatic).toNat) := by
  have hloads : ∀ i ∈ a.bindings.map fun _ => Instruction.ldstr t.name, i.stackEffect = ⟨0, 1⟩ := by
    intro i hi
    obtain ⟨_, _, rfl⟩ := List.mem_map.1 hi
    rfl
  rw [Advice.entryCode, depthAfter_append, depthAfter_append, hreceiver, Option.bind_some,
    depthAfter_loads hloads, Option.bind_some, List.length_map, h.depthAfter_callCode hn]

/-- The return value, if it is put into a local, is back on the stack at the end. -/
theorem Advice.Declared.depthAfter_exitCode (h : a.Declared) (hn : (!a.isStatic).toNat ≤ n)
    (hreceiver : depthAfter depth receiver = some (depth + n)) (slot? : Option UInt16) :
    depthAfter (depth + slot?.isSome.toNat) (a.exitCode receiver t slot?) =
      some (depth + n - (!a.isStatic).toNat + slot?.isSome.toNat) := by
  have hloads : ∀ i ∈ a.bindings.map (·.load t slot?), i.stackEffect = ⟨0, 1⟩ := by
    intro i hi
    obtain ⟨b, _, rfl⟩ := List.mem_map.1 hi
    exact b.stackEffect_load t slot?
  have hstore : depthAfter (depth + slot?.isSome.toNat)
      (slot?.map (Instruction.slot .stloc)).toList = some depth := by
    cases slot? <;> simp [depthAfter, Instruction.stackEffect]
  have hrestore (d : Nat) :
      depthAfter d (slot?.map (Instruction.slot .ldloc)).toList =
        some (d + slot?.isSome.toNat) := by
    cases slot? <;> simp [depthAfter, Instruction.stackEffect]
  simp only [Advice.exitCode, depthAfter_append]
  rw [hstore, Option.bind_some, hreceiver, Option.bind_some, depthAfter_loads hloads,
    Option.bind_some, List.length_map, h.depthAfter_callCode hn, Option.bind_some, hrestore]

end Code

/-! ### The code of a pass -/

/-- The advice of a marker type is all static, or all called on an instance. -/
def MarkerType.IsUniform (m : MarkerType) : Prop :=
  (∀ a ∈ m.advice, a.isStatic = true) ∨ ∀ a ∈ m.advice, a.isStatic = false

instance (m : MarkerType) : Decidable m.IsUniform :=
  inferInstanceAs (Decidable (_ ∨ _))

/-- A receiver is loaded for advice just if the advice is called on one, if the marker type is
uniform. -/
private theorem MarkerType.IsUniform.any_eq {m : MarkerType} (h : m.IsUniform) {a : Advice}
    (ha : a ∈ m.advice) : m.advice.any (!·.isStatic) = !a.isStatic := by
  rcases h with h | h
  · rw [h a ha]
    simpa using h
  · rw [h a ha]
    exact List.any_eq_true.2 ⟨a, ha, by simp [h a ha]⟩

/-- The marker types of a module are uniform. -/
def Module.HasUniformMarkers (m : Module) (names : MarkerNames) : Prop :=
  ∀ t ∈ m.types, ∀ marker, (t.scan names).declared = .ok (some marker) → marker.IsUniform

private theorem Admission.depthAfter_receiver (storage : HandleStorage) (a : Admission) (t : Target)
    (depth : Nat) :
    depthAfter depth (a.receiver storage t) = some (depth + a.handle?.isSome.toNat) := by
  cases h : a.handle? with
  | none => simp [Admission.receiver, h, depthAfter]
  | some field => simp [Admission.receiver, h, depthAfter_loadHandle]

private theorem depthAfter_flatMap {α : Type} {f : α → List Instruction} {l : List α} {depth : Nat}
    (h : ∀ x ∈ l, depthAfter depth (f x) = some depth) :
    depthAfter depth (l.flatMap f) = some depth := by
  induction l with
  | nil => rfl
  | cons x l ih =>
    rw [List.flatMap_cons, depthAfter_append, h x List.mem_cons_self, Option.bind_some]
    exact ih fun y hy => h y (List.mem_cons_of_mem _ hy)

namespace Outline

variable {o : Outline} {settings : Settings} {m : Module} {visited : List TypeId} {a : Admission}
  {adv : Advice} {t : Target} {p : Profile} {n : Nat}

theorem mem_adviceFor :
    (a, adv) ∈ o.adviceFor t ↔ a ∈ o.admissions ∧ t ∈ a.targets ∧ adv ∈ a.marker.advice := by
  simp only [adviceFor, List.mem_flatMap, List.mem_filter, List.mem_map, Prod.mk.injEq,
    decide_eq_true_eq]
  constructor
  · rintro ⟨_, ⟨ha, ht⟩, _, hadv, rfl, rfl⟩
    exact ⟨ha, ht, hadv⟩
  · rintro ⟨ha, ht, hadv⟩
    exact ⟨a, ⟨ha, ht⟩, adv, hadv, rfl, rfl⟩

theorem Sound.declared (h : o.Sound settings m visited) (hadv : (a, adv) ∈ o.adviceFor t) :
    adv.Declared := by
  obtain ⟨ha, _, hadv⟩ := mem_adviceFor.1 hadv
  obtain ⟨owner, _, _, hscan⟩ := (h.accepted a ha).declared
  exact owner.declared_scan hscan adv hadv

theorem Sound.serves (h : o.Sound settings m visited) (hadv : (a, adv) ∈ o.adviceFor t) :
    adv.Serves t := by
  obtain ⟨ha, ht, hadv⟩ := mem_adviceFor.1 hadv
  exact MarkerType.serves_of_firstViolation? (h.accepted a ha).accepted ht adv hadv

theorem Sound.isUniform (h : o.Sound settings m visited)
    (huniform : m.HasUniformMarkers settings.markers) (t : Target) :
    ∀ x ∈ o.adviceFor t, x.1.marker.IsUniform := by
  rintro ⟨a, adv⟩ hx
  obtain ⟨owner, howner, _, hscan⟩ := (h.accepted a (mem_adviceFor.1 hx).1).declared
  exact huniform owner howner _ hscan

/-- Among advice of one kind, a receiver is loaded just for what is called on one. -/
theorem Sound.handle?_isSome (h : o.Sound settings m visited) (hadv : (a, adv) ∈ o.adviceFor t)
    (huniform : a.marker.IsUniform) : a.handle?.isSome = !adv.isStatic := by
  obtain ⟨ha, _, hadv⟩ := mem_adviceFor.1 hadv
  rw [(h.accepted a ha).handle?_isSome]
  exact huniform.any_eq hadv

private theorem Sound.depthAfter_entryCode (h : o.Sound settings m visited)
    (hadv : (a, adv) ∈ o.adviceFor t) (huniform : a.marker.IsUniform) (storage : HandleStorage)
    (depth : Nat) :
    depthAfter depth (Admission.entryCode storage t (a, adv)) = some depth := by
  have hreceiver := a.depthAfter_receiver storage t depth
  rw [h.handle?_isSome hadv huniform] at hreceiver
  rw [Admission.entryCode, (h.declared hadv).depthAfter_entryCode (Nat.le_refl _) hreceiver]
  congr 1
  omega

private theorem Sound.depthAfter_exitCode (h : o.Sound settings m visited)
    (hadv : (a, adv) ∈ o.adviceFor t) (huniform : a.marker.IsUniform) (storage : HandleStorage)
    (slot : UInt16) :
    depthAfter (!t.ret.isVoid).toNat (Admission.exitCode storage t slot (a, adv)) =
      some (!t.ret.isVoid).toNat := by
  have hreceiver (depth : Nat) := a.depthAfter_receiver storage t depth
  simp only [h.handle?_isSome hadv huniform] at hreceiver
  have hcode (depth : Nat) (slot? : Option UInt16) :
      depthAfter (depth + slot?.isSome.toNat) (adv.exitCode (a.receiver storage t) t slot?) =
        some (depth + slot?.isSome.toNat) := by
    rw [(h.declared hadv).depthAfter_exitCode (Nat.le_refl _) (hreceiver depth)]
    congr 1
    omega
  unfold Admission.exitCode
  split
  · next hbinds =>
    rw [(h.serves hadv).isVoid_eq_false hbinds]
    exact hcode 0 (some slot)
  · exact hcode _ none

private theorem depthAfter_prologue (o : Outline) (p : Profile) (depth : Nat) :
    depthAfter depth (o.prologue p) = some depth := by
  unfold Outline.prologue
  split
  · simp [initializerCall, initializerSig, depthAfter, Instruction.stackEffect, ValueType.isVoid]
  · rfl

/-- The code on entry gives back the depth that it is entered with. -/
theorem Sound.depthAfter_entry (h : o.Sound settings m visited)
    (huniform : ∀ x ∈ o.adviceFor p.target, x.1.marker.IsUniform) (storage : HandleStorage)
    (n depth : Nat) : depthAfter depth (o.wrapping storage p n).entry = some depth := by
  simp only [wrapping]
  rw [depthAfter_append, depthAfter_prologue, Option.bind_some]
  refine depthAfter_flatMap fun x hx => ?_
  have hx := (List.mem_filter.1 hx).1
  exact h.depthAfter_entryCode hx (huniform x hx) storage depth

/-- The code on exit gives back the depth at a `ret`. -/
theorem Sound.depthAfter_exit (h : o.Sound settings m visited)
    (huniform : ∀ x ∈ o.adviceFor p.target, x.1.marker.IsUniform) (storage : HandleStorage)
    (n : Nat) :
    depthAfter (!p.target.ret.isVoid).toNat (o.wrapping storage p n).exit =
      some (!p.target.ret.isVoid).toNat := by
  refine depthAfter_flatMap fun x hx => ?_
  have hx := (List.mem_filter.1 hx).1
  exact h.depthAfter_exitCode hx (huniform x hx) storage _

end Outline

/-! ### The operands of this code -/

section Operands

variable {a : Advice} {t : Target} {locals args : Nat}

private theorem inRange_loadHandle (h : t.isStatic = false → 0 < args) (storage : HandleStorage)
    (field : FieldSig) : InRange locals args (loadHandle storage field t) := by
  intro i hi length
  cases storage with
  | shared => simp only [loadHandle, List.mem_singleton] at hi; subst hi; rfl
  | perInstance =>
    simp only [loadHandle, List.mem_cons, List.not_mem_nil, or_false] at hi
    rcases hi with rfl | rfl
    · split
      · rfl
      · next hstatic => exact if_neg (Nat.not_le.2 (h (by simpa using hstatic)))
    · rfl

private theorem Admission.inRange_receiver (h : t.isStatic = false → 0 < args) (storage : HandleStorage)
    (a : Admission) : InRange locals args (a.receiver storage t) := by
  cases hfield : a.handle? with
  | none => simp [Admission.receiver, hfield, InRange]
  | some field => simpa [Admission.receiver, hfield] using inRange_loadHandle h storage field

private theorem Advice.inRange_callCode (a : Advice) : InRange locals args a.callCode := by
  intro i hi length
  simp only [Advice.callCode, List.mem_cons, List.not_mem_nil, or_false] at hi
  rcases hi with rfl | rfl
  · rfl
  · split <;> rfl

private theorem Advice.inRange_entryCode (a : Advice) {receiver : List Instruction}
    (h : InRange locals args receiver) : InRange locals args (a.entryCode receiver t) := by
  refine (h.append fun i hi length => ?_).append a.inRange_callCode
  obtain ⟨_, _, rfl⟩ := List.mem_map.1 hi
  rfl

private theorem Advice.inRange_exitCode (a : Advice) {receiver : List Instruction}
    (h : InRange locals args receiver)
    {slot? : Option UInt16} (hslot : ∀ slot, slot? = some slot → slot.toNat < locals) :
    InRange locals args (a.exitCode receiver t slot?) := by
  have hslotOp : ∀ op, op = SlotOp.stloc ∨ op = SlotOp.ldloc →
      InRange locals args (slot?.map (Instruction.slot op)).toList := by
    intro op hop i hi length
    obtain ⟨slot, hs, rfl⟩ := Option.map_eq_some_iff.1 (Option.mem_toList.1 hi)
    rcases hop with rfl | rfl <;> exact if_neg (Nat.not_le.2 (hslot slot hs))
  have hloads : InRange locals args (a.bindings.map (·.load t slot?)) := by
    intro i hi length
    obtain ⟨b, _, rfl⟩ := List.mem_map.1 hi
    unfold Binding.load
    split
    · next slot _ => exact if_neg (Nat.not_le.2 (hslot slot rfl))
    · rfl
  exact ((((hslotOp _ (.inl rfl)).append h).append hloads).append a.inRange_callCode).append
    (hslotOp _ (.inr rfl))

end Operands

namespace Outline

variable {o : Outline} {p : Profile} {n locals : Nat}

private theorem inRange_prologue (o : Outline) (h : p.target.isStatic = false → 0 < p.args) :
    InRange locals p.args (o.prologue p) := by
  unfold Outline.prologue
  split
  · next hconstructor =>
    have hstatic : p.target.isStatic = false := by
      simp only [Target.isConstructor, Bool.and_eq_true, Bool.not_eq_true'] at hconstructor
      exact hconstructor.1.2
    intro i hi length
    simp only [initializerCall, List.mem_cons, List.not_mem_nil, or_false] at hi
    rcases hi with rfl | rfl
    · exact if_neg (Nat.not_le.2 (h hstatic))
    · rfl
  · intro i hi
    cases hi

/-- The woven code reads the receiver where there is one, and the local that is made for it. -/
theorem inRange_wrapping (storage : HandleStorage) (o : Outline)
    (h : p.target.isStatic = false → 0 < p.args)
    (hslot : (o.wrapping storage p n).slot?.isSome → n < locals ∧ n < Body.maxLocals) :
    InRange locals p.args ((o.wrapping storage p n).entry ++ (o.wrapping storage p n).exit) := by
  have hreceiver (a : Admission) : InRange locals p.args (a.receiver storage p.target) :=
    a.inRange_receiver h storage
  refine ((o.inRange_prologue h).append (InRange.flatMap fun x _ => ?_)).append
    (InRange.flatMap fun x hx => ?_)
  · exact x.2.inRange_entryCode (hreceiver x.1)
  · refine x.2.inRange_exitCode (hreceiver x.1) fun slot hs => ?_
    split at hs
    · next hbinds =>
      obtain ⟨hx, htiming⟩ := List.mem_filter.1 hx
      have htakes : (o.adviceFor p.target).any (·.2.takesResult) :=
        List.any_eq_true.2 ⟨x, hx, by simpa [Advice.takesResult, hbinds] using htiming⟩
      obtain ⟨hn, hmax⟩ := hslot (by simp [wrapping, htakes])
      rw [← Option.some.inj hs, UInt16.toNat_ofNat_of_lt' hmax]
      exact hn
    · cases hs

end Outline

end AdviceWeaving
