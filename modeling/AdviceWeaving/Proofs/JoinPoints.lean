import AdviceWeaving.Proofs.Injecting

/-!
# Weaving one target

A `JoinPoint` is what a pass changes of a target: its body, the end of the code that runs on entry, and the local that
holds its return value.  `JoinPoint.weave` puts advice into it, unless the advice asks for a local and none is left
(`JoinPoint.foldlM_weave_eq_none_iff`); branch targets that overflow are none of its business.  A marker type is put
into its targets one after the other (`Weaving.points_injectTargets`), and the first that cannot take the advice ends
the pass (`Weaving.points_of_fails_injectTargets`).  All this holds in any state of a pass.
-/

namespace AdviceWeaving

/-- What a pass changes of a target. -/
structure JoinPoint where
  body : Body
  cursor : Nat := 0
  slot? : Option UInt16 := none
  deriving DecidableEq, Inhabited

namespace JoinPoint

/-- The local that holds the return value, which is of the given type; it is made when it is first asked for. -/
def allot (j : JoinPoint) (type : ValueType) : Option (UInt16 × JoinPoint) :=
  match j.slot? with
  | some slot => some (slot, j)
  | none => (j.body.addLocal type).map fun (slot, body) =>
      (slot, { j with body := { body with initLocals := true }, slot? := some slot })

/-- The join point with code in front of every `ret`. -/
def leave (j : JoinPoint) (code : List Instruction) : JoinPoint :=
  { j with body := (j.body.spliceAtExits fun _ => code).1 }

/-- The join point with advice in it; there is none if the advice asks for a local and none is left. -/
def weave (t : Target) (receiver : List Instruction) (j : JoinPoint) (a : Advice) : Option JoinPoint :=
  match a.timing with
  | .onEntry =>
    let code := a.entryCode receiver t
    some { j with body := j.body.splice j.cursor code .displaced, cursor := j.cursor + code.length }
  | .onExit =>
    if a.binds .targetReturnValue then
      (j.allot t.ret).map fun (slot, j) => j.leave (a.exitCode receiver t (some slot))
    else
      some (j.leave (a.exitCode receiver t none))

/-- All advice of a marker type, put in in order. -/
def weaveAll (m : MarkerType) (t : Target) (receiver : List Instruction) (j : JoinPoint) :
    Option JoinPoint :=
  m.advice.foldlM (weave t receiver) j

/-- The return value has no local, and none is left for it. -/
def Full (j : JoinPoint) : Prop :=
  j.slot? = none ∧ Body.maxLocals ≤ j.body.locals.size

/-! ### When advice cannot be put in -/

variable {j j' : JoinPoint} {t : Target} {receiver : List Instruction} {a : Advice}

private theorem locals_spliceAtExits (b : Body) (code : List Instruction) :
    (b.spliceAtExits fun _ => code).1.locals = b.locals :=
  b.spliceAtExits_induction (P := fun b' => b'.locals = b.locals) (fun _ _ h => h) rfl

private theorem allot_eq_none_iff (type : ValueType) : j.allot type = none ↔ j.Full := by
  unfold allot Full
  cases j.slot? with
  | some slot => simp
  | none =>
    simp only [Option.map_eq_none_iff, Body.addLocal, true_and]
    split <;> simp_all

private theorem not_full_of_allot {type : ValueType} {slot : UInt16} (h : j.allot type = some (slot, j')) :
    ¬ j'.Full := by
  unfold allot at h
  unfold Full
  cases hslot : j.slot? with
  | some known =>
    rw [hslot] at h
    cases h
    simp [hslot]
  | none =>
    rw [hslot, Option.map_eq_some_iff] at h
    obtain ⟨_, _, h⟩ := h
    cases h
    simp

private theorem full_leave (code : List Instruction) : (j.leave code).Full ↔ j.Full := by
  simp only [Full, leave, locals_spliceAtExits]

private theorem weave_eq_none_iff : j.weave t receiver a = none ↔ a.takesResult ∧ j.Full := by
  unfold weave Advice.takesResult
  cases a.timing with
  | onEntry => simp
  | onExit =>
    cases a.binds .targetReturnValue with
    | false => simp
    | true => simp [allot_eq_none_iff]

/-- What has taken advice can take as much as before, and any advice once the local has been made. -/
private theorem full_of_weave (h : j.weave t receiver a = some j') : j'.Full ↔ j.Full ∧ ¬ a.takesResult := by
  unfold weave at h
  unfold Advice.takesResult
  cases htiming : a.timing with
  | onEntry =>
    rw [htiming] at h
    cases h
    simp [Full, Body.splice]
  | onExit =>
    rw [htiming] at h
    cases hbinds : a.binds .targetReturnValue with
    | false =>
      simp only [hbinds] at h
      cases h
      simp [full_leave]
    | true =>
      simp only [hbinds, if_true, Option.map_eq_some_iff] at h
      obtain ⟨⟨slot, j₁⟩, hallot, rfl⟩ := h
      simp [full_leave, not_full_of_allot hallot]

theorem full_of_foldlM_weave {advice : List Advice} (h : advice.foldlM (weave t receiver) j = some j') :
    j'.Full ↔ j.Full ∧ ∀ a ∈ advice, ¬ a.takesResult := by
  induction advice generalizing j with
  | nil =>
    cases h
    simp
  | cons a advice ih =>
    rw [List.foldlM_cons, Option.bind_eq_bind, Option.bind_eq_some_iff] at h
    obtain ⟨j₁, hj₁, h⟩ := h
    rw [ih h, full_of_weave hj₁, List.forall_mem_cons, and_assoc]

/-- A list of advice cannot be put in if some of it asks for a local and none is left. -/
theorem foldlM_weave_eq_none_iff {advice : List Advice} :
    advice.foldlM (weave t receiver) j = none ↔ (∃ a ∈ advice, a.takesResult) ∧ j.Full := by
  induction advice generalizing j with
  | nil => simp
  | cons a advice ih =>
    rw [List.foldlM_cons]
    cases h : j.weave t receiver a with
    | none =>
      obtain ⟨htakes, hfull⟩ := weave_eq_none_iff.1 h
      simp [htakes, hfull]
    | some j₁ =>
      have hfull := full_of_weave h
      have hnot : ¬ (a.takesResult ∧ j.Full) := fun h' => by
        rw [weave_eq_none_iff.2 h'] at h
        cases h
      simp only [Option.bind_eq_bind, Option.bind_some, ih, hfull, List.mem_cons, exists_eq_or_imp]
      tauto

end JoinPoint

/-! ### What a pass remembers -/

/-- Both passes remember the same of what they have put in. -/
structure Pass.SameCaches (p q : Pass) : Prop where
  settings_eq : q.settings = p.settings
  handles_eq : q.handles = p.handles
  slots_eq : q.slots = p.slots
  cursors_eq : q.cursors = p.cursors

namespace Pass

variable {p q : Pass}

theorem SameCaches.refl (p : Pass) : p.SameCaches p := ⟨rfl, rfl, rfl, rfl⟩

theorem SameCaches.trans {r : Pass} (h : p.SameCaches q) (h' : q.SameCaches r) : p.SameCaches r where
  settings_eq := h'.settings_eq.trans h.settings_eq
  handles_eq := h'.handles_eq.trans h.handles_eq
  slots_eq := h'.slots_eq.trans h.slots_eq
  cursors_eq := h'.cursors_eq.trans h.cursors_eq

theorem SameCaches.handle? (h : p.SameCaches q) (id : TypeId) : q.handle? id = p.handle? id := by
  rw [Pass.handle?, Pass.handle?, h.handles_eq]

theorem SameCaches.slot? (h : p.SameCaches q) (id : MethodId) : q.slot? id = p.slot? id := by
  rw [Pass.slot?, Pass.slot?, h.slots_eq]

theorem SameCaches.cursor (h : p.SameCaches q) (id : MethodId) : q.cursor id = p.cursor id := by
  rw [Pass.cursor, Pass.cursor, h.cursors_eq]

theorem SameCaches.advance (h : p.SameCaches q) (n : Nat) (id : MethodId) :
    (p.advance n id).SameCaches (q.advance n id) where
  settings_eq := h.settings_eq
  handles_eq := h.handles_eq
  slots_eq := h.slots_eq
  cursors_eq := by simp only [Pass.advance, h.cursor, h.cursors_eq]

end Pass

/-! ### The join points of a module -/

/-- The workspace holds the module `base` with the bodies of the join points, and remembers what these tell. -/
structure Workspace.HasPoints (w : Workspace) (base : Module) (points : MethodId → JoinPoint) : Prop where
  module_eq : w.module = base.withBodies fun id => (points id).body
  cursor_eq : ∀ id, w.pass.cursor id = (points id).cursor
  slot?_eq : ∀ id, w.pass.slot? id = (points id).slot?

/-- The join point of a method. -/
def Workspace.point (w : Workspace) (id : MethodId) : JoinPoint :=
  ⟨(w.module.body? id).getD default, w.pass.cursor id, w.pass.slot? id⟩

namespace Workspace

variable {w w' : Workspace} {base : Module} {points : MethodId → JoinPoint}

theorem hasPoints (h : w.module.Numbered) : w.HasPoints w.module w.point where
  module_eq := h.withBodies_self.symm
  cursor_eq _ := rfl
  slot?_eq _ := rfl

private theorem HasPoints.body? (h : w.HasPoints base points) {id : MethodId} (hid : (base.body? id).isSome) :
    w.module.body? id = some (points id).body := by
  obtain ⟨b, hb⟩ := Option.isSome_iff_exists.1 hid
  rw [h.module_eq, Module.body?_withBodies, hb]
  rfl

theorem HasPoints.point_eq (h : w.HasPoints base points) {id : MethodId} (hid : (base.body? id).isSome) :
    w.point id = points id := by
  rw [point, h.body? hid, h.cursor_eq, h.slot?_eq]
  rfl

/-- A change of one join point. -/
private theorem HasPoints.update (h : w.HasPoints base points) (hbase : base.Numbered) {id : MethodId}
    {j : JoinPoint} (hid : (base.body? id).isSome) (hmodule : w'.module = w.module.setBody id j.body)
    (hcursor : ∀ k, w'.pass.cursor k = if k = id then j.cursor else w.pass.cursor k)
    (hslot : ∀ k, w'.pass.slot? k = if k = id then j.slot? else w.pass.slot? k) :
    w'.HasPoints base (Function.update points id j) where
  module_eq := by
    rw [hmodule, h.module_eq, hbase.setBody_withBodies hid]
    congr 1
    funext k
    by_cases hk : k = id
    · subst hk; simp
    · simp [hk]
  cursor_eq k := by
    rw [hcursor]
    by_cases hk : k = id
    · subst hk; simp
    · simp [hk, h.cursor_eq]
  slot?_eq k := by
    rw [hslot]
    by_cases hk : k = id
    · subst hk; simp
    · simp [hk, h.slot?_eq]

end Workspace

/-! ### Advice in a target -/

namespace Weaving

open Step

variable {w w' : Workspace} {base : Module} {points : MethodId → JoinPoint} {t : Target}
  {receiver : List Instruction} {a : Advice} {failure : Failure} {u : Unit}

private theorem points_slotOf (hbase : base.Numbered) (h : w.HasPoints base points) {id : MethodId}
    (hid : (base.body? id).isSome) {type : ValueType} {slot : UInt16}
    (hy : Yields (slotOf id type) w slot w') :
    ∃ j, (points id).allot type = some (slot, j) ∧ w'.HasPoints base (Function.update points id j) ∧
      w'.pass.settings = w.pass.settings := by
  obtain ⟨hslot, rfl⟩ | ⟨hslot, body, body', hbody, hadd, rfl⟩ := yields_slotOf_iff.1 hy
  · refine ⟨points id, ?_, ?_, rfl⟩
    · rw [JoinPoint.allot, ← h.slot?_eq, hslot]
    · rwa [Function.update_eq_self]
  · cases (h.body? hid).symm.trans hbody
    refine ⟨{ points id with body := { body' with initLocals := true }, slot? := some slot }, ?_,
      h.update hbase hid rfl (fun k => ?_) (fun k => ?_), rfl⟩
    · rw [JoinPoint.allot, ← h.slot?_eq, hslot, hadd]
      rfl
    · show w.pass.cursor k = _
      split
      · next hk => rw [hk, h.cursor_eq]
      · rfl
    · show List.lookup k ((id, slot) :: w.pass.slots) = _
      rw [List.lookup_cons]
      by_cases hk : k = id
      · simp [hk]
      · simp [hk, beq_false_of_ne hk, Pass.slot?]

/-- The code goes to the entry; only the cursor moves. -/
private theorem points_entered (hbase : base.Numbered) (h : w.HasPoints base points) {id : MethodId}
    (hid : (base.body? id).isSome) (code : List Instruction) :
    (w.entered code id (points id).body).HasPoints base (Function.update points id
      { points id with
        body := (points id).body.splice (points id).cursor code .displaced
        cursor := (points id).cursor + code.length }) := by
  refine h.update hbase hid ?_ (fun k => ?_) (fun k => ?_)
  · rw [Workspace.entered, Workspace.module_counting, h.cursor_eq]
  · show (w.pass.advance code.length id).cursor k = _
    rw [Pass.cursor_advance, h.cursor_eq id]
  · show w.pass.slot? k = _
    split
    · next hk => rw [hk, h.slot?_eq]
    · rfl

/-- The code goes in front of every `ret`; cursor and local stay. -/
private theorem points_exited (hbase : base.Numbered) {id : MethodId} (hid : (base.body? id).isSome) {j : JoinPoint}
    (h : w.HasPoints base (Function.update points id j)) (code : List Instruction) :
    (w.exited code id j.body).HasPoints base (Function.update points id (j.leave code)) := by
  rw [← Function.update_idem j (j.leave code) points]
  refine h.update hbase hid rfl (fun k => ?_) (fun k => ?_)
  · show w.pass.cursor k = _
    split
    · next hk => rw [hk, h.cursor_eq, Function.update_self]; rfl
    · rfl
  · show w.pass.slot? k = _
    split
    · next hk => rw [hk, h.slot?_eq, Function.update_self]; rfl
    · rfl

private theorem points_injectAdvice (hbase : base.Numbered) (h : w.HasPoints base points)
    (hid : (base.body? t.id).isSome) (hy : Yields (injectAdvice a receiver t) w u w') :
    ∃ j, (points t.id).weave t receiver a = some j ∧
      w'.HasPoints base (Function.update points t.id j) ∧ w'.pass.settings = w.pass.settings := by
  obtain ⟨htiming, body, hbody, -, rfl⟩ | ⟨htiming, hbinds, body, hbody, -, rfl⟩ |
    ⟨htiming, hbinds, slot, w₁, body, hslot, hbody, -, rfl⟩ := yields_injectAdvice_iff.1 hy
  · cases (h.body? hid).symm.trans hbody
    exact ⟨_, by rw [JoinPoint.weave, htiming], points_entered hbase h hid _, rfl⟩
  · cases (h.body? hid).symm.trans hbody
    refine ⟨_, by rw [JoinPoint.weave, htiming]; simp [hbinds], points_exited hbase hid ?_ _, rfl⟩
    rwa [Function.update_eq_self]
  · obtain ⟨j, hj, h₁, hsettings⟩ := points_slotOf hbase h hid hslot
    have hbody' := h₁.body? hid
    rw [Function.update_self] at hbody'
    cases hbody'.symm.trans hbody
    exact ⟨_, by rw [JoinPoint.weave, htiming]; simp [hbinds, hj], points_exited hbase hid h₁ _, hsettings⟩

private theorem fails_injectAdvice (h : w.HasPoints base points) (hid : (base.body? t.id).isSome)
    (hf : Fails (injectAdvice a receiver t) w failure w') (hfailure : failure ≠ .overflow) :
    (points t.id).weave t receiver a = none ∧ failure = .localsExhausted t.id ∧ w' = w := by
  obtain ⟨rfl, ⟨hnone, -⟩ | ⟨htakes, hslot, body, hbody, hfull, rfl⟩⟩ :=
    (fails_injectAdvice_iff.1 hf).resolve_right fun h => hfailure h.1
  · cases (h.body? hid).symm.trans hnone
  · cases (h.body? hid).symm.trans hbody
    rw [h.slot?_eq] at hslot
    refine ⟨JoinPoint.weave_eq_none_iff.2 ⟨htakes, (JoinPoint.allot_eq_none_iff t.ret).1 ?_⟩, rfl, rfl⟩
    rw [JoinPoint.allot, hslot, hfull]
    rfl

/-! ### All advice of a marker type -/

private theorem points_forM_injectAdvice (hbase : base.Numbered) {advice : List Advice}
    (h : w.HasPoints base points) (hid : (base.body? t.id).isSome)
    (hy : Yields (forM advice fun a => injectAdvice a receiver t) w u w') :
    ∃ j, advice.foldlM (JoinPoint.weave t receiver) (points t.id) = some j ∧
      w'.HasPoints base (Function.update points t.id j) ∧ w'.pass.settings = w.pass.settings := by
  induction advice generalizing w points with
  | nil =>
    obtain rfl := yields_forM_nil.1 hy
    exact ⟨_, rfl, by rwa [Function.update_eq_self], rfl⟩
  | cons a advice ih =>
    obtain ⟨w₁, ha, hy⟩ := yields_forM_cons.1 hy
    obtain ⟨j₁, hj₁, h₁, hsettings₁⟩ := points_injectAdvice hbase h hid ha
    obtain ⟨j, hj, h', hsettings⟩ := ih h₁ hy
    rw [Function.update_self] at hj
    rw [Function.update_idem] at h'
    refine ⟨j, ?_, h', hsettings.trans hsettings₁⟩
    rw [List.foldlM_cons, hj₁]
    exact hj

/-- Where the pass ends in a target, unless a branch target overflows: some advice has been put in, and what comes next
asks for a local. -/
private theorem points_of_fails_forM (hbase : base.Numbered) {advice : List Advice}
    (h : w.HasPoints base points) (hid : (base.body? t.id).isSome)
    (hf : Fails (forM advice fun a => injectAdvice a receiver t) w failure w') (hlocal : failure ≠ .overflow) :
    ∃ done a rest j, advice = done ++ a :: rest ∧ a.takesResult ∧
      done.foldlM (JoinPoint.weave t receiver) (points t.id) = some j ∧ j.Full ∧
      failure = .localsExhausted t.id ∧ w'.HasPoints base (Function.update points t.id j) := by
  induction advice generalizing w points with
  | nil => exact absurd hf fails_forM_nil
  | cons a advice ih =>
    rcases fails_forM_cons.1 hf with hf | ⟨w₁, ha, hf⟩
    · obtain ⟨hnone, hfailure, rfl⟩ := fails_injectAdvice h hid hf hlocal
      obtain ⟨htakes, hfull⟩ := JoinPoint.weave_eq_none_iff.1 hnone
      exact ⟨[], a, advice, points t.id, rfl, htakes, rfl, hfull, hfailure,
        by rwa [Function.update_eq_self]⟩
    · obtain ⟨j₁, hj₁, h₁, -⟩ := points_injectAdvice hbase h hid ha
      obtain ⟨done, b, rest, j, rfl, htakes, hj, hfull, hfailure, h'⟩ := ih h₁ hf
      rw [Function.update_self] at hj
      rw [Function.update_idem] at h'
      refine ⟨a :: done, b, rest, j, rfl, htakes, ?_, hfull, hfailure, h'⟩
      rw [List.foldlM_cons, hj₁]
      exact hj

private theorem yields_injectAll {m : MarkerType} {handle? : Option Handle} :
    Yields (injectAll m handle? t) w u w' ↔ Yields (forM m.advice fun a =>
      injectAdvice a (receiverOf w.pass.settings.handleStorage handle? t) t) w u w' := by
  rw [injectAll, yields_get_bind]
  rfl

theorem fails_injectAll {m : MarkerType} {handle? : Option Handle} :
    Fails (injectAll m handle? t) w failure w' ↔ Fails (forM m.advice fun a =>
      injectAdvice a (receiverOf w.pass.settings.handleStorage handle? t) t) w failure w' := by
  rw [injectAll, fails_get_bind]
  rfl

/-! ### All targets -/

variable {m : MarkerType} {handle? : Option Handle} {targets : List Target}

/-- The targets of a marker type are distinct, so each of their join points changes once. -/
theorem points_injectTargets (hbase : base.Numbered) (hnodup : (targets.map (·.id)).Nodup)
    (h : w.HasPoints base points) (hbodies : ∀ t ∈ targets, (base.body? t.id).isSome)
    (hy : Yields (forM targets (injectAll m handle?)) w u w') :
    ∃ points', w'.HasPoints base points' ∧
      (∀ t ∈ targets, (points t.id).weaveAll m t
        (receiverOf w.pass.settings.handleStorage handle? t) = some (points' t.id)) ∧
      (∀ id, id ∉ targets.map (·.id) → points' id = points id) ∧
      w'.pass.settings = w.pass.settings := by
  induction targets generalizing w points with
  | nil =>
    obtain rfl := yields_forM_nil.1 hy
    exact ⟨points, h, by simp, fun _ _ => rfl, rfl⟩
  | cons t targets ih =>
    rw [List.map_cons, List.nodup_cons] at hnodup
    obtain ⟨w₁, ht, hy⟩ := yields_forM_cons.1 hy
    obtain ⟨j, hj, h₁, hsettings₁⟩ := points_forM_injectAdvice hbase h
      (hbodies t List.mem_cons_self) (yields_injectAll.1 ht)
    obtain ⟨points', h', htargets, hothers, hsettings⟩ :=
      ih hnodup.2 h₁ (fun t' ht' => hbodies t' (List.mem_cons_of_mem t ht')) hy
    refine ⟨points', h', fun t' ht' => ?_, fun id hid => ?_, hsettings.trans hsettings₁⟩
    · rcases List.mem_cons.1 ht' with rfl | ht'
      · rw [hothers _ hnodup.1, Function.update_self]
        exact hj
      · have hne : t'.id ≠ t.id := fun hid => hnodup.1 (hid ▸ List.mem_map_of_mem ht')
        have := htargets t' ht'
        rwa [Function.update_of_ne hne, hsettings₁] at this
    · rw [List.map_cons, List.mem_cons, not_or] at hid
      rw [hothers id hid.2, Function.update_of_ne hid.1]

/-- Where the pass ends, unless a branch target overflows: the targets in front have all advice, one has the advice in
front of what asks for a local, and the others have none. -/
theorem points_of_fails_injectTargets (hbase : base.Numbered) (hnodup : (targets.map (·.id)).Nodup)
    (h : w.HasPoints base points) (hbodies : ∀ t ∈ targets, (base.body? t.id).isSome)
    (hf : Fails (forM targets (injectAll m handle?)) w failure w') (hlocal : failure ≠ .overflow) :
    ∃ front t back done a rest points', targets = front ++ t :: back ∧ m.advice = done ++ a :: rest ∧
      a.takesResult ∧ (points' t.id).Full ∧ failure = .localsExhausted t.id ∧
      w'.HasPoints base points' ∧
      (∀ t' ∈ front, (points t'.id).weaveAll m t'
        (receiverOf w.pass.settings.handleStorage handle? t') = some (points' t'.id)) ∧
      done.foldlM (JoinPoint.weave t (receiverOf w.pass.settings.handleStorage handle? t))
        (points t.id) = some (points' t.id) ∧
      ∀ id, id ∉ (front ++ [t]).map (·.id) → points' id = points id := by
  induction targets generalizing w points with
  | nil => exact absurd hf fails_forM_nil
  | cons t targets ih =>
    rw [List.map_cons, List.nodup_cons] at hnodup
    rcases fails_forM_cons.1 hf with hf | ⟨w₁, ht, hf⟩
    · obtain ⟨done, a, rest, j, hadvice, htakes, hj, hfull, hfailure, h'⟩ :=
        points_of_fails_forM hbase h (hbodies t List.mem_cons_self) (fails_injectAll.1 hf) hlocal
      refine ⟨[], t, targets, done, a, rest, _, rfl, hadvice, htakes, ?_, hfailure, h', by simp, ?_,
        fun id hid => ?_⟩
      · rwa [Function.update_self]
      · rwa [Function.update_self]
      · rw [Function.update_of_ne (by simpa using hid)]
    · obtain ⟨j, hj, h₁, hsettings₁⟩ := points_forM_injectAdvice hbase h
        (hbodies t List.mem_cons_self) (yields_injectAll.1 ht)
      obtain ⟨front, t₁, back, done, a, rest, points', rfl, hadvice, htakes, hfull, hfailure, h',
        hfront, hlast, hothers⟩ :=
        ih hnodup.2 h₁ (fun t' ht' => hbodies t' (List.mem_cons_of_mem t ht')) hf
      rw [hsettings₁] at hfront hlast
      have hne : ∀ t' ∈ front ++ t₁ :: back, t'.id ≠ t.id := fun t' ht' hid =>
        hnodup.1 (hid ▸ List.mem_map_of_mem ht')
      have ht₁ : t₁.id ≠ t.id := hne t₁ (by simp)
      refine ⟨t :: front, t₁, back, done, a, rest, points', rfl, hadvice, htakes, hfull, hfailure, h',
        fun t' ht' => ?_, ?_, fun id hid => ?_⟩
      · rcases List.mem_cons.1 ht' with rfl | ht'
        · rw [hothers, Function.update_self]
          · exact hj
          · intro hmem
            obtain ⟨t'', ht'', hid⟩ := List.mem_map.1 hmem
            refine hne t'' ?_ hid
            rcases List.mem_append.1 ht'' with ht'' | ht''
            · exact List.mem_append_left _ ht''
            · simp [List.mem_singleton.1 ht'']
        · have := hfront t' ht'
          rwa [Function.update_of_ne (hne t' (List.mem_append_left _ ht'))] at this
      · rwa [Function.update_of_ne ht₁] at hlast
      · rw [List.cons_append, List.map_cons, List.mem_cons, not_or] at hid
        rw [hothers id hid.2, Function.update_of_ne hid.1]

end Weaving

end AdviceWeaving
