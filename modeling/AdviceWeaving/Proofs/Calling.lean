import AdviceWeaving.Proofs.Simulation
import AdviceWeaving.Proofs.Calls

/-!
# Running the code of advice

The code of advice puts the receiver and the parameters on the stack, makes one call, and takes away
what the call leaves; advice that gets the return value of its target puts it back on the stack.
Besides the call only the environment changes, and even that stays as it is if the instructions are
silent (`Machine.exec_entryCode`, `Machine.exec_exitCode`).
-/

namespace AdviceWeaving

variable {V E : Type} {M : Machine V E}

/-! ### The calls of advice -/

/-- The receiver of advice: what the field of the handle holds. -/
def Machine.handle (M : Machine V E) (storage : HandleStorage) (field : FieldSig) (t : Target)
    (args : UInt16 → V) (env : E) : List V :=
  match storage with
  | .perInstance => (M.result (.field .ldfld field) [if t.isStatic then M.null else args 0] env).1
  | .shared => (M.result (.field .ldsfld field) [] env).1

/-- The receiver on which the advice of a marker type is called, if some advice is called on one. -/
def Machine.receiver (M : Machine V E) (storage : HandleStorage) (t : Target) (a : Admission)
    (args : UInt16 → V) (env : E) : List V :=
  a.handle?.elim [] fun field => M.handle storage field t args env

/-- The call of entry advice: every parameter gets the name of the target. -/
def Machine.entryCall (M : Machine V E) (storage : HandleStorage) (t : Target) (args : UInt16 → V)
    (env : E) (p : Admission × Advice) : Call V :=
  ⟨.call, p.2.call, M.receiver storage t p.1 args env ++ p.2.bindings.map fun _ => M.string t.name⟩

/-- What a parameter of exit advice gets, when the stack at `ret` is `stack`. -/
def Machine.passed (M : Machine V E) (t : Target) (stack : List V) (b : Binding) : V :=
  if b.source = some .targetReturnValue then stack.head?.getD M.null else M.string t.name

/-- The call of exit advice. -/
def Machine.exitCall (M : Machine V E) (storage : HandleStorage) (t : Target) (stack : List V)
    (args : UInt16 → V) (env : E) (p : Admission × Advice) : Call V :=
  ⟨.call, p.2.call, M.receiver storage t p.1 args env ++ p.2.bindings.map (M.passed t stack)⟩

/-- The call of the hidden method in a constructor. -/
def Outline.prologueCalls (o : Outline) (p : Profile) (args : UInt16 → V) : List (Call V) :=
  if p.target.isConstructor && o.initializes p.owner then
    [⟨.call, initializerSig p.target.owner, [args 0]⟩] else []

/-! ### Running the code of advice -/

namespace Machine

variable {storage : HandleStorage} {field : FieldSig} {t : Target} {f : Frame V E} {a : Advice}

/-- Code that puts values on the stack and does nothing else. -/
private theorem exec_pushes {α : Type} (code : α → Instruction) (value : α → V) {l : List α} {f : Frame V E}
    (h : ∀ x ∈ l, ∀ stack, (code x).stackEffect.pops = 0 ∧
      M.act (code x) { f with stack } = { f with stack := value x :: stack }) :
    M.exec (l.map code) f = some { f with stack := (l.map value).reverse ++ f.stack } := by
  induction l generalizing f with
  | nil => rfl
  | cons x l ih =>
    obtain ⟨hpops, hact⟩ := h x List.mem_cons_self f.stack
    have htail := fun y hy => h y (List.mem_cons_of_mem _ hy)
    have hrest := ih (f := { f with stack := value x :: f.stack }) htail
    rw [List.map_cons, exec, hpops, if_pos (Nat.zero_le _), hact, hrest]
    simp

theorem length_handle (args : UInt16 → V) (env : E) :
    (M.handle storage field t args env).length = 1 := by
  cases storage <;> exact M.length_result _ _ _

theorem exec_loadHandle (storage : HandleStorage) (field : FieldSig) (t : Target) (f : Frame V E) :
    ∃ env, M.exec (loadHandle storage field t) f =
        some { f with stack := (M.handle storage field t f.args f.env).reverse ++ f.stack, env } ∧
      ((∀ i ∈ loadHandle storage field t, M.Silent i) → env = f.env) := by
  have hreverse : (M.handle storage field t f.args f.env).reverse =
      M.handle storage field t f.args f.env := by
    have hlength : (M.handle storage field t f.args f.env).length = 1 := length_handle f.args f.env
    obtain ⟨v, hv⟩ := List.length_eq_one_iff.1 hlength
    rw [hv]
    rfl
  rw [hreverse]
  cases storage with
  | shared => exact ⟨_, rfl, fun hsilent => hsilent (.field .ldsfld field) (by simp [loadHandle]) f⟩
  | perInstance =>
    have hload : M.exec [if t.isStatic then Instruction.simple .ldnull else .slot .ldarg 0] f =
        some { f with stack := (if t.isStatic then M.null else f.args 0) :: f.stack } := by
      cases t.isStatic <;> rfl
    refine ⟨_, ?_, fun hsilent => hsilent (.field .ldfld field) (by simp [loadHandle])
      { f with stack := (if t.isStatic then M.null else f.args 0) :: f.stack }⟩
    show M.exec ([if t.isStatic then Instruction.simple .ldnull else .slot .ldarg 0] ++
      [.field .ldfld field]) f = _
    rw [exec_append, hload, Option.bind_some]
    rfl

/-- A call takes its operands and is noted; what it leaves is taken away. -/
private theorem exec_callCode (hdeclared : a.Declared) (operands : List V)
    (hlength : operands.length = a.bindings.length + (!a.isStatic).toNat) (f : Frame V E) :
    ∃ env, M.exec a.callCode { f with stack := operands.reverse ++ f.stack } =
        some { f with env, calls := f.calls ++ [⟨.call, a.call, operands⟩] } ∧
      ((∀ i ∈ a.callCode, M.Silent i) → env = f.env) := by
  have heffect : (Instruction.call .call a.call).stackEffect =
      ⟨operands.reverse.length, (!a.ret.isVoid).toNat⟩ := by
    rw [List.length_reverse, hlength]
    simp [Instruction.stackEffect, hdeclared.params_eq, hdeclared.onInstance_eq, hdeclared.ret_eq]
  have hresult := M.length_result (.call .call a.call) operands.reverse f.env
  rw [heffect] at hresult
  have hcall : M.act (.call .call a.call) { f with stack := operands.reverse ++ f.stack } =
      { f with
        stack := (M.result (.call .call a.call) operands.reverse f.env).1 ++ f.stack
        env := (M.result (.call .call a.call) operands.reverse f.env).2
        calls := f.calls ++ [⟨.call, a.call, operands⟩] } := by
    simp only [act, heffect, List.take_left, List.drop_left, List.reverse_reverse]
  refine ⟨(M.result (.call .call a.call) operands.reverse f.env).2, ?_, fun hsilent => ?_⟩
  · rw [Advice.callCode, exec, heffect, if_pos (by simp), hcall]
    -- what the call leaves, if anything, is popped
    cases hvoid : a.ret.isVoid with
    | true =>
      rw [hvoid] at hresult
      rw [List.eq_nil_of_length_eq_zero hresult]
      rfl
    | false =>
      rw [hvoid] at hresult
      obtain ⟨v, hv⟩ := List.length_eq_one_iff.1 hresult
      rw [hv]
      rfl
  · have henv := hsilent (.call .call a.call) (by simp [Advice.callCode])
        { f with stack := operands.reverse ++ f.stack }
    rwa [hcall] at henv

section Code

variable {receiver : List Instruction} {values : List V} {env : E}

theorem exec_entryCode (hdeclared : a.Declared) (hlength : values.length = (!a.isStatic).toNat)
    (hreceiver : M.exec receiver f = some { f with stack := values.reverse ++ f.stack, env }) :
    ∃ env', M.exec (a.entryCode receiver t) f = some { f with
        env := env'
        calls := f.calls ++ [⟨.call, a.call, values ++ a.bindings.map fun _ => M.string t.name⟩] } ∧
      ((∀ i ∈ a.callCode, M.Silent i) → env' = env) := by
  have hloads := exec_pushes (M := M) (l := a.bindings)
    (f := { f with stack := values.reverse ++ f.stack, env })
    (fun _ => .ldstr t.name) (fun _ => M.string t.name) fun _ _ _ => ⟨rfl, rfl⟩
  obtain ⟨env', hcall, hsilent⟩ := exec_callCode (M := M) hdeclared
    (values ++ a.bindings.map fun _ => M.string t.name) (by simp [hlength]; omega) { f with env }
  rw [List.reverse_append, List.append_assoc] at hcall
  refine ⟨env', ?_, hsilent⟩
  rw [Advice.entryCode, exec_append, exec_append, hreceiver, Option.bind_some, hloads,
    Option.bind_some]
  exact hcall

/-- What exit advice does between taking the return value off the stack, if it gets it, and putting
it back. -/
private theorem exec_exitCall (hdeclared : a.Declared)
    (hlength : values.length = (!a.isStatic).toNat) (slot? : Option UInt16) (passed : Binding → V)
    (hpassed : ∀ b ∈ a.bindings, b.load t slot? = .ldstr t.name ∧ passed b = M.string t.name ∨
      ∃ slot, b.load t slot? = .slot .ldloc slot ∧ passed b = f.locals slot)
    (hreceiver : M.exec receiver f = some { f with stack := values.reverse ++ f.stack, env }) :
    ∃ env', M.exec (receiver ++ a.bindings.map (·.load t slot?) ++ a.callCode) f = some { f with
        env := env'
        calls := f.calls ++ [⟨.call, a.call, values ++ a.bindings.map passed⟩] } ∧
      ((∀ i ∈ a.callCode, M.Silent i) → env' = env) := by
  have hpushes : ∀ b ∈ a.bindings, ∀ stack, (b.load t slot?).stackEffect.pops = 0 ∧
      M.act (b.load t slot?) { f with stack, env } =
        { f with stack := passed b :: stack, env } := by
    intro b hb stack
    rcases hpassed b hb with ⟨hload, hvalue⟩ | ⟨slot, hload, hvalue⟩
    · rw [hload, hvalue]
      exact ⟨rfl, rfl⟩
    · rw [hload, hvalue]
      exact ⟨rfl, rfl⟩
  have hloads := exec_pushes (M := M) (l := a.bindings)
    (f := { f with stack := values.reverse ++ f.stack, env }) (·.load t slot?) passed hpushes
  obtain ⟨env', hcall, hsilent⟩ := exec_callCode (M := M) hdeclared
    (values ++ a.bindings.map passed) (by simp [hlength]; omega) { f with env }
  rw [List.reverse_append, List.append_assoc] at hcall
  refine ⟨env', ?_, hsilent⟩
  rw [exec_append, exec_append, hreceiver, Option.bind_some, hloads, Option.bind_some]
  exact hcall

theorem exec_exitCode (hdeclared : a.Declared) (slot : UInt16)
    (hlength : values.length = (!a.isStatic).toNat)
    (hstack : a.binds .targetReturnValue → f.stack ≠ [])
    (hreceiver : ∀ stack locals, ∃ env, M.exec receiver { f with stack, locals } =
        some { f with stack := values.reverse ++ stack, locals, env } ∧
      ((∀ i ∈ receiver, M.Silent i) → env = f.env)) :
    ∃ env' locals,
      M.exec (a.exitCode receiver t (if a.binds .targetReturnValue then some slot else none)) f =
        some { f with
          locals
          env := env'
          calls := f.calls ++ [⟨.call, a.call, values ++ a.bindings.map (M.passed t f.stack)⟩] } ∧
      ((∀ i ∈ receiver ++ a.callCode, M.Silent i) → env' = f.env) ∧
      ∀ k, (a.binds .targetReturnValue → k ≠ slot) → locals k = f.locals k := by
  cases hbinds : a.binds .targetReturnValue with
  | false =>
    -- no parameter gets the return value, so it stays on the stack
    have hnone : ∀ b ∈ a.bindings, b.source ≠ some .targetReturnValue := by
      simpa [Advice.binds] using hbinds
    have hpassed : ∀ b ∈ a.bindings,
        b.load t none = .ldstr t.name ∧ M.passed t f.stack b = M.string t.name := by
      intro b hb
      exact ⟨by cases hs : b.source <;> simp [Binding.load, hs], if_neg (hnone b hb)⟩
    obtain ⟨env, hreceiver, henv⟩ := hreceiver f.stack f.locals
    obtain ⟨env', hcall, henv'⟩ := exec_exitCall hdeclared hlength none (M.passed t f.stack)
      (fun b hb => .inl (hpassed b hb)) hreceiver
    refine ⟨env', f.locals, by simpa [Advice.exitCode] using hcall, fun hsilent => ?_,
      fun _ _ => rfl⟩
    exact (henv' fun i hi => hsilent i (List.mem_append_right _ hi)).trans
      (henv fun i hi => hsilent i (List.mem_append_left _ hi))
  | true =>
    -- the return value waits in the local while the advice is called
    obtain ⟨v, rest, hv⟩ := List.exists_cons_of_ne_nil (hstack hbinds)
    have hstore : M.exec [.slot .stloc slot] f =
        some { f with stack := rest, locals := Function.update f.locals slot v } := by
      simp [exec, act, hv, Instruction.stackEffect, assign]
    have hpassed : ∀ b ∈ a.bindings,
        b.load t (some slot) = .ldstr t.name ∧ M.passed t f.stack b = M.string t.name ∨
          ∃ k, b.load t (some slot) = .slot .ldloc k ∧
            M.passed t f.stack b = Function.update f.locals slot v k := by
      intro b _
      by_cases hs : b.source = some .targetReturnValue
      · exact .inr ⟨slot, by simp [Binding.load, hs], by simp [passed, hs, hv]⟩
      · exact .inl ⟨by unfold Binding.load; split <;> simp_all, if_neg hs⟩
    obtain ⟨env, hreceiver, henv⟩ := hreceiver rest (Function.update f.locals slot v)
    obtain ⟨env', hcall, henv'⟩ := exec_exitCall
      (f := { f with stack := rest, locals := Function.update f.locals slot v }) hdeclared hlength
      (some slot) (M.passed t f.stack) hpassed hreceiver
    have hcode : a.exitCode receiver t (some slot) =
        [.slot .stloc slot] ++ (receiver ++ a.bindings.map (·.load t (some slot)) ++ a.callCode) ++
          [.slot .ldloc slot] := by
      simp [Advice.exitCode]
    refine ⟨env', Function.update f.locals slot v, ?_, fun hsilent => ?_,
      fun k hk => Function.update_of_ne (hk rfl) _ _⟩
    · rw [if_pos rfl, hcode, exec_append, exec_append, hstore, Option.bind_some, hcall,
        Option.bind_some]
      simp [exec, act, hv, Instruction.stackEffect]
    · exact (henv' fun i hi => hsilent i (List.mem_append_right _ hi)).trans
        (henv fun i hi => hsilent i (List.mem_append_left _ hi))

end Code

/-- Pieces of code that make one call each. -/
theorem exec_flatMap {α : Type} {code : α → List Instruction}
    (call : α → List V → (UInt16 → V) → E → Call V) (OK : List V → Prop) {n : Nat} {l : List α}
    (h : ∀ x ∈ l, ∀ f : Frame V E, OK f.stack →
      ∃ f', M.exec (code x) f = some f' ∧ f.Like n [] [call x f.stack f.args f.env] f')
    (f : Frame V E) (hf : OK f.stack) :
    ∃ f', M.exec (l.flatMap code) f = some f' ∧
      f.Like n [] (l.map (call · f.stack f.args f.env)) f' := by
  induction l generalizing f with
  | nil => exact ⟨f, rfl, .refl n f⟩
  | cons x l ih =>
    obtain ⟨f', hexec, hlike⟩ := h x List.mem_cons_self f hf
    obtain ⟨f'', hexec', hlike'⟩ := ih (fun y hy => h y (List.mem_cons_of_mem _ hy)) f'
      (hlike.stack_eq ▸ hf)
    rw [hlike.stack_eq, hlike.args_eq, hlike.env_eq] at hlike'
    exact ⟨f'', by rw [List.flatMap_cons, exec_append, hexec, Option.bind_some, hexec'],
      hlike.trans hlike'⟩

theorem length_receiver (storage : HandleStorage) (t : Target) (a : Admission) (args : UInt16 → V)
    (env : E) : (M.receiver storage t a args env).length = a.handle?.isSome.toNat := by
  cases h : a.handle? with
  | none => simp [receiver, h]
  | some field => simp [receiver, h, length_handle]

theorem exec_receiver (storage : HandleStorage) (t : Target) (a : Admission) (f : Frame V E) :
    ∃ env, M.exec (a.receiver storage t) f =
        some { f with stack := (M.receiver storage t a f.args f.env).reverse ++ f.stack, env } ∧
      ((∀ i ∈ a.receiver storage t, M.Silent i) → env = f.env) := by
  cases h : a.handle? with
  | none => exact ⟨f.env, by simp [Admission.receiver, receiver, h, exec], fun _ => rfl⟩
  | some field =>
    simp only [Admission.receiver, receiver, h, Option.elim_some]
    exact exec_loadHandle storage field t f

/-- A constructor calls the hidden method of its type on itself. -/
theorem exec_prologue {o : Outline} {p : Profile} (hsilent : ∀ i ∈ o.prologue p, M.Silent i)
    (n : Nat) (f : Frame V E) :
    ∃ f', M.exec (o.prologue p) f = some f' ∧ f.Like n [] (o.prologueCalls p f.args) f' := by
  unfold Outline.prologue at hsilent ⊢
  unfold Outline.prologueCalls
  split
  · next hnew =>
    rw [if_pos hnew] at hsilent
    have henv := hsilent (.call .call (initializerSig p.target.owner)) (by simp [initializerCall])
      { f with stack := f.args 0 :: f.stack }
    have hresult :
        (M.result (.call .call (initializerSig p.target.owner)) [f.args 0] f.env).1 = [] :=
      List.eq_nil_of_length_eq_zero (M.length_result _ _ _)
    refine ⟨_, rfl, ?_, rfl, henv, fun _ _ => rfl,
      by simp [act, initializerSig, Instruction.stackEffect]⟩
    show (M.result (.call .call (initializerSig p.target.owner)) [f.args 0] f.env).1 ++ f.stack =
      f.stack
    rw [hresult]
    rfl
  · exact ⟨f, rfl, .refl n f⟩

end Machine

end AdviceWeaving
