import AdviceWeaving.Proofs.Machine

/-!
# Runs of wrapped bodies

The code of a wrapping may make calls, but it leaves the stack, the arguments, the environment and
the locals of the body as they are (`Wrapping.Transparent`).  Then a run of the wrapped body follows
one of the body: it is at the place of an instruction whenever that is at the instruction, and it
comes to a `ret` just if that does (`Wrapping.Transparent.returns_iff`).
-/

namespace AdviceWeaving

variable {V E : Type}

/-! ### Frames that are alike -/

/-- The frame `f'` is as `f`, apart from its locals from `n` on and from calls before and after
those of `f`. -/
structure Frame.Like (n : Nat) (before after : List (Call V)) (f f' : Frame V E) : Prop where
  stack_eq : f'.stack = f.stack
  args_eq : f'.args = f.args
  env_eq : f'.env = f.env
  locals_eq : ∀ k : UInt16, k.toNat < n → f'.locals k = f.locals k
  calls_eq : f'.calls = before ++ f.calls ++ after

namespace Frame.Like

variable {n : Nat} {before after after' : List (Call V)} {f f' f'' : Frame V E}

theorem refl (n : Nat) (f : Frame V E) : f.Like n [] [] f :=
  ⟨rfl, rfl, rfl, fun _ _ => rfl, by simp⟩

theorem trans (h : f.Like n before after f') (h' : f'.Like n [] after' f'') :
    f.Like n before (after ++ after') f'' where
  stack_eq := h'.stack_eq.trans h.stack_eq
  args_eq := h'.args_eq.trans h.args_eq
  env_eq := h'.env_eq.trans h.env_eq
  locals_eq k hk := (h'.locals_eq k hk).trans (h.locals_eq k hk)
  calls_eq := by rw [h'.calls_eq, h.calls_eq]; simp

/-- Calls that have been made come before those that are still to be made. -/
private theorem shift (h : f.Like n [] after f') (hcalls : f.calls = []) : f.Like n after [] f' where
  stack_eq := h.stack_eq
  args_eq := h.args_eq
  env_eq := h.env_eq
  locals_eq := h.locals_eq
  calls_eq := by rw [h.calls_eq, hcalls]; simp

end Frame.Like

namespace Machine

variable {M : Machine V E} {n : Nat} {before : List (Call V)} {f f' : Frame V E} {i : Instruction}

private theorem act_mapTarget (target : UInt64 → UInt64) : M.act (i.mapTarget target) f = M.act i f := by
  cases i with
  | branch op t => simp only [Instruction.mapTarget, act]; cases op <;> rfl
  | _ => rfl

/-- An instruction does the same to frames that are alike, if it reads and writes locals below `n`
only. -/
private theorem act_like (h : f.Like n before [] f') {length args : Nat}
    (hi : i.breach? length n args = none) : (M.act i f).Like n before [] (M.act i f') := by
  obtain ⟨hstack, hargs, henv, hlocals, hcalls⟩ := h
  have hassign (k : UInt16) (vs : List V) (j : UInt16) (hj : j.toNat < n) :
      assign f'.locals k vs j = assign f.locals k vs j := by
    cases vs with
    | nil => exact hlocals j hj
    | cons v vs => simp only [assign, Function.update_apply, hlocals j hj]
  cases i with
  | slot op k =>
    cases op with
    | ldloc =>
      have hk : k.toNat < n := by
        simp only [Instruction.breach?] at hi
        split at hi
        · cases hi
        · omega
      exact ⟨by simp only [act, hstack, hlocals k hk], hargs, henv, hlocals, hcalls⟩
    | stloc =>
      refine ⟨by simp only [act, hstack], hargs, henv, ?_, hcalls⟩
      simp only [act, hstack]
      exact hassign k _
    | ldarg => exact ⟨by simp only [act, hstack, hargs], hargs, henv, hlocals, hcalls⟩
    | starg =>
      exact ⟨by simp only [act, hstack], by simp only [act, hstack, hargs], henv, hlocals, hcalls⟩
  | simple op =>
    cases op <;>
      exact ⟨by simp only [act, hstack, henv], hargs, by simp only [act, hstack, henv], hlocals,
        hcalls⟩
  | field op sig =>
    exact ⟨by simp only [act, hstack, henv], hargs, by simp only [act, hstack, henv], hlocals,
      hcalls⟩
  | call op sig =>
    refine ⟨by simp only [act, hstack, henv], hargs, by simp only [act, hstack, henv], hlocals, ?_⟩
    simp only [act, hstack, hcalls, List.append_nil, List.append_assoc]
  | _ => exact ⟨by simp only [act, hstack], hargs, henv, hlocals, hcalls⟩

private theorem next_like (h : f.Like n before [] f') (index : Nat) :
    M.next i index f' = M.next i index f := by
  cases i with
  | branch op target => simp only [next, h.stack_eq, h.env_eq]
  | _ => rfl

/-- In a wrapping, control goes to the place where it went before. -/
private theorem next_place {w : Wrapping} {code : List Instruction} {index : Nat}
    (hi : code[index]? = some i) (hr : i.isReturn = false) (hfits : w.Fits code) :
    M.next (i.mapTarget fun target => UInt64.ofNat (w.place code target.toNat))
        (w.place code index) f =
      w.place code (M.next i index f) := by
  have hsucc := Wrapping.place_succ_of_not_isReturn (w := w) hi hr
  cases i with
  | branch op target =>
    have htarget := UInt64.toNat_ofNat_of_lt' (hfits _ (List.mem_of_getElem? hi) target rfl)
    have hfalls : (Instruction.branch op (UInt64.ofNat (w.place code target.toNat))).fallsThrough =
        (Instruction.branch op target).fallsThrough := by cases op <;> rfl
    have heffect : (Instruction.branch op (UInt64.ofNat (w.place code target.toNat))).stackEffect =
        (Instruction.branch op target).stackEffect := by cases op <;> rfl
    simp only [Instruction.mapTarget, next, hfalls, heffect, htarget]
    split
    · exact hsucc.symm
    · rfl
  | _ => exact hsucc.symm

end Machine

/-! ### Wrappings that are transparent -/

/-- The code of a wrapping makes calls, and leaves all else as it is, the locals from `n` on apart;
the code on exit does so where the stack has the depth `expected`. -/
structure Wrapping.Transparent (w : Wrapping) (M : Machine V E) (n expected : Nat)
    (before : (UInt16 → V) → E → List (Call V))
    (after : List V → (UInt16 → V) → E → List (Call V)) : Prop where
  entry : ∀ f, ∃ f', M.exec w.entry f = some f' ∧ f.Like n [] (before f.args f.env) f'
  exit : ∀ f, f.stack.length = expected →
    ∃ f', M.exec w.exit f = some f' ∧ f.Like n [] (after f.stack f.args f.env) f'

namespace Wrapping.Transparent

variable {M : Machine V E} {w : Wrapping} {code : List Instruction} {n expected args index : Nat}
  {before : (UInt16 → V) → E → List (Call V)} {after : List V → (UInt16 → V) → E → List (Call V)}
  {At : Nat → Nat → Prop} {calls : List (Call V)} {f f' g g' : Frame V E}

/-- A run of the body leads to one of the wrapped body. -/
private theorem exists_returns (h : w.Transparent M n expected before after) (hplain : Plain w.exit)
    (hfits : w.Fits code) (hdepths : Depths code expected At)
    (hoperands : ∀ i ∈ code, i.breach? code.length n args = none)
    (hreturns : M.Returns code index f g) (hat : At index f.stack.length)
    (hlike : f.Like n calls [] f') :
    ∃ g', M.Returns (w.code code) (w.place code index) f' g' ∧
      g.Like n calls (after g.stack g.args g.env) g' := by
  induction hreturns generalizing f' with
  | @ret index f i hi hr =>
    -- at a `ret`, the code on exit runs first
    have hret : M.Returns code index f f := .ret hi hr
    have hlength : f'.stack.length = expected := by
      rw [hlike.stack_eq]
      exact hret.length_stack hdepths hat
    obtain ⟨g', hexec, hexit⟩ := h.exit f' hlength
    have hblock := fun k hk => code_block (w := w) (k := k) hi hk
    rw [block_of_isReturn hr, List.length_append, List.length_singleton] at hblock
    refine ⟨g', (Machine.returns_exec hplain (fun k hk => ?_) hexec).2 (.ret (i := i) ?_ hr), ?_⟩
    · rw [hblock k (by omega), List.getElem?_append_left hk]
    · rw [hblock _ (by omega)]
      simp
    · rw [hlike.stack_eq, hlike.args_eq, hlike.env_eq] at hexit
      exact hlike.trans hexit
  | @step index f g i hi hr hpops _ ih =>
    obtain ⟨i', hi', hbalanced⟩ := hdepths.balanced hat
    obtain rfl : i = i' := Option.some.inj (hi.symm.trans hi')
    -- any other instruction stands at its place, with its target moved
    have hat' : At (M.next i index f) (M.act i f).stack.length := by
      rw [Machine.length_act hr hpops]
      exact hbalanced.continues hr _ (Machine.next_mem_nexts hr)
    have halike := Machine.act_like (M := M) hlike (hoperands i (List.mem_of_getElem? hi))
    obtain ⟨g', hrest, hg'⟩ := ih hat' halike
    refine ⟨g', .step (code_of_not_isReturn hi hr) (by simpa using hr) ?_ ?_, hg'⟩
    · rw [Instruction.stackEffect_mapTarget, hlike.stack_eq]
      exact hpops
    · rw [Machine.act_mapTarget, Machine.next_place hi hr hfits, Machine.next_like hlike]
      exact hrest

/-- A run of the wrapped body from a place comes from one of the body. -/
private theorem returns_of_place (hfits : w.Fits code) (hdepths : Depths code expected At)
    (hoperands : ∀ i ∈ code, i.breach? code.length n args = none)
    (hreturns : M.Returns (w.code code) (w.place code index) f' g') (hat : At index f.stack.length)
    (hlike : f.Like n calls [] f') : ∃ g, M.Returns code index f g := by
  generalize hplace : w.place code index = start at hreturns
  induction hreturns generalizing index f with
  | ret hi hr =>
    obtain ⟨i, hi', _⟩ := hdepths.balanced hat
    cases hr' : i.isReturn with
    | true => exact ⟨f, .ret hi' hr'⟩
    | false =>
      have hstands := code_of_not_isReturn (w := w) hi' hr'
      rw [hplace, hi] at hstands
      rw [Option.some.inj hstands, Instruction.isReturn_mapTarget, hr'] at hr
      cases hr
  | step hi hr hpops _ ih =>
    obtain ⟨i, hi', hbalanced⟩ := hdepths.balanced hat
    cases hr' : i.isReturn with
    | true => exact ⟨f, .ret hi' hr'⟩
    | false =>
      have hstands := code_of_not_isReturn (w := w) hi' hr'
      rw [hplace, hi] at hstands
      obtain rfl := Option.some.inj hstands
      rw [Instruction.stackEffect_mapTarget, hlike.stack_eq] at hpops
      have hat' : At (M.next i index f) (M.act i f).stack.length := by
        rw [Machine.length_act hr' hpops]
        exact hbalanced.continues hr' _ (Machine.next_mem_nexts hr')
      have halike := Machine.act_like (M := M) hlike (hoperands i (List.mem_of_getElem? hi'))
      rw [Machine.act_mapTarget] at ih
      obtain ⟨g, hg⟩ := ih hat' halike (by
        rw [← hplace, Machine.next_place hi' hr' hfits, Machine.next_like hlike])
      exact ⟨g, .step hi' hr' hpops hg⟩

/-- A wrapped body comes to a `ret` just if the body does, and then with the same outcome. -/
theorem returns_iff (h : w.Transparent M n expected before after) (hentry : Plain w.entry)
    (hplain : Plain w.exit) (hfits : w.Fits code) (hdepths : Depths code expected At)
    (hoperands : ∀ i ∈ code, i.breach? code.length n args = none) (hlike : f.Like n [] [] f')
    (hstack : f.stack = []) (hcalls : f.calls = []) :
    ((∃ g', M.Returns (w.code code) 0 f' g') ↔ ∃ g, M.Returns code 0 f g) ∧
      ∀ g g', M.Returns code 0 f g → M.Returns (w.code code) 0 f' g' →
        g.stack.length = expected ∧
          g.Like n (before f.args f.env) (after g.stack g.args g.env) g' := by
  obtain ⟨f'', hexec, hlike'⟩ := h.entry f'
  have hstart : f.Like n (before f.args f.env) [] f'' := by
    rw [hlike.args_eq, hlike.env_eq] at hlike'
    exact (hlike.trans hlike').shift hcalls
  have hstands : ∀ k < w.entry.length, (w.code code)[0 + k]? = w.entry[k]? := by
    intro k hk
    rw [Nat.zero_add]
    exact code_entry hk
  -- behind the code on entry the run is at the place of the first instruction
  have hbehind (g' : Frame V E) : M.Returns (w.code code) 0 f' g' ↔
      M.Returns (w.code code) (w.place code 0) f'' g' := by
    rw [Machine.returns_exec hentry hstands hexec, Nat.zero_add, place_zero]
  have hat : At 0 f.stack.length := by rw [hstack]; exact hdepths.start
  refine ⟨⟨?_, ?_⟩, ?_⟩
  · rintro ⟨g', hg'⟩
    exact returns_of_place hfits hdepths hoperands ((hbehind g').1 hg') hat hstart
  · rintro ⟨g, hg⟩
    obtain ⟨g', hg', _⟩ := h.exists_returns hplain hfits hdepths hoperands hg hat hstart
    exact ⟨g', (hbehind g').2 hg'⟩
  · intro g g' hg hg'
    obtain ⟨g'', hg'', houtcome⟩ := h.exists_returns hplain hfits hdepths hoperands hg hat hstart
    obtain rfl := ((hbehind g').1 hg').unique hg''
    exact ⟨hg.length_stack hdepths hat, houtcome⟩

end Wrapping.Transparent

end AdviceWeaving
