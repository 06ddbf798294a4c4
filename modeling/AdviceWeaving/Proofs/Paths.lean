import AdviceWeaving.Proofs.Flow

/-!
# Paths of control

A path of control starts at the first instruction of a body with an empty stack, and goes on to the
next instruction or along a branch into the body; the instructions that it passes change the depth
of the stack (`Arrives`).  There may be infinitely many paths, and verification looks at every
instruction once.  Yet its answer is exact: it finds nothing in a body just if all paths are safe
(`Body.stackFindings_eq_nil_iff`), and nothing else decides whether an obligation is kept
(`Method.verification_is_exact`).
-/

namespace AdviceWeaving

/-! ### Paths -/

/-- Control goes from the instruction at `index` of a body of `length` instructions to the one at
`next`: to the one behind it, or along its branch. -/
inductive Instruction.Leads (i : Instruction) (length index : Nat) : Nat → Prop
  | fallThrough : i.fallsThrough → index + 1 < length → i.Leads length index (index + 1)
  | branch {target : UInt64} : i.target? = some target → target.toNat < length →
      i.Leads length index target.toNat

/-- Some finite path of control leads to the instruction at `index`, and the instructions that it
passes turn the empty stack into one of `depth` values.  The depth is less than zero if they take
more than is there. -/
inductive Arrives (code : List Instruction) : Nat → Int → Prop
  | start : Arrives code 0 0
  | step {index next : Nat} {depth : Int} {i : Instruction} : Arrives code index depth →
      code[index]? = some i → i.Leads code.length index next →
      Arrives code next (depth - i.stackEffect.pops + i.stackEffect.pushes)

/-- On all paths of control through a body, whose `ret` leaves `expected` values, the stack is as it
has to be. -/
structure Body.PathSafe (b : Body) (expected : Nat) : Prop where
  code_ne_nil : b.code ≠ []
  unique : ∀ {index depth depth'}, Arrives b.code index depth → Arrives b.code index depth' →
    depth = depth'
  pops_le : ∀ {index depth i}, Arrives b.code index depth → b.code[index]? = some i →
    (i.stackEffect.pops : Int) ≤ depth
  returns : ∀ {index depth i}, Arrives b.code index depth → b.code[index]? = some i →
    i.isReturn → depth = expected
  stays : ∀ {index depth i}, Arrives b.code index depth → b.code[index]? = some i →
    i.fallsThrough → index + 1 < b.code.length

theorem Instruction.leads_iff {i : Instruction} {length index next : Nat} :
    i.Leads length index next ↔ next ∈ i.successors length index := by
  simp only [successors, List.mem_append, List.mem_filter, decide_eq_true_eq]
  constructor
  · rintro (⟨hfalls, hlt⟩ | ⟨htarget, hlt⟩)
    · exact .inl (by rw [if_pos ⟨hfalls, hlt⟩]; exact List.mem_singleton.2 rfl)
    · exact .inr ⟨by simp [htarget], hlt⟩
  · rintro (h | ⟨h, hlt⟩)
    · split at h
      · next hstays => rw [List.mem_singleton.1 h]; exact .fallThrough hstays.1 hstays.2
      · cases h
    · obtain ⟨target, htarget, rfl⟩ := Option.map_eq_some_iff.1 (Option.mem_toList.1 h)
      exact .branch htarget hlt

theorem Arrives.lt_length {code : List Instruction} {index : Nat} {depth : Int}
    (h : Arrives code index depth) (hcode : code ≠ []) : index < code.length := by
  cases h with
  | start => exact List.length_pos_iff.2 hcode
  | step _ _ hleads =>
    cases hleads with
    | fallThrough _ hlt => exact hlt
    | branch _ hlt => exact hlt

/-- The depth behind an instruction that takes no more than is there. -/
theorem Instruction.depth_eq {i : Instruction} {depth : Nat} (h : i.stackEffect.pops ≤ depth) :
    (depth : Int) - i.stackEffect.pops + i.stackEffect.pushes =
      ((depth - i.stackEffect.pops + i.stackEffect.pushes : Nat) : Int) := by
  omega

section

variable {code : List Instruction} {expected index depth fuel : Nat} {f : Flow}

/-! ### A flow without findings knows all paths -/

/-- The depths of a settled flow, in which nothing is pending, are those of all paths. -/
private theorem Flow.Settled.exists_depth? (h : f.Settled code expected) (hpending : f.pending = [])
    (hstart : f.depth? 0 = some 0) {depth : Int} (harrives : Arrives code index depth) :
    ∃ d : Nat, depth = d ∧ f.depth? index = some d ∧ ∃ i, code[index]? = some i ∧
      i.Steady code.length expected (fun j d => f.depth? j = some d) index d := by
  have hsettled {index d : Nat} (hd : f.depth? index = some d) :=
    (h.settled hd).resolve_left (by rw [hpending]; exact List.not_mem_nil)
  induction harrives with
  | start => exact ⟨0, rfl, hstart, hsettled hstart⟩
  | step _ hi hleads ih =>
    obtain ⟨d, rfl, _, i, hi', hsteady⟩ := ih
    obtain rfl := Option.some.inj (hi'.symm.trans hi)
    have hnext := hsteady.continues _ (Instruction.leads_iff.1 hleads)
    exact ⟨_, Instruction.depth_eq hsteady.pops_le, hnext, hsettled hnext⟩

private theorem Body.pathSafe_of_stackFindings {b : Body} (h : b.stackFindings expected = []) :
    b.PathSafe expected := by
  have hcode : b.code ≠ [] := by
    intro hnil
    simp [stackFindings, hnil] at h
  rw [stackFindings_eq hcode] at h
  have hpos := length_pos_of_ne_nil hcode
  have hsettled : (b.flow expected b.code.length).Settled b.code expected :=
    (Flow.settled_start hpos expected).followAll h
  have hstart : (b.flow expected b.code.length).depth? 0 = some 0 :=
    (Flow.followAll_mono (Flow.size_start _)).2.2 (by rw [Flow.depth?_start hpos]; rfl)
  have hknown {index : Nat} {depth : Int} (harrives : Arrives b.code index depth) :=
    hsettled.exists_depth? (pending_flow hcode) hstart harrives
  refine ⟨hcode, fun h₁ h₂ => ?_, fun h₁ hi => ?_, fun h₁ hi hr => ?_, fun h₁ hi hfalls => ?_⟩
  · obtain ⟨d₁, rfl, hd₁, _⟩ := hknown h₁
    obtain ⟨d₂, rfl, hd₂, _⟩ := hknown h₂
    rw [Option.some.inj (hd₁.symm.trans hd₂)]
  all_goals
    obtain ⟨d, rfl, _, i, hi', hsteady⟩ := hknown h₁
    obtain rfl := Option.some.inj (hi'.symm.trans hi)
  · exact_mod_cast hsteady.pops_le
  · exact_mod_cast hsteady.returns hr
  · exact hsteady.stays hfalls

/-! ### Nothing is found on safe paths -/

/-- Nothing is found, and the depths that are known are those of paths. -/
structure Flow.Agrees (f : Flow) (code : List Instruction) : Prop where
  findings : f.findings = []
  depth : ∀ {index depth : Nat}, f.depth? index = some depth → Arrives code index depth

variable {b : Body}

private theorem Flow.Agrees.reach (h : f.Agrees b.code) (hsafe : b.PathSafe expected)
    (harrives : Arrives b.code index depth) : (f.reach depth index).Agrees b.code := by
  unfold Flow.reach
  cases hd : f.depth? index with
  | none =>
    refine ⟨h.findings, fun {j d} hj => ?_⟩
    rw [Flow.depth?_set] at hj
    split at hj
    · next hij => rw [← hij.1, ← Option.some.inj hj]; exact harrives
    · exact h.depth hj
  | some seen =>
    have hseen : (seen : Int) = depth := hsafe.unique (h.depth hd) harrives
    simp only
    rw [if_pos (by exact_mod_cast hseen)]
    exact h

private theorem Flow.Agrees.foldl_reach {js : List Nat} (h : f.Agrees b.code) (hsafe : b.PathSafe expected)
    (hjs : ∀ j ∈ js, Arrives b.code j depth) : (js.foldl (·.reach depth) f).Agrees b.code := by
  induction js generalizing f with
  | nil => exact h
  | cons j js ih =>
    exact ih (h.reach hsafe (hjs j List.mem_cons_self)) fun k hk => hjs k (List.mem_cons_of_mem _ hk)

private theorem Flow.Agrees.follow (h : f.Agrees b.code) (hsafe : b.PathSafe expected) {i : Instruction}
    (harrives : Arrives b.code index depth) (hi : b.code[index]? = some i) :
    (i.follow b.code.length expected f index depth).Agrees b.code := by
  have hpops : i.stackEffect.pops ≤ depth := by exact_mod_cast hsafe.pops_le harrives hi
  unfold Instruction.follow
  rw [if_neg (by omega)]
  split
  · next hr =>
    rw [if_pos (by exact_mod_cast hsafe.returns harrives hi hr)]
    exact h
  have hstays : ¬ (i.fallsThrough ∧ b.code.length ≤ index + 1) := by
    rintro ⟨hfalls, hoff⟩
    have := hsafe.stays harrives hi hfalls
    omega
  rw [if_neg hstays]
  refine h.foldl_reach hsafe fun j hj => ?_
  have hstep := harrives.step hi (Instruction.leads_iff.2 hj)
  rwa [Instruction.depth_eq hpops] at hstep

private theorem Flow.Agrees.advance (h : f.Agrees b.code) (hsafe : b.PathSafe expected)
    (pending : List Nat) : (f.advance b.code expected index pending).Agrees b.code := by
  have h' : ({ f with pending } : Flow).Agrees b.code := ⟨h.findings, h.depth⟩
  unfold Flow.advance
  split
  · next depth i hdepth hi => exact h'.follow hsafe (h.depth hdepth) hi
  · exact h'

private theorem Flow.Agrees.followAll (h : f.Agrees b.code) (hsafe : b.PathSafe expected) :
    (Flow.followAll b.code.toArray expected fuel f).Agrees b.code :=
  followAll_induction (P := (Flow.Agrees · b.code)) (fun h _ => h.advance hsafe _) h

/-- To look at every instruction once decides whether all paths are safe. -/
theorem Body.stackFindings_eq_nil_iff : b.stackFindings expected = [] ↔ b.PathSafe expected := by
  refine ⟨pathSafe_of_stackFindings, fun hsafe => ?_⟩
  have hpos := length_pos_of_ne_nil hsafe.code_ne_nil
  have hstart : (Flow.start b.code.length).Agrees b.code := by
    refine ⟨rfl, fun {j d} hj => ?_⟩
    rw [Flow.depth?_start hpos] at hj
    split at hj
    · next h0 => rw [h0, ← Option.some.inj hj]; exact .start
    · cases hj
  rw [stackFindings_eq hsafe.code_ne_nil]
  exact (hstart.followAll hsafe).findings

end

/-! ### What is found in a body -/

theorem Body.operandFindings_eq_nil_iff {b : Body} {args : Nat} :
    b.operandFindings args = [] ↔
      ∀ i ∈ b.code, i.breach? b.code.length b.locals.size args = none := by
  simp only [Body.operandFindings, List.filterMap_eq_nil_iff, Option.map_eq_none_iff]
  constructor
  · intro h i hi
    obtain ⟨index, hindex⟩ := List.mem_iff_getElem?.1 hi
    exact h (i, index) (List.mem_zipIdx_iff_getElem?.2 hindex)
  · rintro h ⟨i, index⟩ hi
    exact h i (List.mem_of_getElem? (List.mem_zipIdx_iff_getElem?.1 hi))

private theorem Body.forall_operandFindings_iff {b : Body} {args : Nat} {o : Obligation} :
    (∀ f ∈ b.operandFindings args, f.breach.obligation ≠ o) ↔
      ∀ i ∈ b.code, ∀ breach ∈ i.breach? b.code.length b.locals.size args,
        breach.obligation ≠ o := by
  simp only [Body.operandFindings, List.mem_filterMap, Option.map_eq_some_iff]
  constructor
  · intro h i hi breach hbreach
    obtain ⟨index, hindex⟩ := List.mem_iff_getElem?.1 hi
    exact h ⟨index, breach⟩ ⟨(i, index), List.mem_zipIdx_iff_getElem?.2 hindex, breach, hbreach, rfl⟩
  · rintro h _ ⟨⟨i, index⟩, hi, breach, hbreach, rfl⟩
    exact h i (List.mem_of_getElem? (List.mem_zipIdx_iff_getElem?.1 hi)) breach hbreach

/-- Only breaches of stack balance are found while control is followed. -/
def Flow.FindsBalance (f : Flow) : Prop :=
  ∀ found ∈ f.findings, found.breach.obligation = .stackBalance

section

variable {code : List Instruction} {expected index depth fuel : Nat} {f : Flow}

private theorem Flow.FindsBalance.note (h : f.FindsBalance) {breach : Breach}
    (hbreach : breach.obligation = .stackBalance) : (f.note index breach).FindsBalance := by
  intro found hfound
  rcases List.mem_append.1 hfound with hfound | hfound
  · exact h found hfound
  · rw [List.mem_singleton.1 hfound]
    exact hbreach

private theorem Flow.FindsBalance.foldl_reach {js : List Nat} (h : f.FindsBalance) :
    (js.foldl (·.reach depth) f).FindsBalance := by
  induction js generalizing f with
  | nil => exact h
  | cons j js ih =>
    have hreach : (f.reach depth j).FindsBalance := by
      unfold Flow.reach
      split
      · exact h
      · split
        · exact h
        · exact h.note rfl
    exact ih hreach

private theorem Flow.FindsBalance.follow (h : f.FindsBalance) {length : Nat} {i : Instruction} :
    (i.follow length expected f index depth).FindsBalance := by
  unfold Instruction.follow
  split
  · exact h.note rfl
  split
  · split
    · exact h
    · exact h.note rfl
  refine Flow.FindsBalance.foldl_reach ?_
  split
  · exact h.note rfl
  · exact h

private theorem Flow.FindsBalance.advance (h : f.FindsBalance) (pending : List Nat) :
    (f.advance code expected index pending).FindsBalance := by
  have h' : ({ f with pending } : Flow).FindsBalance := h
  unfold Flow.advance
  split
  · exact h'.follow
  · exact h'

private theorem Flow.FindsBalance.followAll (h : f.FindsBalance) :
    (Flow.followAll code.toArray expected fuel f).FindsBalance :=
  followAll_induction (P := Flow.FindsBalance) (fun h _ => h.advance _) h

private theorem Body.obligation_of_stackFindings {b : Body} {found : Finding}
    (h : found ∈ b.stackFindings expected) : found.breach.obligation = .stackBalance := by
  unfold stackFindings at h
  split at h
  · rw [List.mem_singleton.1 h]
    rfl
  · have hstart : (Flow.start b.code.length).FindsBalance := by
      intro found hfound
      cases hfound
    exact hstart.followAll found h

end

/-! ### Exactness -/

/-- The local that an instruction reads or sets. -/
def Instruction.local? : Instruction → Option UInt16
  | slot .ldloc index | slot .stloc index => some index
  | _ => none

/-- The argument that an instruction reads or sets. -/
def Instruction.argument? : Instruction → Option UInt16
  | slot .ldarg index | slot .starg index => some index
  | _ => none

/-- Verification leaves an obligation kept by a method: nothing that it finds breaks it. -/
def Method.Keeps (x : Method) (o : Obligation) : Prop :=
  ∀ f ∈ x.findings, f.breach.obligation ≠ o

instance (x : Method) (o : Obligation) : Decidable (x.Keeps o) :=
  inferInstanceAs (Decidable (∀ f ∈ x.findings, f.breach.obligation ≠ o))

/-- What the operand of an instruction has to be, for an obligation on operands. -/
def Instruction.InBounds (length locals args : Nat) (i : Instruction) : Obligation → Prop
  | .stackBalance => True
  | .branchRange => ∀ target, i.target? = some target → target.toNat < length
  | .localsRange => ∀ index, i.local? = some index → index.toNat < locals
  | .argsRange => ∀ index, i.argument? = some index → index.toNat < args

theorem Instruction.inBounds_iff {i : Instruction} {length locals args : Nat} {o : Obligation} :
    (∀ breach ∈ i.breach? length locals args, breach.obligation ≠ o) ↔
      i.InBounds length locals args o := by
  cases i with
  | branch op target =>
    cases o <;> simp [breach?, InBounds, target?, local?, argument?, Breach.obligation]
  | slot op index =>
    cases op <;> cases o <;>
      simp [breach?, InBounds, target?, local?, argument?, Breach.obligation]
  | _ => cases o <;> simp [breach?, InBounds, target?, local?, argument?]

theorem Method.keeps_iff {x : Method} {b : Body} (hasBody : x.body = some b) {o : Obligation} :
    x.Keeps o ↔ (∀ i ∈ b.code, i.InBounds b.code.length b.locals.size x.argCount o) ∧
      (o = .stackBalance → b.PathSafe (!x.ret.isVoid).toNat) := by
  have hoperands : (∀ f ∈ b.operandFindings x.argCount, f.breach.obligation ≠ o) ↔
      ∀ i ∈ b.code, i.InBounds b.code.length b.locals.size x.argCount o := by
    rw [Body.forall_operandFindings_iff]
    exact forall₂_congr fun i _ => Instruction.inBounds_iff
  have hstack : (∀ f ∈ b.stackFindings (!x.ret.isVoid).toNat, f.breach.obligation ≠ o) ↔
      (o = .stackBalance → b.PathSafe (!x.ret.isVoid).toNat) := by
    rw [← Body.stackFindings_eq_nil_iff]
    constructor
    · rintro h rfl
      exact List.eq_nil_iff_forall_not_mem.2 fun f hf =>
        h f hf (Body.obligation_of_stackFindings hf)
    · intro h f hf ho
      rw [h (ho.symm.trans (Body.obligation_of_stackFindings hf))] at hf
      cases hf
  rw [Keeps, findings, hasBody, ← hoperands, ← hstack]
  simp only [List.mem_append, or_imp, forall_and]

namespace Module

/-- The certificate of a module tells which obligations all its methods keep. -/
theorem keeps_verify_iff (m : Module) (o : Obligation) :
    m.verify.certificate.keeps o ↔ ∀ p ∈ m.methods, p.2.Keeps o := by
  have hkeeps : m.verify.certificate.keeps o ↔ ∀ f ∈ m.findings, f.2.breach.obligation ≠ o := by
    cases o <;> simp [verify, Certificate.ofFindings, Certificate.keeps, Obligation.all]
  rw [hkeeps]
  simp only [findings, Method.Keeps, List.mem_flatMap, List.mem_map]
  constructor
  · intro h p hp f hf
    exact h _ ⟨p, hp, f, hf, rfl⟩
  · rintro h _ ⟨p, hp, f, hf, rfl⟩
    exact h p hp f hf

private theorem diagnostics_verify_ne_nil_iff (m : Module) :
    m.verify.diagnostics ≠ [] ↔ ∃ o, m.verify.certificate.keeps o = false := by
  have hnil : m.verify.diagnostics = [] ↔ ∀ p ∈ m.methods, p.2.findings = [] := by
    simp [verify, findings, List.flatMap_eq_nil_iff]
  rw [ne_eq, hnil, not_iff_comm]
  simp only [not_exists, Bool.not_eq_false, keeps_verify_iff]
  constructor
  · intro h p hp
    exact List.eq_nil_iff_forall_not_mem.2 fun f hf => h _ p hp f hf rfl
  · intro h o p hp f hf
    rw [h p hp] at hf
    cases hf

end Module

/-- Verification decides what it is about.  A method with a body keeps stack balance just if all
paths of control through the body are safe, and an obligation on operands just if the operands of
all instructions are in range, whether or not control reaches them.  No instruction is looked at
twice, and there is nothing left to look at after as many rounds as there are instructions.  And a
module has a diagnostic just if some obligation is not kept, which is to say, not by all methods. -/
theorem Method.verification_is_exact {x : Method} {b : Body} (hasBody : x.body = some b) :
    (x.Keeps .stackBalance ↔ b.PathSafe (if x.ret.isVoid then 0 else 1)) ∧
    (x.Keeps .branchRange ↔
      ∀ i ∈ b.code, ∀ target, i.target? = some target → target.toNat < b.code.length) ∧
    (x.Keeps .localsRange ↔
      ∀ i ∈ b.code, ∀ index, i.local? = some index → index.toNat < b.locals.size) ∧
    (x.Keeps .argsRange ↔
      ∀ i ∈ b.code, ∀ index, i.argument? = some index →
        index.toNat < x.params.length + if x.isStatic then 0 else 1) ∧
    (b.code ≠ [] → ∀ expected,
      (∀ i k l, k < l → (b.flow expected k).pending.head? = some i →
        (b.flow expected l).pending.head? ≠ some i) ∧
      (b.flow expected b.code.length).pending = [] ∧
      ∀ rounds, b.code.length ≤ rounds →
        b.flow expected rounds = b.flow expected b.code.length) ∧
    ∀ m : Module, (∀ o, m.verify.certificate.keeps o ↔ ∀ p ∈ m.methods, p.2.Keeps o) ∧
      (m.verify.diagnostics ≠ [] ↔ ∃ o, m.verify.certificate.keeps o = false) := by
  have hexpected : (!x.ret.isVoid).toNat = if x.ret.isVoid then 0 else 1 := by
    cases x.ret.isVoid <;> rfl
  have hargs : x.argCount = x.params.length + if x.isStatic then 0 else 1 := by
    rw [argCount]
    cases x.isStatic <;> rfl
  refine ⟨?_, ?_, ?_, ?_, fun hcode expected => ⟨fun i k l hkl hk => Body.head?_flow_ne hcode hkl hk,
    Body.pending_flow hcode, fun rounds hrounds => Body.flow_eq hcode hrounds⟩,
    fun m => ⟨m.keeps_verify_iff, m.diagnostics_verify_ne_nil_iff⟩⟩
  · simp [keeps_iff hasBody, Instruction.InBounds, hexpected]
  · simp [keeps_iff hasBody, Instruction.InBounds]
  · simp [keeps_iff hasBody, Instruction.InBounds]
  · simp [keeps_iff hasBody, Instruction.InBounds, hargs]

/-- Infinitely many paths go around the loop of this body, and none to the jump at its end. -/
theorem Method.verification_is_exact_loop :
    let b := Body.ofCode [.ldcI4 0, .branch .brtrue 0, .simple .ret, .branch .br 9]
    b.PathSafe 0 ∧ ¬ ({ name := "F", ret := .void, body := some b } : Method).Keeps .branchRange := by
  intro b
  have h := verification_is_exact (x := { name := "F", ret := .void, body := some b }) rfl
  refine ⟨h.1.1 (by decide +kernel), fun hkeeps => ?_⟩
  have hin : Instruction.branch .br 9 ∈ b.code := by simp [b, Body.ofCode]
  exact absurd (h.2.1.1 hkeeps _ hin 9 rfl) (by decide)

end AdviceWeaving
