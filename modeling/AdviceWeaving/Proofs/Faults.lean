import AdviceWeaving.Proofs.JsonModules
import AdviceWeaving.Proofs.Verified

/-!
# Faults show in woven bodies

Every instruction of a body stands in the wrapped body, and every path of control through the body leads through the
wrapped body, from place to place (`Wrapping.Around.arrives_place`).  If the code of the wrapping leaves the stack as
it finds it, the depths on the way are those of the body.  So what is wrong with the body is wrong with the wrapped
body (`Wrapping.Around.pathSafe`, `Wrapping.Around.inBounds_iff`), with one exception: a wrapping may declare a local
that the body uses without one.

Hence a pass does not hide faults, this apart, and it is enough to verify its result (`Module.woven_faults_show`).
-/

namespace AdviceWeaving

/-! ### Straight code -/

/-- What straight code makes of the depth of the stack, whether or not it finds what it takes. -/
def netEffect : List Instruction → Int
  | [] => 0
  | i :: code => i.stackEffect.pushes - i.stackEffect.pops + netEffect code

private theorem netEffect_of_depthAfter {depth depth' : Nat} {code : List Instruction}
    (h : depthAfter depth code = some depth') : netEffect code = depth' - depth := by
  induction code generalizing depth with
  | nil =>
    cases h
    simp [netEffect]
  | cons i code ih =>
    simp only [depthAfter] at h
    split at h
    · rw [netEffect, ih h]
      omega
    · cases h

/-- A path that comes to straight code leads to what is behind it. -/
private theorem Arrives.straight {code seq : List Instruction} {index : Nat} {depth : Int}
    (h : Arrives code index depth)
    (hplain : Plain seq) (hstands : ∀ k < seq.length, code[index + k]? = seq[k]?)
    (hlt : index + seq.length < code.length) : Arrives code (index + seq.length) (depth + netEffect seq) := by
  induction seq generalizing index depth with
  | nil => simpa [netEffect] using h
  | cons i seq ih =>
    rw [List.length_cons] at hlt
    have hi : code[index]? = some i := hstands 0 (Nat.succ_pos _)
    have hfalls := Instruction.fallsThrough_of_isPlain (hplain i List.mem_cons_self)
    have hnext := h.step hi (.fallThrough hfalls (by omega))
    have hrest := ih hnext (fun j hj => hplain j (List.mem_cons_of_mem i hj)) (fun k hk => ?_) (by omega)
    · rw [List.length_cons, netEffect]
      convert hrest using 1 <;> omega
    · have hk := hstands (k + 1) (Nat.succ_lt_succ hk)
      rwa [List.getElem?_cons_succ, Nat.add_comm k 1, ← Nat.add_assoc] at hk

private theorem Instruction.eq_ret_of_isReturn {i : Instruction} (h : i.isReturn) : i = .simple .ret := by
  cases i with
  | simple op =>
    cases op with
    | ret => rfl
    | _ => cases h
  | _ => cases h

/-- No path leads on from a `ret`. -/
private theorem Instruction.isReturn_of_leads {i : Instruction} {length index next : Nat}
    (h : i.Leads length index next) :
    i.isReturn = false := by
  cases hr : i.isReturn with
  | false => rfl
  | true =>
    rw [leads_iff, (successors_of_isReturn hr).2] at h
    cases h

/-! ### Wrapped bodies -/

namespace Wrapping

variable {w : Wrapping} {code : List Instruction}

/-- Behind the body, targets move by as much as the body has grown. -/
private theorem place_of_length_le {index : Nat} (h : code.length ≤ index) :
    w.place code index = w.place code code.length + (index - code.length) := by
  rw [place, place, returnsBelow, returnsBelow, List.take_of_length_le h, List.take_length]
  omega

namespace Around

variable {base body : Body} {cursor : Nat} {slot? : Option UInt16} {index : Nat} {i : Instruction}

/-! ### Operands -/

/-- The operands that are no targets are the same, those of the wrapping apart. -/
theorem inBounds_iff {args locals : Nat} {o : Obligation} (h : w.Around base body cursor slot?)
    (ho : o = .argsRange ∨ o = .localsRange) (hwrapping : InRange locals args (w.entry ++ w.exit)) :
    (∀ i ∈ body.code, i.InBounds body.code.length locals args o) ↔
      ∀ i ∈ base.code, i.InBounds base.code.length locals args o := by
  have hsame (i : Instruction) (f : UInt64 → UInt64) :
      (i.mapTarget f).InBounds body.code.length locals args o ↔ i.InBounds base.code.length locals args o := by
    rcases ho with rfl | rfl <;> cases i <;> exact Iff.rfl
  constructor
  · intro hbody i hi
    exact (hsame i _).1 (hbody _ (h.mem_code_iff.2 (.inr (.inr ⟨i, hi, rfl⟩))))
  · intro hbase i hi
    have hinRange (hi : i ∈ w.entry ++ w.exit) : i.InBounds body.code.length locals args o :=
      Instruction.inBounds_iff.1 fun breach hbreach => by
        rw [hwrapping i hi] at hbreach
        cases hbreach
    rcases h.mem_code hi with hi | hi | ⟨j, hj, f, rfl⟩
    · exact hinRange (List.mem_append_left _ hi)
    · exact hinRange (List.mem_append_right _ hi)
    · exact (hsame j f).2 (hbase j hj)

/-- A branch that leads out of the body leads out of the wrapped body. -/
private theorem exists_branch_outside {target : UInt64} (h : w.Around base body cursor slot?) (hi : i ∈ base.code)
    (ht : i.target? = some target) (hout : base.code.length ≤ target.toNat) :
    ∃ j ∈ body.code, ∃ target', j.target? = some target' ∧ body.code.length ≤ target'.toNat := by
  refine ⟨_, h.mem_code_iff.2 (.inr (.inr ⟨i, hi, rfl⟩)), UInt64.ofNat (w.place base.code target.toNat), ?_, ?_⟩
  · rw [Instruction.target?_mapTarget, ht]
    rfl
  · rw [h.toNat_place hi ht, h.length_eq, place_of_length_le hout]
    omega

private theorem size_locals (h : w.Around base body cursor slot?) :
    body.locals.size = base.locals.size + w.slot?.isSome.toNat := by
  rw [h.locals_eq, Array.size_append]
  cases w.slot? <;> rfl

/-! ### Paths -/

private theorem place_lt (h : w.Around base body cursor slot?) (hlt : index < base.code.length) :
    w.place base.code index < body.code.length := by
  have hmono : w.place base.code index + (base.code.length - index) ≤ w.place base.code base.code.length :=
    place_mono (Nat.le_of_lt hlt)
  rw [h.length_eq]
  omega

/-- Paths through the body lead through the wrapped body, from place to place. -/
theorem arrives_place (h : w.Around base body cursor slot?) (hne : base.code ≠ []) {depth : Int}
    (harrives : Arrives base.code index depth) :
    Arrives body.code (w.place base.code index) (depth + netEffect w.entry) := by
  let move (target : UInt64) : UInt64 := UInt64.ofNat (w.place base.code target.toNat)
  have hcode : body.code = w.codeWith move base.code := h.code_eq
  induction harrives with
  | start =>
    have hlt := h.place_lt (List.length_pos_iff.2 hne)
    rw [place_zero] at hlt ⊢
    have hentry : Arrives body.code (0 + w.entry.length) (0 + netEffect w.entry) :=
      Arrives.start.straight h.entry_plain (fun k hk => by rw [hcode, Nat.zero_add, codeWith_entry hk])
        (by rwa [Nat.zero_add])
    rwa [Nat.zero_add] at hentry
  | @step index next depth i _ hi hleads ih =>
    have hr := Instruction.isReturn_of_leads hleads
    have hstands : body.code[w.place base.code index]? = some (i.mapTarget move) :=
      hcode ▸ codeWith_of_not_isReturn hi hr
    -- control goes to the place of the instruction where it went
    have hleads' : (i.mapTarget move).Leads body.code.length (w.place base.code index) (w.place base.code next) := by
      cases hleads with
      | fallThrough hfalls hlt =>
        have hplace := h.place_lt hlt
        rw [place_succ_of_not_isReturn hi hr] at hplace ⊢
        exact .fallThrough (by rwa [Instruction.fallsThrough_mapTarget]) hplace
      | @branch target ht hlt =>
        have hplace := h.place_lt hlt
        rw [← h.toNat_place (List.mem_of_getElem? hi) ht] at hplace ⊢
        exact .branch (by rw [Instruction.target?_mapTarget, ht]; rfl) hplace
    have hnext := ih.step hstands hleads'
    rw [Instruction.stackEffect_mapTarget] at hnext
    convert hnext using 1
    omega

/-- From the place of a `ret` the path leads through the code on exit to the `ret` itself. -/
private theorem arrives_return (h : w.Around base body cursor slot?) {depth : Int}
    (harrives : Arrives body.code (w.place base.code index) depth) (hi : base.code[index]? = some i)
    (hr : i.isReturn) :
    Arrives body.code (w.place base.code index + w.exit.length) (depth + netEffect w.exit) ∧
      body.code[w.place base.code index + w.exit.length]? = some i := by
  let move (target : UInt64) : UInt64 := UInt64.ofNat (w.place base.code target.toNat)
  have hblock : w.blockWith move i = w.exit ++ [i] := blockWith_of_isReturn hr
  have hstands {k : Nat} (hk : k < w.exit.length + 1) :
      body.code[w.place base.code index + k]? = (w.exit ++ [i])[k]? := by
    rw [← hblock, h.code_eq]
    exact codeWith_block hi (by rw [hblock]; simpa using hk)
  have hreturn := hstands (Nat.lt_succ_self w.exit.length)
  rw [List.getElem?_append_right (Nat.le_refl _), Nat.sub_self, List.getElem?_cons_zero] at hreturn
  refine ⟨harrives.straight h.exit_plain (fun k hk => ?_) (List.getElem?_eq_some_iff.1 hreturn).1, hreturn⟩
  rw [hstands (Nat.lt_succ_of_lt hk), List.getElem?_append_left hk]

/-- Around a body without instructions control leaves the wrapped code at its end. -/
private theorem code_ne_nil (h : w.Around base body cursor slot?) {expected : Nat} (hsafe : body.PathSafe expected) :
    base.code ≠ [] := by
  intro hnil
  have hentry : body.code = w.entry := by
    rw [h.code_eq, hnil]
    simp [code]
  rcases List.eq_nil_or_concat w.entry with hempty | ⟨front, i, hfront⟩
  · exact hsafe.code_ne_nil (hentry.trans hempty)
  rw [List.concat_eq_append] at hfront
  have hplain : Plain (front ++ [i]) := hfront ▸ h.entry_plain
  have hbody : body.code = front ++ [i] := hentry.trans hfront
  have hlast : Arrives body.code (0 + front.length) (0 + netEffect front) :=
    Arrives.start.straight (fun j hj => hplain j (List.mem_append_left _ hj))
      (fun k hk => by rw [hbody, Nat.zero_add, List.getElem?_append_left hk]) (by simp [hbody])
  have hfalls := Instruction.fallsThrough_of_isPlain (hplain i (by simp))
  have hstays := hsafe.stays hlast (i := i) (by simp [hbody]) hfalls
  simp [hbody] at hstays

/-- Safe paths through the wrapped body tell that those through the body are safe, if the wrapping leaves the depth of
the stack as it finds it. -/
theorem pathSafe {expected : Nat} (h : w.Around base body cursor slot?) (hentry : netEffect w.entry = 0)
    (hexit : netEffect w.exit = 0) (hsafe : body.PathSafe expected) : base.PathSafe expected := by
  let move (target : UInt64) : UInt64 := UInt64.ofNat (w.place base.code target.toNat)
  have hcode : body.code = w.codeWith move base.code := h.code_eq
  have hne := h.code_ne_nil hsafe
  have hplace {index : Nat} {depth : Int} (harrives : Arrives base.code index depth) :
      Arrives body.code (w.place base.code index) depth := by
    have hbody := h.arrives_place hne harrives
    rwa [hentry, add_zero] at hbody
  have hstands {index : Nat} {i : Instruction} (hi : base.code[index]? = some i) (hr : i.isReturn = false) :
      body.code[w.place base.code index]? = some (i.mapTarget move) :=
    hcode ▸ codeWith_of_not_isReturn hi hr
  have hreturns {index : Nat} {depth : Int} {i : Instruction} (harrives : Arrives base.code index depth)
      (hi : base.code[index]? = some i) (hr : i.isReturn) : depth = expected := by
    obtain ⟨hbody, hreturn⟩ := h.arrives_return (hplace harrives) hi hr
    rw [hexit, add_zero] at hbody
    exact hsafe.returns hbody hreturn hr
  refine ⟨hne, fun h₁ h₂ => hsafe.unique (hplace h₁) (hplace h₂), fun {index depth i} h₁ hi => ?_, hreturns,
    fun {index depth i} h₁ hi hfalls => ?_⟩
  · cases hr : i.isReturn with
    | true =>
      rw [hreturns h₁ hi hr, Instruction.eq_ret_of_isReturn hr]
      exact Int.natCast_nonneg expected
    | false =>
      have hpops := hsafe.pops_le (hplace h₁) (hstands hi hr)
      rwa [Instruction.stackEffect_mapTarget] at hpops
  · have hr := Instruction.isReturn_of_fallsThrough hfalls
    have hstays := hsafe.stays (hplace h₁) (hstands hi hr) (by rwa [Instruction.fallsThrough_mapTarget])
    rw [← place_succ_of_not_isReturn hi hr, h.length_eq] at hstays
    -- places are in the order of indices
    by_contra hend
    have hle : base.code.length ≤ index + 1 := Nat.le_of_not_lt hend
    rw [place_of_length_le hle] at hstays
    omega

end Around

end Wrapping

/-! ### Woven modules -/

private theorem Method.findings_eq_nil_iff_keeps {x : Method} : x.findings = [] ↔ ∀ o, x.Keeps o := by
  constructor
  · intro h o f hf
    rw [h] at hf
    cases hf
  · exact fun h => List.eq_nil_iff_forall_not_mem.2 fun f hf => h _ f hf rfl

private theorem Outline.isSome_slot?_wrapping (storage : HandleStorage) (o : Outline) (p : Profile) (n : Nat) :
    (o.wrapping storage p n).slot?.isSome = (o.adviceFor p.target).any (·.2.takesResult) := by
  rw [wrapping]
  cases (o.adviceFor p.target).any (·.2.takesResult) <;> rfl

namespace Module

variable {encoding : Encoding} {source : String} {m m' : Module} {settings : Settings} {report : PassReport}

/-- What verification tells of a woven method, compared with what it tells of the method. -/
private theorem faults_of_method (hm : m.Numbered) (h : m.weave settings = (.ok report, m'))
    {t : TypeDecl} {x : Method} (hx : (t, x) ∈ m.methods) {b : Body} (hb : x.body = some b) :
    ∃ t' x' body, m'.method? x.id = some (t', x') ∧ x'.body = some body ∧
      (x'.Keeps .argsRange ↔ x.Keeps .argsRange) ∧
      (x'.Keeps .localsRange ↔ ∀ i ∈ b.code, ∀ index, i.local? = some index →
        index.toNat < b.locals.size + (((m.outline settings).adviceFor (x.target t)).any (·.2.takesResult)).toNat) ∧
      (¬ x.Keeps .branchRange → ¬ x'.Keeps .branchRange) ∧
      ((∀ p ∈ (m.outline settings).adviceFor (x.target t), p.1.marker.IsUniform) → ¬ x.Keeps .stackBalance →
        ¬ x'.Keeps .stackBalance) := by
  have hsound := hm.sound_outline settings
  have hp : x.profile t ∈ m.profiles := mem_profiles.2 ⟨t, x, hx, rfl⟩
  obtain ⟨body, cursor, slot?, hwoven, haround⟩ := exists_around_of_weave hm h hx hb
  obtain ⟨t', x', _, hmethod, hprofile⟩ := exists_profile_eq_of_weave hm h (hsound.kept _ hp)
  have hbody : x'.body = some body := (congrArg (·.body) hprofile).trans hwoven
  have hargs : x'.argCount = x.argCount := congrArg (·.args) hprofile
  have hret : x'.ret = x.ret := congrArg (·.target.ret) hprofile
  let w := (m.outline settings).wrapping settings.handleStorage (x.profile t) b.locals.size
  have hsize : body.locals.size = b.locals.size +
      (((m.outline settings).adviceFor (x.target t)).any (·.2.takesResult)).toNat := by
    rw [haround.size_locals, Outline.isSome_slot?_wrapping]
    rfl
  have hwrapping : InRange body.locals.size x.argCount (w.entry ++ w.exit) := by
    refine Outline.inRange_wrapping (p := x.profile t) _ _ (args_pos hp) fun hslot => ⟨?_, haround.room hslot⟩
    rw [haround.size_locals, hslot]
    exact Nat.lt_succ_self _
  have hoperands (o : Obligation) (ho : o = .argsRange ∨ o = .localsRange) :
      x'.Keeps o ↔ ∀ i ∈ b.code, i.InBounds b.code.length body.locals.size x.argCount o := by
    rw [Method.keeps_iff hbody, hargs, haround.inBounds_iff ho hwrapping]
    rcases ho with rfl | rfl <;> simp
  refine ⟨t', x', body, hmethod, hbody, ?_, ?_, ?_, fun huniform hbroken hkeeps => hbroken ?_⟩
  · rw [hoperands .argsRange (.inl rfl), Method.keeps_iff hb]
    simp [Instruction.InBounds]
  · rw [hoperands .localsRange (.inr rfl), hsize]
    rfl
  · refine fun hbroken hkeeps => hbroken ((Method.keeps_iff hb).2 ⟨fun i hi target ht => ?_, fun ho => by cases ho⟩)
    by_contra hout
    obtain ⟨j, hj, target', ht', hout'⟩ := haround.exists_branch_outside hi ht (Nat.not_lt.1 hout)
    exact Nat.not_lt.2 hout' (((Method.keeps_iff hbody).1 hkeeps).1 j hj target' ht')
  · have hentry : netEffect w.entry = 0 :=
      (netEffect_of_depthAfter (hsound.depthAfter_entry (p := x.profile t) huniform _ _ 0)).trans (sub_self _)
    have hexit : netEffect w.exit = 0 :=
      (netEffect_of_depthAfter (hsound.depthAfter_exit (p := x.profile t) huniform _ _)).trans (sub_self _)
    rw [Method.keeps_iff hb]
    refine ⟨fun _ _ => trivial, fun _ => ?_⟩
    have hsafe := ((Method.keeps_iff hbody).1 hkeeps).2 rfl
    rw [hret] at hsafe
    exact haround.pathSafe hentry hexit hsafe

/-- What is wrong with a body is wrong with the woven body.  An argument that is not there is used there as well, and
so is a local that is not there, unless it is the one that the pass adds for the return value.  A branch that leads
out of the body still does.  And if each marker type of the advice declares only static advice or only advice that is
called on an instance, a path on which the stack is not as it has to be is one in the woven body.  So, these cases
apart, it is enough to verify the woven module. -/
theorem woven_faults_show (decoded : encoding.decode source = .ok m) (woven : m.weave settings = (.ok report, m')) :
    let advice (t : TypeDecl) (x : Method) := (m.outline settings).adviceFor (x.target t)
    let addsLocal (t : TypeDecl) (x : Method) := (advice t x).any fun p =>
      p.2.timing = .onExit && p.2.binds .targetReturnValue
    (∀ t x b, (t, x) ∈ m.methods → x.body = some b →
      ∃ t' x' body, m'.method? x.id = some (t', x') ∧ x'.body = some body ∧
        (x'.Keeps .argsRange ↔ x.Keeps .argsRange) ∧
        (x'.Keeps .localsRange ↔ ∀ i ∈ b.code, ∀ index, i.local? = some index →
          index.toNat < b.locals.size + (addsLocal t x).toNat) ∧
        (¬ x.Keeps .branchRange → ¬ x'.Keeps .branchRange) ∧
        ((∀ p ∈ advice t x, p.1.marker.IsUniform) → ¬ x.Keeps .stackBalance → ¬ x'.Keeps .stackBalance)) ∧
    ((∀ t x, (t, x) ∈ m.methods → addsLocal t x = false ∧ ∀ p ∈ advice t x, p.1.marker.IsUniform) →
      m'.verify.certificate.allPass → m.verify.certificate.allPass) := by
  have hm := numbered_of_decode decoded
  intro advice addsLocal
  refine ⟨fun t x b hx hb => faults_of_method hm woven hx hb, fun hadvice hpass => ?_⟩
  rw [allPass_verify_iff] at hpass ⊢
  rintro ⟨t, x⟩ hx
  cases hb : x.body with
  | none => exact x.findings_eq_nil_iff.2 fun b hb' => by cases hb.symm.trans hb'
  | some b =>
    obtain ⟨t', x', body, hmethod, hbody, hargs, hlocals, hbranch, hstack⟩ :=
      faults_of_method hm woven hx hb
    obtain ⟨hadds, huniform⟩ := hadvice t x hx
    have hkeeps := Method.findings_eq_nil_iff_keeps.1 (hpass _ (List.mem_of_find?_eq_some hmethod))
    refine Method.findings_eq_nil_iff_keeps.2 fun o => ?_
    cases o with
    | stackBalance => exact by_contra fun h => hstack huniform h (hkeeps _)
    | branchRange => exact by_contra fun h => hbranch h (hkeeps _)
    | localsRange =>
      refine (Method.keeps_iff hb).2 ⟨fun i hi index hindex => ?_, fun ho => by cases ho⟩
      have hlt := hlocals.1 (hkeeps _) i hi index hindex
      have hnone : ((m.outline settings).adviceFor (x.target t)).any (·.2.takesResult) = false := hadds
      rwa [hnone, Bool.toNat_false, Nat.add_zero] at hlt
    | argsRange => exact hargs.1 (hkeeps _)

/-! ### Faults that show, and faults that are hidden -/

private theorem exists_report (m : Module) (settings : Settings) (h : (m.weave settings).1.toOption.isSome) :
    ∃ report, m.weave settings = (.ok report, (m.weave settings).2) := by
  rcases hw : m.weave settings with ⟨failure | report, m'⟩
  · rw [hw] at h
    cases h
  · exact ⟨report, rfl⟩

end Module

namespace Sample

/-- A body that breaks all obligations. -/
def faulty : Body :=
  .ofCode [.slot .ldloc 1, .slot .ldarg 5, .simple .pop, .simple .pop, .simple .pop, .branch .br 99, .simple .ret]

def faultyTarget : Method :=
  { target with body := some faulty }

def faultyOwner : TypeDecl :=
  { owner with methods := [faultyTarget] }

def faultyModule : Module :=
  { module with types := [markerDecl, faultyOwner] }

/-- A method that returns a local that is not there. -/
def undeclaredModule : Module :=
  { module with
    types := [markerDecl, { owner with methods := [
      { target with body := some (.ofCode [.slot .ldloc 0, .simple .ret]) }] }] }

/-- A method that pops from the empty stack, with static advice and advice that is called on an instance. -/
def greedyModule : Module :=
  { module with
    types :=
      [{ markerDecl with
          methods := markerDecl.methods.map fun x =>
            { x with isStatic := x.id = ⟨0⟩, params := []
                     attributes := [{ name := "Rise", args := [.int 1] }] } },
        { owner with methods := [
          { target with ret := .void, body := some (.ofCode [.simple .pop, .simple .ret]) }] }] }

end Sample

namespace Module

/-- A body that breaks every rule, with advice on entry and on exit woven in: it breaks every rule still. -/
theorem woven_faults_show_sample :
    ∃ report m' t' x', Sample.faultyModule.weave Sample.settings = (.ok report, m') ∧
      m'.method? ⟨2⟩ = some (t', x') ∧ ¬ x'.Keeps .argsRange ∧ ¬ x'.Keeps .localsRange ∧ ¬ x'.Keeps .branchRange ∧
      ¬ x'.Keeps .stackBalance := by
  have hdecode : Encoding.decode (Encoding.encode Sample.faultyModule .json) .json = .ok Sample.faultyModule :=
    (Encoding.decode_encode_json _).trans (congrArg Except.ok (by decide +kernel))
  obtain ⟨report, hweave⟩ := exists_report Sample.faultyModule Sample.settings (by decide +kernel)
  have hadvice : (Sample.faultyModule.outline Sample.settings).adviceFor
      (Sample.faultyTarget.target Sample.faultyOwner) =
        [(Sample.admission, Sample.onEntry), (Sample.admission, Sample.onExit)] := by
    decide +kernel
  obtain ⟨t', x', body, hmethod, hbody, hargs, hlocals, hbranch, hstack⟩ :=
    (woven_faults_show hdecode hweave).1 Sample.faultyOwner Sample.faultyTarget Sample.faulty (by decide) rfl
  dsimp only at hlocals hstack
  rw [hadvice] at hlocals hstack
  refine ⟨report, _, t', x', hweave, hmethod, mt hargs.1 (by decide +kernel), fun h => ?_,
    hbranch (by decide +kernel), hstack (by decide) (by decide +kernel)⟩
  exact absurd (hlocals.1 h (.slot .ldloc 1) (by decide) 1 rfl) (by decide)

/-- The pass hides a fault: a method that is decoded breaks the obligation, and the woven method keeps it, as does all of
the woven module. -/
def HidesFault (m : Module) (settings : Settings) (id : MethodId) (o : Obligation) : Prop :=
  ∃ report m', Encoding.decode (Encoding.encode m .json) .json = .ok m ∧ m.weave settings = (.ok report, m') ∧
    (m.method? id).any (¬ ·.2.Keeps o) ∧ (m'.method? id).any (·.2.Keeps o) ∧ m'.verify.certificate.allPass

private theorem hidesFault_of_weave {m : Module} {settings : Settings} {id : MethodId} {o : Obligation}
    (hids : m.assignIds = m) (hreport : (m.weave settings).1.toOption.isSome)
    (hbroken : (m.method? id).any (¬ ·.2.Keeps o)) (hkept : ((m.weave settings).2.method? id).any (·.2.Keeps o))
    (hpass : (m.weave settings).2.verify.certificate.allPass) : m.HidesFault settings id o := by
  obtain ⟨report, hweave⟩ := exists_report m settings hreport
  have hdecode := (Encoding.decode_encode_json m).trans (congrArg Except.ok hids)
  exact ⟨report, _, hdecode, hweave, hbroken, hkept, hpass⟩

/-- None of the exceptions can be left out: a local that is not there is hidden by the one that the pass adds, and what
a body takes too much from the stack is there if static advice has left its instance behind. -/
theorem weave_hides_faults :
    Sample.undeclaredModule.HidesFault Sample.settings ⟨2⟩ .localsRange ∧
      Sample.greedyModule.HidesFault Sample.settings ⟨2⟩ .stackBalance := by
  refine ⟨hidesFault_of_weave ?_ ?_ ?_ ?_ ?_, hidesFault_of_weave ?_ ?_ ?_ ?_ ?_⟩ <;> decide +kernel

end Module

end AdviceWeaving
