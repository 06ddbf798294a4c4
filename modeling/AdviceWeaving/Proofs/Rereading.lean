import AdviceWeaving.Proofs.Idempotence

/-!
# Verification of modules that are read back

Verification does not depend on identifiers (`Module.verify_assignIds`).  Of types it asks only whether a method returns
a value, so that it does not depend on how they are spelled either, unless a class is named like `void` and a method
returns an instance of it (`Module.TellsEffects.verify_respelled`).  No text gives such a method, and weaving makes none
(`Module.TellsEffects.weave`).  So a woven module that is written down and read back verifies as it did before
(`Module.verify_of_decode_encode`).
-/

namespace AdviceWeaving

/-! ### Code whose effect is told by its spelling -/

/-- The code has the same effect on the depth of the stack when its types are respelled. -/
def Body.TellsEffects (b : Body) : Prop :=
  ∀ i ∈ b.code, i.respelled.stackEffect = i.stackEffect

/-- Its spelling tells what the method returns, and what the calls in its body do. -/
structure Profile.TellsEffects (p : Profile) : Prop where
  ret : p.target.ret.respelled.isVoid = p.target.ret.isVoid
  body : ∀ b ∈ p.body, b.TellsEffects

def Module.TellsEffects (m : Module) : Prop :=
  ∀ p ∈ m.profiles, p.TellsEffects

private theorem ValueType.respelled_of_wellNamed {t : ValueType} (h : t.WellNamed) : t.respelled = t :=
  ofName_text h

namespace Instruction

variable {i : Instruction}

private theorem stackEffect_respelled_call {op : CallOp} {sig : MethodSig}
    (h : sig.ret.respelled.isVoid = sig.ret.isVoid) :
    (call op sig).respelled.stackEffect = (call op sig).stackEffect := by
  cases op <;> simp [respelled, MethodSig.respelled, stackEffect, h]

private theorem stackEffect_respelled_field (op : FieldOp) (sig : FieldSig) :
    (field op sig).respelled.stackEffect = (field op sig).stackEffect := by
  cases op <;> rfl

private theorem stackEffect_respelled_of_namesNone (h : i.NamesNone) : i.respelled.stackEffect = i.stackEffect := by
  cases i <;> first | exact h.elim | rfl

private theorem stackEffect_respelled_of_wellNamed (h : i.WellNamed) : i.respelled.stackEffect = i.stackEffect := by
  cases i with
  | call op sig => exact stackEffect_respelled_call (by rw [ValueType.respelled_of_wellNamed h.2.2.2])
  | field op sig => exact stackEffect_respelled_field op sig
  | _ => rfl

private theorem stackEffect_respelled_mapTarget (f : UInt64 → UInt64)
    (h : i.respelled.stackEffect = i.stackEffect) :
    (i.mapTarget f).respelled.stackEffect = (i.mapTarget f).stackEffect := by
  cases i with
  | branch op target => rfl
  | _ => exact h

end Instruction

/-- What is read from a text tells its effects. -/
private theorem Module.TextWellFormed.tellsEffects {m : Module} (h : m.TextWellFormed) : m.TellsEffects := by
  intro p hp
  obtain ⟨t, x, hx, rfl⟩ := mem_profiles.1 hp
  obtain ⟨ht, hx⟩ := mem_methods.1 hx
  obtain ⟨-, -, -, -, -, hmethods⟩ := h.1.2 t ht
  obtain ⟨-, -, hret, -, hbody⟩ := hmethods x hx
  refine ⟨congrArg _ (ValueType.respelled_of_wellNamed hret), fun b hb i hi => ?_⟩
  exact Instruction.stackEffect_respelled_of_wellNamed ((hbody b hb).2 i hi)

/-! ### Weaving -/

private theorem tellsEffects_initializerCode (storage : HandleStorage) (field : FieldSig) :
    (Body.ofCode (initializerCode storage field)).TellsEffects := by
  intro i hi
  cases storage <;> simp only [Body.ofCode, initializerCode, List.mem_cons, List.not_mem_nil, or_false] at hi <;>
    rcases hi with rfl | rfl | rfl | rfl | rfl | rfl | rfl <;> rfl

private theorem Profile.IsInitializer.tellsEffects {storage : HandleStorage} {p : Profile}
    (h : p.IsInitializer storage) :
    p.TellsEffects where
  ret := by rw [h.ret_eq]; rfl
  body b hb := by
    obtain ⟨field, hbody⟩ := h.body_eq
    obtain rfl := Option.some.inj (hb.symm.trans hbody)
    exact tellsEffects_initializerCode storage field

namespace Module.TellsEffects

variable {m m' : Module} {settings : Settings} {report : PassReport}

/-- What is put around a body tells its effect, since advice is made of methods of the module. -/
private theorem puts (h : m.TellsEffects) {o : Outline} {visited : List TypeId} (hsound : o.Sound settings m visited)
    {t : Target} {i : Instruction} (hi : o.Puts t i) : i.respelled.stackEffect = i.stackEffect := by
  cases hi with
  | plain hnone => exact Instruction.stackEffect_respelled_of_namesNone hnone
  | handle => exact Instruction.stackEffect_respelled_field _ _
  | initializer => rfl
  | advice ha hadv =>
    obtain ⟨owner, howner, -, hdeclared⟩ := (hsound.accepted _ ha).declared
    obtain ⟨x, hx, hdeclares⟩ := owner.exists_declares hdeclared _ hadv
    rw [hdeclares.call_eq]
    exact Instruction.stackEffect_respelled_call
      (h _ (mem_profiles.2 ⟨owner, x, mem_methods.2 ⟨howner, hx⟩, rfl⟩)).ret

private theorem outline (h : m.TellsEffects) (hm : m.Numbered) : (m.outline settings).module.TellsEffects := fun p hp =>
  ((hm.sound_outline settings).profiles p hp).elim (h p) (·.tellsEffects)

theorem weave (h : m.TellsEffects) (hm : m.Numbered) (hw : m.weave settings = (.ok report, m')) :
    m'.TellsEffects := by
  obtain ⟨bodies, rfl, haround⟩ := exists_bodies_of_weave hm hw
  have houtline : (m.outline settings).module.TellsEffects := h.outline hm
  intro p' hp'
  obtain ⟨t', x', hx', rfl⟩ := mem_profiles.1 hp'
  rw [methods_withBodies, List.mem_map] at hx'
  obtain ⟨⟨t, x⟩, hx, hpair⟩ := hx'
  obtain ⟨rfl, rfl⟩ := Prod.mk.inj hpair
  have hp : x.profile t ∈ (m.outline settings).module.profiles := mem_profiles.2 ⟨t, x, hx, rfl⟩
  refine ⟨(houtline _ hp).ret, fun b' hb' i hi => ?_⟩
  obtain ⟨b, hb, rfl⟩ := Option.map_eq_some_iff.1 hb'
  obtain ⟨cursor, slot?, haround⟩ := haround _ hp b hb
  obtain ⟨hentry, hexit⟩ := (m.outline settings).puts_wrapping settings.handleStorage (x.profile t) b.locals.size
  rcases haround.mem_code hi with hi | hi | ⟨j, hj, f, rfl⟩
  · exact h.puts (hm.sound_outline settings) (hentry i hi)
  · exact h.puts (hm.sound_outline settings) (hexit i hi)
  · exact j.stackEffect_respelled_mapTarget f ((houtline _ hp).body b hb j hj)

end Module.TellsEffects

/-! ### Verification -/

section

variable {b : Body} {x : Method}

private theorem Instruction.follow_respelled {i : Instruction} (h : i.respelled.stackEffect = i.stackEffect)
    (length expected : Nat) (f : Flow) (index depth : Nat) :
    i.respelled.follow length expected f index depth = i.follow length expected f index depth := by
  have hfalls : i.respelled.fallsThrough = i.fallsThrough := by cases i <;> rfl
  have hreturn : i.respelled.isReturn = i.isReturn := by cases i <;> rfl
  have htarget : i.respelled.target? = i.target? := by cases i <;> rfl
  simp only [follow, successors, h, hfalls, hreturn, i.mnemonic_respelled, htarget]

private theorem Body.TellsEffects.followAll_respelled (h : b.TellsEffects) (expected fuel : Nat) (f : Flow) :
    Flow.followAll b.respelled.code.toArray expected fuel f = Flow.followAll b.code.toArray expected fuel f := by
  induction fuel generalizing f with
  | zero => rfl
  | succ fuel ih =>
    unfold Flow.followAll
    cases f.pending with
    | nil => rfl
    | cons index pending =>
      have hcode : b.respelled.code.toArray[index]? = b.code.toArray[index]?.map (·.respelled) := by
        simp [Body.respelled]
      have hsize : b.respelled.code.toArray.size = b.code.toArray.size := by simp [Body.respelled]
      have hmem (i : Instruction) (hi : b.code.toArray[index]? = some i) : i ∈ b.code := by
        rw [List.getElem?_toArray] at hi
        exact List.mem_of_getElem? hi
      simp only [hcode, hsize]
      cases hi : b.code.toArray[index]? with
      | none => cases Flow.depth? { f with pending } index <;> exact ih _
      | some i =>
        cases Flow.depth? { f with pending } index with
        | none => exact ih _
        | some depth =>
          simp only [Option.map_some, Instruction.follow_respelled (h i (hmem i hi))]
          exact ih _

private theorem Body.TellsEffects.stackFindings_respelled (h : b.TellsEffects) (expected : Nat) :
    b.respelled.stackFindings expected = b.stackFindings expected := by
  have hempty : b.respelled.code.isEmpty = b.code.isEmpty := by simp [Body.respelled]
  have hlength : b.respelled.code.length = b.code.length := by simp [Body.respelled]
  simp only [Body.stackFindings, hempty, hlength, h.followAll_respelled]

private theorem Body.operandFindings_respelled (b : Body) (args : Nat) :
    b.respelled.operandFindings args = b.operandFindings args := by
  have hbreach (length locals : Nat) (i : Instruction) :
      i.respelled.breach? length locals args = i.breach? length locals args := by
    cases i <;> rfl
  simp only [Body.operandFindings, Body.respelled, List.length_map, Array.size_map, List.zipIdx_map,
    List.filterMap_map, Function.comp_def, Prod.map, hbreach, id]

private theorem Profile.TellsEffects.findings_respelled {t : TypeDecl} (h : (x.profile t).TellsEffects) :
    x.respelled.findings = x.findings := by
  have hbody : x.respelled.body = x.body.map (·.respelled) := rfl
  have hargs : x.respelled.argCount = x.argCount := by simp [Method.argCount, Method.respelled]
  have hret : x.respelled.ret.isVoid = x.ret.isVoid := h.ret
  cases hb : x.body with
  | none => simp [Method.findings, hbody, hb]
  | some b =>
    simp only [Method.findings, hbody, hb, Option.map_some, b.operandFindings_respelled,
      (h.body b hb).stackFindings_respelled, hargs, hret]

end

namespace Module

variable {m m' : Module}

private theorem methods_respelled (m : Module) :
    m.respelled.methods = m.methods.map fun p => (p.1.respelled, p.2.respelled) := by
  simp [methods, respelled, TypeDecl.respelled, List.flatMap_map, List.map_flatMap, Function.comp_def]

/-- What verification asks of a method. -/
private def examined (p : TypeDecl × Method) : Site × List Finding × Bool :=
  (.ofMember p.1.name p.2.name, p.2.findings, p.2.body.isSome)

private theorem verify_congr (h : m'.methods.map examined = m.methods.map examined) : m'.verify = m.verify := by
  have hfindings (m : Module) :
      m.findings = (m.methods.map examined).flatMap fun e => e.2.1.map (e.1, ·) := by
    rw [List.flatMap_map]
    rfl
  have hcount (m : Module) :
      m.methods.countP (·.2.body.isSome) = (m.methods.map examined).countP (·.2.2) := by
    rw [List.countP_map]
    rfl
  simp only [verify, hfindings, hcount, h]

theorem TellsEffects.verify_respelled (h : m.TellsEffects) : m.respelled.verify = m.verify := by
  refine verify_congr ?_
  rw [methods_respelled, List.map_map]
  refine List.map_congr_left fun p hp => ?_
  have hfindings : p.2.respelled.findings = p.2.findings :=
    (h _ (mem_profiles.2 ⟨p.1, p.2, hp, rfl⟩)).findings_respelled
  have hbody : p.2.respelled.body.isSome = p.2.body.isSome := Option.isSome_map
  simp only [Function.comp_apply, examined, hfindings, hbody]
  rfl

theorem verify_assignIds (m : Module) : m.assignIds.verify = m.verify := by
  have hmethods (m : Module) : m.methods.map examined =
      (m.types.map (·.withoutId)).flatMap fun t => t.methods.map fun x => examined (t, x) := by
    simp only [methods, List.map_flatMap, List.flatMap_map, List.map_map, TypeDecl.withoutId]
    rfl
  exact verify_congr (by rw [hmethods, hmethods, withoutId_assignIds])

/-- A woven module that is written down and read back verifies as it did. -/
theorem verify_of_decode_encode {encoding : Encoding} {source : String} {m₁ m₂ : Module} {settings : Settings}
    {report : PassReport} (decoded : encoding.decode source = .ok m) (woven : m.weave settings = (.ok report, m₁))
    (reread : encoding.decode (encoding.encode m₁) = .ok m₂) : m₂.verify = m₁.verify := by
  have hm := numbered_of_decode decoded
  cases encoding with
  | text =>
    have hwell := Encoding.textWellFormed_of_decode decoded
    have hspelled : m₁.Spelled := spelled_of_weave hm hwell.spelled woven
    obtain rfl : m₁.respelled.assignIds = m₂ := by
      simpa using (Encoding.decode_encode_text hspelled).symm.trans reread
    rw [verify_assignIds, (hwell.tellsEffects.weave hm woven).verify_respelled]
  | json =>
    obtain rfl : m₁.assignIds = m₂ := by
      simpa using (Encoding.decode_encode_json m₁).symm.trans reread
    exact verify_assignIds m₁

end Module

end AdviceWeaving
