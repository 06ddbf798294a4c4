import AdviceWeaving.Proofs.Calls
import AdviceWeaving.Proofs.Shape
import Mathlib.Tactic.IntervalCases

/-!
# Woven modules verify

What is woven into a body gives back the stack as it was, reads locals and arguments that are there,
and moves every branch with its target.  So a body that was accepted before a pass is accepted after
it, a hidden method that is made in the pass is accepted, and a module all of whose bodies are
accepted gives such a module (`Module.woven_module_verifies`).
-/

namespace AdviceWeaving

/-! ### Profiles that are accepted -/

/-- The body of a profile, where it has one, keeps the obligations. -/
def Profile.Verifies (p : Profile) : Prop :=
  ∀ b, p.body = some b → b.Verifies p.args (!p.target.ret.isVoid).toNat

private theorem Method.findings_eq_nil_iff_profile {x : Method} (t : TypeDecl) :
    x.findings = [] ↔ (x.profile t).Verifies :=
  x.findings_eq_nil_iff

/-- The depths at the instructions of the hidden method. -/
private def initializerDepths : HandleStorage → List Nat
  | .perInstance => [0, 1, 1, 0, 1, 2, 0]
  | .shared => [0, 1, 0, 1, 0]

private theorem depths_initializerCode (storage : HandleStorage) (field : FieldSig) :
    Depths (initializerCode storage field) 0 fun index depth =>
      (initializerDepths storage)[index]? = some depth where
  start := by cases storage <;> rfl
  unique ha hb := Option.some.inj (ha.symm.trans hb)
  balanced {index depth} h := by
    have hlt := (List.getElem?_eq_some_iff.1 h).1
    cases storage <;> simp only [initializerDepths, List.length_cons, List.length_nil] at hlt <;>
      interval_cases index <;> cases h <;> refine ⟨_, rfl, ?_, ?_, ?_⟩ <;>
      simp [initializerDepths, Instruction.stackEffect, Instruction.isReturn, Instruction.nexts,
        Instruction.fallsThrough, Instruction.target?]

private theorem verifies_initializerCode (storage : HandleStorage) (field : FieldSig) :
    (Body.ofCode (initializerCode storage field)).Verifies 1 0 where
  operands i hi := by
    cases storage <;>
      simp only [Body.ofCode, initializerCode, List.mem_cons, List.not_mem_nil, or_false] at hi <;>
      rcases hi with rfl | rfl | rfl | rfl | rfl | rfl | rfl <;> rfl
  depths := ⟨_, depths_initializerCode storage field⟩

private theorem Profile.IsInitializer.verifies {storage : HandleStorage} {p : Profile}
    (h : p.IsInitializer storage) : p.Verifies := by
  intro b hb
  obtain ⟨field, hbody⟩ := h.body_eq
  obtain rfl := Option.some.inj (hb.symm.trans hbody)
  rw [h.args_eq, h.ret_eq]
  exact verifies_initializerCode storage field

/-- A method of an instance has the receiver as an argument. -/
theorem Module.args_pos {m : Module} {p : Profile} (hp : p ∈ m.profiles)
    (h : p.target.isStatic = false) : 0 < p.args := by
  obtain ⟨t, x, _, rfl⟩ := mem_profiles.1 hp
  have hstatic : x.isStatic = false := h
  simp [Method.profile, Method.argCount, hstatic]

namespace Module

variable {encoding : Encoding} {source : String} {m m' : Module} {settings : Settings}
  {report : PassReport}

/-- What verification tells of a module: all obligations are kept if nothing is found in any
method. -/
theorem allPass_verify_iff (m : Module) :
    m.verify.certificate.allPass ↔ ∀ p ∈ m.methods, p.2.findings = [] := by
  have hkeeps (o : Obligation) :
      m.verify.certificate.keeps o ↔ ∀ f ∈ m.findings, f.2.breach.obligation ≠ o := by
    cases o <;> simp [verify, Certificate.ofFindings, Certificate.keeps, Obligation.all]
  have hnone : m.findings = [] ↔ ∀ p ∈ m.methods, p.2.findings = [] := by
    simp [findings, List.flatMap_eq_nil_iff]
  rw [← hnone, Certificate.allPass, List.all_eq_true]
  constructor
  · intro h
    refine List.eq_nil_iff_forall_not_mem.2 fun f hf => ?_
    have hall : f.2.breach.obligation ∈ Obligation.all := by
      cases f.2.breach.obligation <;> simp [Obligation.all]
    exact (hkeeps _).1 (h _ hall) f hf rfl
  · intro h o _
    exact (hkeeps o).2 (by simp [h])

/-- The method of the woven module that has a given profile, the body apart. -/
theorem exists_profile_eq_of_weave (hm : m.Numbered) (h : m.weave settings = (.ok report, m'))
    {p : Profile} (hp : p ∈ (m.outline settings).module.profiles) :
    ∃ t' x', (t', x') ∈ m'.methods ∧ m'.method? p.target.id = some (t', x') ∧
      x'.profile t' = { p with body := m'.body? p.target.id } := by
  obtain ⟨bodies, rfl, _⟩ := exists_bodies_of_weave hm h
  have hnumbered := (hm.sound_outline settings).numbered
  obtain ⟨t, x, hx, rfl⟩ := mem_profiles.1 hp
  have hx' : (t.withBodies bodies, x.withBody (bodies x.id)) ∈
      ((m.outline settings).module.withBodies bodies).methods := by
    rw [methods_withBodies]
    exact List.mem_map.2 ⟨(t, x), hx, rfl⟩
  have hmethod := (hnumbered.withBodies bodies).method?_eq_some_iff.2 ⟨hx', rfl⟩
  refine ⟨_, _, hx', hmethod, ?_⟩
  rw [show (x.profile t).target.id = (x.withBody (bodies x.id)).id from rfl, body?, hmethod]
  rfl

private theorem exists_method_of_weave (hm : m.Numbered) (h : m.weave settings = (.ok report, m'))
    {p : Profile} (hp : p ∈ (m.outline settings).module.profiles) :
    ∃ t' x', (t', x') ∈ m'.methods ∧ m'.method? p.target.id = some (t', x') ∧
      x'.name = p.target.name := by
  obtain ⟨t', x', hx', hmethod, hprofile⟩ := exists_profile_eq_of_weave hm h hp
  exact ⟨t', x', hx', hmethod, congrArg (·.target.name) hprofile⟩

/-- A method of the woven module, and the profile that it has without the woven code. -/
private theorem exists_profile_of_weave (hm : m.Numbered) (uniform : m.HasUniformMarkers settings.markers)
    (h : m.weave settings = (.ok report, m')) {t' : TypeDecl} {x' : Method} (hx' : (t', x') ∈ m'.methods) :
    ∃ p ∈ (m.outline settings).module.profiles, p.target.id = x'.id ∧ p.target.name = x'.name ∧
      (p.Verifies → x'.findings = []) := by
  obtain ⟨bodies, rfl, haround⟩ := exists_bodies_of_weave hm h
  have hsound := hm.sound_outline settings
  have hmem := hx'
  rw [methods_withBodies, List.mem_map] at hmem
  obtain ⟨⟨t, x⟩, hx, hpair⟩ := hmem
  obtain ⟨rfl, rfl⟩ := Prod.mk.inj hpair
  have hp : x.profile t ∈ (m.outline settings).module.profiles := mem_profiles.2 ⟨t, x, hx, rfl⟩
  refine ⟨x.profile t, hp, rfl, rfl, fun hverifies => ?_⟩
  rw [Method.findings_eq_nil_iff]
  intro body hbody
  obtain ⟨b, hb, rfl⟩ := Option.map_eq_some_iff.1 hbody
  obtain ⟨cursor, slot?, haround⟩ := haround _ hp b hb
  refine (hverifies b hb).wrap haround
    (hsound.depthAfter_entry (hsound.isUniform uniform _) _ _ _)
    (hsound.depthAfter_exit (hsound.isUniform uniform _) _ _)
    (Outline.inRange_wrapping _ _ (args_pos hp) fun hslot => ⟨?_, haround.room hslot⟩)
  -- the local for the return value comes behind those of the body
  have hlocals := haround.locals_eq
  obtain ⟨type, htype⟩ := Option.isSome_iff_exists.1 hslot
  rw [htype] at hlocals
  show b.locals.size < (bodies x.id).locals.size
  rw [show (bodies x.id).locals = _ from hlocals]
  simp

/-- Weaving keeps what verification asks for, if each marker type declares only static advice or
only advice that is called on an instance. -/
theorem woven_module_verifies (decoded : encoding.decode source = .ok m)
    (uniform : m.HasUniformMarkers settings.markers) (woven : m.weave settings = (.ok report, m')) :
    (∀ t x, (t, x) ∈ m.methods → x.findings = [] →
      ∃ t' x', m'.method? x.id = some (t', x') ∧ x'.name = x.name ∧ x'.findings = []) ∧
    (∀ t' x', (t', x') ∈ m'.methods → (∀ p ∈ m.methods, p.2.id ≠ x'.id) →
      x'.name = initializerName ∧ x'.findings = []) ∧
    (m.verify.certificate.allPass → m'.verify.certificate.allPass) := by
  have hm := numbered_of_decode decoded
  have hsound := hm.sound_outline settings
  have hold : ∀ t x, (t, x) ∈ m.methods → x.findings = [] →
      ∃ t' x', m'.method? x.id = some (t', x') ∧ x'.name = x.name ∧ x'.findings = [] := by
    intro t x hx hfindings
    have hp := hsound.kept (x.profile t) (mem_profiles.2 ⟨t, x, hx, rfl⟩)
    obtain ⟨t', x', hx', hmethod, hname⟩ := exists_method_of_weave hm woven hp
    obtain ⟨p', hp', hid, _, hfindings'⟩ := exists_profile_of_weave hm uniform woven hx'
    obtain rfl : p' = x.profile t :=
      hsound.numbered.profile_eq hp' hp (hid.trans (id_of_method? hmethod))
    exact ⟨t', x', hmethod, hname, hfindings' ((x.findings_eq_nil_iff_profile t).1 hfindings)⟩
  -- a method that is not one of the module is a hidden method
  have hnew : ∀ t' x', (t', x') ∈ m'.methods → (∀ p ∈ m.methods, p.2.id ≠ x'.id) →
      x'.name = initializerName ∧ x'.findings = [] := by
    intro t' x' hx' hnone
    obtain ⟨p, hp, hid, hname, hfindings⟩ :=
      exists_profile_of_weave hm uniform woven hx'
    rcases hsound.profiles p hp with hp | hp
    · obtain ⟨t, x, hx, rfl⟩ := mem_profiles.1 hp
      exact (hnone _ hx hid).elim
    · exact ⟨hname ▸ hp.name_eq, hfindings hp.verifies⟩
  refine ⟨hold, hnew, fun hpass => ?_⟩
  rw [allPass_verify_iff] at hpass ⊢
  rintro ⟨t', x'⟩ hx'
  obtain ⟨p, hp, _, _, hfindings⟩ := exists_profile_of_weave hm uniform woven hx'
  rcases hsound.profiles p hp with hp | hp
  · obtain ⟨t, x, hx, rfl⟩ := mem_profiles.1 hp
    exact hfindings ((x.findings_eq_nil_iff_profile t).1 (hpass _ hx))
  · exact hfindings hp.verifies

end Module

private theorem Sample.hasUniformMarkers : Sample.module.HasUniformMarkers Sample.settings.markers := by
  intro t ht marker hscan
  simp only [Sample.module, List.mem_cons, List.not_mem_nil, or_false] at ht
  rcases ht with rfl | rfl
  · have hdeclared : (Sample.markerDecl.scan Sample.settings.markers).declared =
        .ok (some Sample.admission.marker) := by
      rfl
    obtain rfl : Sample.admission.marker = marker := by simpa using hdeclared.symm.trans hscan
    decide
  · have hdeclared : (Sample.owner.scan Sample.settings.markers).declared = .ok none := by rfl
    cases hdeclared.symm.trans hscan

namespace Module

/-- The sample, woven: a hidden method comes to it, and all its bodies verify. -/
theorem woven_module_verifies_sample :
    ∃ report m', Sample.module.weave Sample.settings = (.ok report, m') ∧
      (m'.method? ⟨3⟩).isSome ∧ m'.verify.certificate.allPass := by
  obtain ⟨report, m', hweave, _⟩ := Sample.exists_weave
  have hm' : m' = (Sample.module.weave Sample.settings).2 := by rw [hweave]
  have h := woven_module_verifies Sample.decode_source Sample.hasUniformMarkers hweave
  exact ⟨report, m', hweave, hm' ▸ by decide +kernel, h.2.2 (by decide +kernel)⟩

end Module

end AdviceWeaving
