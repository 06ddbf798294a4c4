import AdviceWeaving.Proofs.Calls
import AdviceWeaving.Proofs.Respelling
import AdviceWeaving.Proofs.Shape

/-!
# The text of woven modules

A pass over a module that can be written as text leaves one that can be written as text: what it puts in refers to
members by names that the module has, and no branch of a body leads out of it (`Module.spelled_of_weave`).  This is
shown of the outline of the pass, one visit after the other, and then of the bodies in their wrappings.
-/

namespace AdviceWeaving

/-! ### Removing markers -/

section

variable {names : MarkerNames}

private theorem Param.wellNamed_stripped {p : Param} (h : p.respelled.WellNamed) :
    (p.stripped names).respelled.WellNamed := by
  obtain ⟨hname, htype, hattributes⟩ := h
  exact ⟨hname, htype, fun a ha => hattributes a (List.mem_of_mem_filter ha)⟩

private theorem Method.Spelled.swept {x : Method} (h : x.Spelled) : (Weaving.swept names x).Spelled := by
  obtain ⟨hname, hparams, hret, hattributes, hbody⟩ := spelled_iff.1 h
  exact spelled_iff.2 ⟨hname, List.forall_mem_map.2 fun p hp => Param.wellNamed_stripped (hparams p hp),
    hret, fun a ha => hattributes a (List.mem_of_mem_filter ha), hbody⟩

private theorem Method.Spelled.scan {x : Method} (h : x.Spelled) (owner : String) :
    (x.scan names owner).2.Spelled := by
  obtain ⟨hname, hparams, hret, hattributes, hbody⟩ := spelled_iff.1 h
  rcases x.scan_rest_cases names owner with hrest | hrest
  · rw [hrest]
    exact h
  · rw [hrest]
    refine spelled_iff.2
      ⟨hname, fun p' hp' => ?_, hret, fun a ha => hattributes a (List.mem_of_mem_filter ha), hbody⟩
    obtain ⟨p, hp, rfl | rfl⟩ := exists_of_forall₂ (forall₂_scanParams names x.params) p' hp'
    · exact hparams p' hp
    · exact Param.wellNamed_stripped (hparams p hp)

private theorem TypeDecl.Spelled.scan {t : TypeDecl} (h : t.Spelled) : (t.scan names).rest.Spelled := by
  obtain ⟨hname, hbase, hattributes, hfields, hproperties, hmethods⟩ := spelled_iff.1 h
  rcases t.scan_rest_cases names with hrest | hrest
  · rw [hrest]
    exact h
  · rw [hrest]
    refine spelled_iff.2
      ⟨hname, hbase, fun a ha => hattributes a (List.mem_of_mem_filter ha), hfields, hproperties, fun x' hx' => ?_⟩
    obtain ⟨x, hx, rfl | rfl⟩ := exists_of_forall₂ (forall₂_scanMethods names t.name t.methods) x' hx'
    · exact hmethods x' hx
    · exact (hmethods x hx).scan t.name

/-- The calls of advice name its type and its method. -/
private theorem TypeDecl.Spelled.wellNamed_call {t : TypeDecl} (h : t.Spelled) {marker : MarkerType}
    (hdeclared : (t.scan names).declared = .ok (some marker)) :
    ∀ a ∈ marker.advice, a.call.respelled.WellNamed := by
  intro a ha
  obtain ⟨x, hx, hdeclares⟩ := t.exists_declares hdeclared a ha
  obtain ⟨htype, -, -, -, -, hmethods⟩ := spelled_iff.1 h
  obtain ⟨hname, hparams, hret, -⟩ := Method.spelled_iff.1 (hmethods x hx)
  rw [hdeclares.call_eq]
  refine ⟨htype, hname, List.forall_mem_map.2 (List.forall_mem_map.2 fun p hp => ?_), hret⟩
  exact (hparams p hp).2.1

end

/-! ### Hidden members -/

section

variable {storage : HandleStorage} {t : TypeDecl}

private theorem wellNamed_handleField (h : t.Spelled) : (handleField storage t).respelled.WellNamed := by
  have hname : isName handleFieldName := by decide
  exact ⟨hname, ValueType.wellNamed_respelled.2 (TypeDecl.spelled_iff.1 h).1, fun a ha => by cases ha⟩

private theorem TypeDecl.Spelled.wellNamed_handle (h : t.Spelled) : (t.handle storage).respelled.WellNamed := by
  obtain ⟨htype, -, -, hfields, -⟩ := spelled_iff.1 h
  have hfield : ((t.field? handleFieldName).getD (handleField storage t)).respelled.WellNamed := by
    cases hfound : t.field? handleFieldName with
    | none => exact wellNamed_handleField h
    | some f => exact hfields f (List.mem_of_find?_eq_some hfound)
  obtain ⟨hname, htype', -⟩ := hfield
  have hmember {name : String} (h : isName name) : isMemberName name := by simp [isMemberName, h]
  exact ⟨htype, hmember hname, htype'⟩

private theorem spelled_initializerMethod {field : FieldSig} (h : field.respelled.WellNamed) :
    (initializerMethod storage field).Spelled := by
  have hname : isMemberName initializerName := by decide
  have hattribute : Attribute.WellNamed { name := debuggerHiddenName } := by decide +kernel
  refine Method.spelled_iff.2 ⟨hname, by simp [initializerMethod], trivial,
    List.forall_mem_singleton.2 hattribute, fun b hb => ?_⟩
  obtain rfl := Option.some.inj hb
  refine Body.spelled_iff.2 ⟨by simp [Body.ofCode], ?_, ?_⟩
  · cases storage <;>
      simp [Body.ofCode, initializerCode, Instruction.respelled, Instruction.WellNamed, h]
  · cases storage <;> simp [Body.TargetsInRange, Body.ofCode, initializerCode, Instruction.target?]

end

/-! ### Changes of a module -/

namespace Module.Spelled

variable {m : Module}

private theorem of_type? (h : m.Spelled) {id : TypeId} {t : TypeDecl} (ht : m.type? id = some t) : t.Spelled :=
  h.2 t (List.mem_of_find?_eq_some ht)

private theorem updateType (h : m.Spelled) {id : TypeId} {t : TypeDecl} (ht : m.type? id = some t)
    {f : TypeDecl → TypeDecl} (hf : (f t).Spelled) : (m.updateType id f).Spelled := by
  obtain ⟨front, back, htypes, -, hupdate⟩ := exists_updateType_eq ht
  refine ⟨h.1, fun t' ht' => ?_⟩
  have hall := h.2
  rw [hupdate] at ht'
  rw [htypes] at hall
  simp only [List.forall_mem_append, List.forall_mem_cons] at hall
  obtain ⟨hfront, -, hback⟩ := hall
  rcases List.mem_append.1 ht' with ht' | ht'
  · exact hfront t' ht'
  · rcases List.mem_cons.1 ht' with rfl | ht'
    · exact hf
    · exact hback t' ht'

private theorem mapMethods (h : m.Spelled) {f : TypeDecl → Method → Method}
    (hf : ∀ t x, x.Spelled → (f t x).Spelled) : (m.mapMethods f).Spelled := by
  refine ⟨h.1, List.forall_mem_map.2 fun t ht => ?_⟩
  obtain ⟨hname, hbase, hattributes, hfields, hproperties, hmethods⟩ := TypeDecl.spelled_iff.1 (h.2 t ht)
  exact TypeDecl.spelled_iff.2 ⟨hname, hbase, hattributes, hfields, hproperties,
    List.forall_mem_map.2 fun x hx => hf t x (hmethods x hx)⟩

private theorem addHandle (h : m.Spelled) {t : TypeDecl} (ht : m.type? t.id = some t) (storage : HandleStorage) :
    ((m.addHandleField storage t).addInitializer storage t).Spelled := by
  obtain ⟨field?, method?, _, heq, hfield, hmethod⟩ := exists_addHandle_eq ht storage
  obtain ⟨hname, hbase, hattributes, hfields, hproperties, hmethods⟩ := TypeDecl.spelled_iff.1 (h.of_type? ht)
  rw [heq]
  refine h.updateType ht (f := fun _ => { t with
    fields := t.fields ++ field?.toList, methods := t.methods ++ method?.toList }) (TypeDecl.spelled_iff.2
      ⟨hname, hbase, hattributes, List.forall_mem_append.2 ⟨hfields, fun f hf => ?_⟩, hproperties,
        List.forall_mem_append.2 ⟨hmethods, fun x hx => ?_⟩⟩)
  · rw [hfield f (Option.mem_toList.1 hf)]
    exact wellNamed_handleField (h.of_type? ht)
  · rw [hmethod x (Option.mem_toList.1 hx)]
    exact spelled_initializerMethod (h.of_type? ht).wellNamed_handle

end Module.Spelled

/-! ### The outline of a pass -/

/-- What a pass has decided can be written as text. -/
structure Outline.Spelled (o : Outline) : Prop where
  module : o.module.Spelled
  handles : ∀ a ∈ o.admissions, ∀ f ∈ a.handle?, f.respelled.WellNamed
  calls : ∀ a ∈ o.admissions, ∀ x ∈ a.marker.advice, x.call.respelled.WellNamed

namespace Outline.Spelled

variable {o : Outline} {settings : Settings}

/-- One more marker type that is woven. -/
private theorem addAdmission (h : o.Spelled) {m : Module} (hm : m.Spelled) {a : Admission}
    (hhandle : ∀ f ∈ a.handle?, f.respelled.WellNamed)
    (hcalls : ∀ x ∈ a.marker.advice, x.call.respelled.WellNamed) :
    ({ module := m, admissions := o.admissions ++ [a] } : Outline).Spelled where
  module := hm
  handles := List.forall_mem_append.2 ⟨h.handles, List.forall_mem_singleton.2 hhandle⟩
  calls := List.forall_mem_append.2 ⟨h.calls, List.forall_mem_singleton.2 hcalls⟩

private theorem enlist (h : o.Spelled) {marker : MarkerType}
    (hcalls : ∀ x ∈ marker.advice, x.call.respelled.WellNamed) :
    (o.enlist settings marker).Spelled := by
  refine enlist_cases (motive := Outline.Spelled) h (fun _ _ => ?_) fun t _ _ _ ht => ?_
  · exact h.addAdmission h.module (fun f hf => by cases hf) hcalls
  · have hspelled := h.module.of_type? ht
    refine h.addAdmission (h.module.addHandle ht settings.handleStorage) (fun f hf => ?_) hcalls
    obtain rfl := Option.some.inj hf
    exact hspelled.wellNamed_handle

private theorem scanType (h : o.Spelled) {id : TypeId} {t : TypeDecl} (ht : o.module.type? id = some t) :
    (o.scanType settings id t).Spelled :=
  { h with module := h.module.updateType ht (h.module.of_type? ht).scan }

private theorem weaveType (h : o.Spelled) (id : TypeId) : (o.weaveType settings id).Spelled := by
  refine weaveType_cases (motive := Outline.Spelled) (fun _ => h) (fun t ht => h.scanType ht)
    fun t marker ht hdeclared _ => ?_
  exact (h.scanType ht).enlist ((h.module.of_type? ht).wellNamed_call hdeclared)

private theorem visitType (h : o.Spelled) (id : TypeId) : (o.visitType settings id).Spelled := by
  refine visitType_cases (motive := Outline.Spelled) h (h.weaveType id) fun o' h' => ?_
  refine { h' with module := h'.module.mapMethods fun t x hx => ?_ }
  split
  · exact hx.swept
  · exact hx

/-- The types of a list are visited from the last to the first. -/
private theorem foldr_visitType {m : Module} (h : m.Spelled) (ids : List TypeId) :
    (ids.foldr (fun id (o : Outline) => o.visitType settings id) { module := m }).Spelled := by
  induction ids with
  | nil => exact ⟨h, fun a ha => (by cases ha), fun a ha => (by cases ha)⟩
  | cons id ids ih => exact ih.visitType id

end Outline.Spelled

/-- The outline of a pass over a module that can be written as text. -/
private theorem Module.Spelled.outline {m : Module} (h : m.Spelled) (settings : Settings) :
    (m.outline settings).Spelled :=
  Outline.Spelled.foldr_visitType h _

/-! ### The code around a body -/

/-- Neither a field nor a method is named. -/
def Instruction.NamesNone : Instruction → Prop
  | .field _ _ | .call _ _ => False
  | _ => True

/-- What a pass may put around the body of a method. -/
inductive Outline.Puts (o : Outline) (t : Target) : Instruction → Prop
  | plain {i : Instruction} : i.NamesNone → o.Puts t i
  | handle {op : FieldOp} {a : Admission} {f : FieldSig} :
      a ∈ o.admissions → a.handle? = some f → o.Puts t (.field op f)
  | initializer : o.Puts t (.call .call (initializerSig t.owner))
  | advice {a : Admission} {adv : Advice} :
      a ∈ o.admissions → adv ∈ a.marker.advice → o.Puts t (.call .call adv.call)

namespace Outline

variable {o : Outline} {storage : HandleStorage} {t : Target} {a : Admission} {adv : Advice}

private theorem puts_receiver (ha : a ∈ o.admissions) : ∀ i ∈ a.receiver storage t, o.Puts t i := by
  unfold Admission.receiver
  cases hfield : a.handle? with
  | none => simp
  | some field =>
    have hhandle (op : FieldOp) : o.Puts t (.field op field) := .handle ha hfield
    have hthis : o.Puts t (.slot .ldarg 0) := .plain trivial
    have hnull : o.Puts t (.simple .ldnull) := .plain trivial
    cases storage <;> cases hstatic : t.isStatic <;> simp [loadHandle, hstatic, hhandle, hthis, hnull]

private theorem puts_callCode (ha : a ∈ o.admissions) (hadv : adv ∈ a.marker.advice) :
    ∀ i ∈ adv.callCode, o.Puts t i :=
  List.forall_mem_cons.2 ⟨.advice ha hadv, List.forall_mem_singleton.2 (.plain trivial)⟩

private theorem puts_entryCode (ha : a ∈ o.admissions) (hadv : adv ∈ a.marker.advice) :
    ∀ i ∈ adv.entryCode (a.receiver storage t) t, o.Puts t i := by
  refine List.forall_mem_append.2 ⟨List.forall_mem_append.2 ⟨puts_receiver ha, ?_⟩, puts_callCode ha hadv⟩
  exact List.forall_mem_map.2 fun b _ => .plain trivial

private theorem puts_exitCode (ha : a ∈ o.admissions) (hadv : adv ∈ a.marker.advice) (slot? : Option UInt16) :
    ∀ i ∈ adv.exitCode (a.receiver storage t) t slot?, o.Puts t i := by
  have hslot (op : SlotOp) : ∀ i ∈ (slot?.map (Instruction.slot op)).toList, o.Puts t i := by
    cases slot? with
    | none => simp
    | some slot => exact List.forall_mem_singleton.2 (.plain trivial)
  have hload : ∀ i ∈ adv.bindings.map (·.load t slot?), o.Puts t i := by
    refine List.forall_mem_map.2 fun b _ => ?_
    unfold Binding.load
    split <;> exact .plain trivial
  simp only [Advice.exitCode, List.forall_mem_append]
  exact ⟨⟨⟨⟨hslot .stloc, puts_receiver ha⟩, hload⟩, puts_callCode ha hadv⟩, hslot .ldloc⟩

/-- What stands around the body of a method. -/
theorem puts_wrapping (o : Outline) (storage : HandleStorage) (p : Profile) (locals : Nat) :
    (∀ i ∈ (o.wrapping storage p locals).entry, o.Puts p.target i) ∧
      ∀ i ∈ (o.wrapping storage p locals).exit, o.Puts p.target i := by
  have hprologue : ∀ i ∈ o.prologue p, o.Puts p.target i := by
    unfold prologue
    split
    · exact List.forall_mem_cons.2 ⟨.plain trivial, List.forall_mem_singleton.2 .initializer⟩
    · simp
  refine ⟨List.forall_mem_append.2 ⟨hprologue, List.forall_mem_flatMap.2 fun q hq => ?_⟩,
    List.forall_mem_flatMap.2 fun q hq => ?_⟩
  · obtain ⟨ha, -, hadv⟩ := mem_adviceFor.1 (List.mem_of_mem_filter hq)
    exact puts_entryCode ha hadv
  · obtain ⟨ha, -, hadv⟩ := mem_adviceFor.1 (List.mem_of_mem_filter hq)
    exact puts_exitCode ha hadv _

end Outline

namespace Outline.Spelled

variable {o : Outline} {storage : HandleStorage}

/-- What stands around a body can be written as text. -/
private theorem wellNamed (h : o.Spelled) {t : Target} {i : Instruction} (hi : o.Puts t i) (howner : isName t.owner) :
    i.respelled.WellNamed := by
  cases hi with
  | plain hnone => cases i <;> first | exact hnone.elim | trivial
  | handle ha hf => exact h.handles _ ha _ hf
  | initializer =>
    have hname : isMemberName initializerName := by decide
    exact ⟨howner, hname, by simp [initializerSig, MethodSig.respelled], trivial⟩
  | advice ha hadv => exact h.calls _ ha _ hadv

/-- A body in its wrapping can be written as text. -/
private theorem around (h : o.Spelled) {p : Profile} (hp : p ∈ o.module.profiles) {b body : Body}
    (hb : p.body = some b) {cursor : Nat} {slot? : Option UInt16}
    (haround : (o.wrapping storage p b.locals.size).Around b body cursor slot?) : body.Spelled := by
  obtain ⟨t, x, hx, rfl⟩ := Module.mem_profiles.1 hp
  obtain ⟨ht, hx⟩ := Module.mem_methods.1 hx
  obtain ⟨howner, -, -, -, -, hmethods⟩ := TypeDecl.spelled_iff.1 (h.module.2 t ht)
  obtain ⟨-, -, hret, -, hbody⟩ := Method.spelled_iff.1 (hmethods x hx)
  obtain ⟨hlocals, hcode, hrange⟩ := Body.spelled_iff.1 (hbody b hb)
  obtain ⟨hentry, hexit⟩ := o.puts_wrapping storage (x.profile t) b.locals.size
  refine Body.spelled_iff.2 ⟨?_, fun i hi => ?_, haround.inRange hrange⟩
  · rw [haround.locals_eq, Array.toList_append, List.forall_mem_append]
    refine ⟨hlocals, fun type htype => ?_⟩
    have hslot : type ∈ (o.wrapping storage (x.profile t) b.locals.size).slot? := by simpa using htype
    simp only [Outline.wrapping, Option.mem_def] at hslot
    split at hslot
    · obtain rfl := Option.some.inj hslot
      exact hret
    · cases hslot
  · rcases haround.mem_code hi with hi | hi | ⟨j, hj, f, rfl⟩
    · exact h.wellNamed (hentry i hi) howner
    · exact h.wellNamed (hexit i hi) howner
    · have hj := hcode j hj
      cases j <;> exact hj

end Outline.Spelled

/-- A pass over a module that can be written as text leaves one that can. -/
theorem Module.spelled_of_weave {m m' : Module} {settings : Settings} {report : PassReport}
    (hm : m.Numbered) (h : m.Spelled) (hw : m.weave settings = (.ok report, m')) : m'.Spelled := by
  obtain ⟨bodies, rfl, haround⟩ := exists_bodies_of_weave hm hw
  have ho := h.outline settings
  refine ⟨ho.module.1, List.forall_mem_map.2 fun t ht => ?_⟩
  obtain ⟨hname, hbase, hattributes, hfields, hproperties, hmethods⟩ := TypeDecl.spelled_iff.1 (ho.module.2 t ht)
  refine TypeDecl.spelled_iff.2 ⟨hname, hbase, hattributes, hfields, hproperties,
    List.forall_mem_map.2 fun x hx => ?_⟩
  obtain ⟨hname, hparams, hret, hattributes, -⟩ := Method.spelled_iff.1 (hmethods x hx)
  refine Method.spelled_iff.2 ⟨hname, hparams, hret, hattributes, fun b' hb' => ?_⟩
  obtain ⟨b, hb, rfl⟩ := Option.map_eq_some_iff.1 hb'
  have hp : x.profile t ∈ (m.outline settings).module.profiles :=
    mem_profiles.2 ⟨t, x, mem_methods.2 ⟨ht, hx⟩, rfl⟩
  obtain ⟨cursor, slot?, haround⟩ := haround _ hp b hb
  exact ho.around hp hb haround

end AdviceWeaving
