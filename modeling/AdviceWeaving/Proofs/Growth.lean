import AdviceWeaving.Proofs.Framing
import AdviceWeaving.Proofs.HiddenMembers

/-!
# What types gain

Weaving takes nothing from a type but markers and adds little: the field of its handle and the hidden method, if the
type has no members of these names, and code in bodies.  What stays of a method is its `Prototype`, and `TypeDecl.Grows`
says that a type has gained one field and one prototype at most.  To grow is transitive, since a member that has been
gained is not gained again (`GainsOne.trans`), and each edit of a pass makes a module grow.  A type, a field or a method
that is found in a module is found in all that it grows into (`Module.Grows.type?`, `Module.Grows.method?`).
-/

namespace AdviceWeaving

/-! ### Lists that gain one element -/

/-- The second list is the first, or the first with one element more, for which `p` holds; then `p` holds of no
element of the first. -/
def GainsOne {α : Type} (p : α → Bool) (l l' : List α) : Prop :=
  l' = l ∨ l.find? p = none ∧ ∃ a, p a ∧ l' = l ++ [a]

namespace GainsOne

variable {α : Type} {p q : α → Bool} {l l₁ l' : List α}

private theorem refl (l : List α) : GainsOne p l l := .inl rfl

private theorem find?_eq (h : GainsOne p l l') {a : α} (ha : l.find? q = some a) : l'.find? q = some a := by
  rcases h with rfl | ⟨-, b, -, rfl⟩
  · exact ha
  · rw [List.find?_append, ha]
    rfl

/-- Nothing more is gained. -/
private theorem eq_of_find? (h : GainsOne p l l') (hp : (l.find? p).isSome) : l' = l := by
  rcases h with rfl | ⟨hnone, -⟩
  · rfl
  · rw [hnone] at hp
    cases hp

theorem trans (h : GainsOne p l l₁) (h' : GainsOne p l₁ l') : GainsOne p l l' := by
  rcases h with rfl | ⟨hnone, a, ha, rfl⟩
  · exact h'
  · have hsame := h'.eq_of_find? (by simp [List.find?_append, hnone, ha])
    exact .inr ⟨hnone, a, ha, hsame⟩

end GainsOne

/-! ### Types -/

/-- What weaving leaves as it is in a method. -/
structure Prototype where
  id : MethodId
  signature : MethodSig
  hasBody : Bool
  deriving DecidableEq

/-- A method of the type `owner`. -/
def Method.prototype (x : Method) (owner : String) : Prototype :=
  ⟨x.id, x.signature owner, x.body.isSome⟩

namespace TypeDecl

/-- The prototypes of all methods. -/
def prototypes (t : TypeDecl) : List Prototype :=
  t.methods.map (·.prototype t.name)

/-- The type `t'` is what weaving has made of `t`: at most one field and at most one method have come, those of its
handle. -/
structure Grows (t t' : TypeDecl) : Prop where
  id_eq : t'.id = t.id
  name_eq : t'.name = t.name
  fields : GainsOne (·.name = handleFieldName) t.fields t'.fields
  prototypes : GainsOne (·.signature.name = initializerName) t.prototypes t'.prototypes

variable {t t₁ t' : TypeDecl}

theorem method?_map_prototype (t : TypeDecl) (name : String) :
    (t.method? name).map (·.prototype t.name) = t.prototypes.find? (·.signature.name = name) := by
  rw [prototypes, List.find?_map]
  rfl

namespace Grows

private theorem refl (t : TypeDecl) : t.Grows t := ⟨rfl, rfl, .refl _, .refl _⟩

theorem trans (h : t.Grows t₁) (h' : t₁.Grows t') : t.Grows t' where
  id_eq := h'.id_eq.trans h.id_eq
  name_eq := h'.name_eq.trans h.name_eq
  fields := h.fields.trans h'.fields
  prototypes := h.prototypes.trans h'.prototypes

theorem field? (h : t.Grows t') {name : String} {f : Field} (hf : t.field? name = some f) :
    t'.field? name = some f :=
  h.fields.find?_eq hf

theorem method? (h : t.Grows t') {name : String} {x : Method} (hx : t.method? name = some x) :
    ∃ x', t'.method? name = some x' ∧ x'.prototype t.name = x.prototype t.name := by
  have hfind : t.prototypes.find? (·.signature.name = name) = some (x.prototype t.name) := by
    rw [← method?_map_prototype, hx]
    rfl
  have hfind' := h.prototypes.find?_eq hfind
  rw [← method?_map_prototype, Option.map_eq_some_iff, h.name_eq] at hfind'
  exact hfind'

/-- What has become of a method. -/
private theorem exists_method (h : t.Grows t') {x : Method} (hx : x ∈ t.methods) :
    ∃ x' ∈ t'.methods, x'.prototype t.name = x.prototype t.name := by
  have hmem : x.prototype t.name ∈ t'.prototypes := by
    have hmem : x.prototype t.name ∈ t.prototypes := List.mem_map_of_mem hx
    rcases h.prototypes with heq | ⟨-, a, -, heq⟩ <;> rw [heq]
    · exact hmem
    · exact List.mem_append_left _ hmem
  rw [TypeDecl.prototypes, List.mem_map, h.name_eq] at hmem
  exact hmem

end Grows

end TypeDecl

/-! ### What makes a type grow -/

/-- Markers do not matter. -/
private theorem Method.Frame.prototype_eq {names : MarkerNames} {x x' : Method} (h : x.Frame names False x')
    (owner : String) : x'.prototype owner = x.prototype owner := by
  have hparams : x'.params.map (·.type) = x.params.map (·.type) :=
    map_eq_of_forall₂ h.params fun _ _ hp => hp.type_eq
  simp only [prototype, signature, h.id_eq, h.name_eq, h.isStatic_eq, h.ret_eq, hparams,
    h.body.resolve_right fun hfalse => hfalse]

namespace TypeDecl

theorem grows_scan (t : TypeDecl) (names : MarkerNames) : t.Grows (t.scan names).rest := by
  have hframe : t.Frame names False (fun _ => False) (t.scan names).rest := t.frame_scan
  obtain ⟨field?, hfields, hfield⟩ := hframe.fields
  obtain ⟨kept, method?, hmethods, hkept, hmethod⟩ := hframe.methods
  obtain rfl : field? = none := Option.eq_none_iff_forall_ne_some.2 fun f hf => (hfield f hf).2
  obtain rfl : method? = none := Option.eq_none_iff_forall_ne_some.2 fun x hx => (hmethod x hx).2
  have hprototypes : (t.scan names).rest.prototypes = t.prototypes := by
    rw [prototypes, prototypes, hframe.name_eq, hmethods, Option.toList_none, List.append_nil]
    exact map_eq_of_forall₂ hkept fun _ _ h => h.prototype_eq t.name
  refine ⟨hframe.id_eq, hframe.name_eq, .inl ?_, .inl hprototypes⟩
  rw [hfields, Option.toList_none, List.append_nil]

/-- A method with another body, and maybe fewer markers, in the place of another. -/
private theorem grows_modify {before after : List Method} {x x' : Method} {t : TypeDecl}
    (hmethods : t.methods = before ++ x :: after) (hx : x'.prototype t.name = x.prototype t.name) :
    t.Grows { t with methods := before ++ x' :: after } where
  id_eq := rfl
  name_eq := rfl
  fields := .refl _
  prototypes := .inl (by simp [prototypes, hmethods, hx])

theorem prototypes_withHandle {t : TypeDecl} (storage : HandleStorage) (id : MethodId)
    (h : t.method? initializerName = none) :
    (t.withHandle storage id).prototypes =
      t.prototypes ++
        [({ initializerMethod storage (t.handle storage) with id } : Method).prototype t.name] := by
  have hprologue (x : Method) (code : List Instruction) : (x.prologue code).prototype t.name = x.prototype t.name := by
    unfold Method.prologue
    split
    · simp [Method.prototype, Method.signature]
    · rfl
  simp [withHandle, prototypes, methodsWithHandle, h, hprologue, Function.comp_def]

theorem grows_withHandle (t : TypeDecl) (storage : HandleStorage) (id : MethodId) :
    t.Grows (t.withHandle storage id) where
  id_eq := rfl
  name_eq := rfl
  fields := by
    cases hf : t.field? handleFieldName with
    | some f => exact .inl (by simp [withHandle, fieldsWithHandle, hf])
    | none => exact .inr ⟨hf, handleField storage t, by simp [handleField], by simp [withHandle, fieldsWithHandle, hf]⟩
  prototypes := by
    cases hm : t.method? initializerName with
    | some x => exact .inl (by simp [withHandle, prototypes, methodsWithHandle, hm])
    | none =>
      exact .inr ⟨by rw [← method?_map_prototype, hm]; rfl, _, decide_eq_true rfl,
        prototypes_withHandle storage id hm⟩

end TypeDecl

/-! ### Modules -/

namespace Module

/-- The module `m'` is what weaving has made of `m`. -/
def Grows (m m' : Module) : Prop :=
  List.Forall₂ TypeDecl.Grows m.types m'.types

variable {m m₁ m' : Module}

namespace Grows

theorem refl (m : Module) : m.Grows m := List.forall₂_same.2 fun t _ => .refl t

theorem trans (h : m.Grows m₁) (h' : m₁.Grows m') : m.Grows m' :=
  forall₂_trans (fun _ _ _ h h' => h.trans h') h h'

private theorem of_types (h : m'.types = m.types) : m.Grows m' := by
  rw [Grows, h]
  exact Grows.refl m

/-- What has become of a type. -/
theorem type? (h : m.Grows m') {id : TypeId} {t : TypeDecl} (ht : m.type? id = some t) :
    ∃ t', m'.type? id = some t' ∧ t.Grows t' := by
  unfold Module.type? at ht ⊢
  unfold Grows at h
  generalize m.types = types, m'.types = types' at h ht ⊢
  induction h with
  | nil => cases ht
  | @cons u u' _ _ hu _ ih =>
    by_cases hid : u.id = id
    · rw [List.find?_cons_of_pos (by simpa using hid)] at ht
      cases ht
      exact ⟨u', by rw [List.find?_cons_of_pos (by simpa [hu.id_eq] using hid)], hu⟩
    · rw [List.find?_cons_of_neg (by simpa using hid)] at ht
      rw [List.find?_cons_of_neg (by simpa [hu.id_eq] using hid)]
      exact ih ht

/-- What has become of a method; no other has taken its identifier. -/
theorem method? (h : m.Grows m') (hm : m.Numbered) (hm' : m'.Numbered) {id : MethodId} {t : TypeDecl} {x : Method}
    (hx : m.method? id = some (t, x)) :
    ∃ t' x', m'.method? id = some (t', x') ∧ t.Grows t' ∧ x'.prototype t.name = x.prototype t.name := by
  obtain ⟨hmem, hid⟩ := hm.method?_eq_some_iff.1 hx
  obtain ⟨ht, hxt⟩ := mem_methods.1 hmem
  obtain ⟨t', ht', hgrows⟩ := h.type? (hm.type?_eq_some_iff.2 ⟨ht, rfl⟩)
  obtain ⟨x', hx', hprototype⟩ := hgrows.exists_method hxt
  have hid' : x'.id = x.id := congrArg Prototype.id hprototype
  exact ⟨t', x', hm'.method?_eq_some_iff.2
    ⟨mem_methods.2 ⟨(hm'.type?_eq_some_iff.1 ht').1, hx'⟩, hid'.trans hid⟩, hgrows, hprototype⟩

end Grows

private theorem grows_of_append {front back : List TypeDecl} {t t' : TypeDecl} (htypes : m.types = front ++ t :: back)
    (htypes' : m'.types = front ++ t' :: back) (h : t.Grows t') : m.Grows m' := by
  rw [Grows, htypes, htypes']
  exact List.rel_append (List.forall₂_same.2 fun t _ => .refl t) (.cons h (List.forall₂_same.2 fun t _ => .refl t))

theorem grows_put {id : TypeId} {t t' : TypeDecl} (ht : m.type? id = some t) (h : t.Grows t') :
    m.Grows (m.put t') := by
  obtain ⟨front, back, htypes, -, hput⟩ := exists_put_eq ht
  exact grows_of_append htypes (hput t' (h.id_eq.trans (id_of_type? ht))) h

theorem grows_withHandle {id : TypeId} {t : TypeDecl} (ht : m.type? id = some t) (storage : HandleStorage) :
    m.Grows (m.withHandle storage t) :=
  (grows_put ht (t.grows_withHandle storage _)).trans (.of_types rfl)

/-- A change of a method that leaves what weaving leaves. -/
private theorem grows_updateMethod {id : MethodId} {t : TypeDecl} {x : Method} (h : m.method? id = some (t, x))
    {f : Method → Method} (hf : (f x).prototype t.name = x.prototype t.name) : m.Grows (m.updateMethod id f) := by
  obtain ⟨front, back, before, after, htypes, hmethods, -, -, hupdate⟩ := exists_updateMethod_eq h
  exact grows_of_append htypes (hupdate f) (TypeDecl.grows_modify hmethods hf)

theorem grows_setBody {id : MethodId} {b : Body} (h : m.body? id = some b) (b' : Body) : m.Grows (m.setBody id b') := by
  obtain ⟨⟨t, x⟩, hx, hb⟩ := Option.bind_eq_some_iff.1 h
  refine grows_updateMethod hx ?_
  have hsome : x.body = some b := hb
  simp [Method.prototype, Method.signature, hsome]

theorem grows_swept {id : MethodId} {t : TypeDecl} {x : Method} (h : m.method? id = some (t, x))
    (names : MarkerNames) : m.Grows (m.updateMethod id (Weaving.swept names)) :=
  grows_updateMethod h (Method.Frame.prototype_eq (.swept x) t.name)

end Module

end AdviceWeaving
