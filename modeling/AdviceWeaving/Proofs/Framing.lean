import AdviceWeaving.Proofs.Verdicts

/-!
# What a pass leaves as it is

A pass takes markers away, appends hidden members, and changes code; all else stays as it is and where it is.  The
relations `Param.Frame`, `Method.Frame` and `TypeDecl.Frame` say so of a part of a module and what has become of it.
They hold of every type after reading its markers (`TypeDecl.frame_scan`), after adding hidden members and after the
orphan sweep, so they hold of the outline of a pass (`Module.Numbered.framed_outline`).  What the outline puts around
a body is empty but for carriers of accepted marker types and for constructors, so they hold of what a pass leaves
(`Module.frame_of_weave`).
-/

namespace AdviceWeaving

/-! ### Parts of a module -/

/-- The parameter has lost at most its markers. -/
structure Param.Frame (names : MarkerNames) (p p' : Param) : Prop where
  name_eq : p'.name = p.name
  type_eq : p'.type = p.type
  attributes : p'.attributes = p.attributes ∨ p'.attributes = strip p.attributes names.argument

/-- The method, and its parameters, have lost at most their markers; its code may differ if `B` holds. -/
structure Method.Frame (names : MarkerNames) (B : Prop) (x x' : Method) : Prop where
  id_eq : x'.id = x.id
  name_eq : x'.name = x.name
  access_eq : x'.access = x.access
  isStatic_eq : x'.isStatic = x.isStatic
  params : List.Forall₂ (Param.Frame names) x.params x'.params
  ret_eq : x'.ret = x.ret
  attributes : x'.attributes = x.attributes ∨ x'.attributes = strip x.attributes names.rise
  body : x'.body = x.body ∨ B

/-- The type and its members have lost at most their markers; hidden members may have come if `G` holds, and the code
of a method `x` may differ if `B x` holds. -/
structure TypeDecl.Frame (names : MarkerNames) (G : Prop) (B : Method → Prop) (t t' : TypeDecl) : Prop where
  id_eq : t'.id = t.id
  name_eq : t'.name = t.name
  kind_eq : t'.kind = t.kind
  base_eq : t'.base = t.base
  properties_eq : t'.properties = t.properties
  attributes : t'.attributes = t.attributes ∨ t'.attributes = strip t.attributes names.injection
  fields : ∃ hidden : Option Field, t'.fields = t.fields ++ hidden.toList ∧
    ∀ f ∈ hidden, f.name = handleFieldName ∧ G
  methods : ∃ kept, ∃ hidden : Option Method, t'.methods = kept ++ hidden.toList ∧
    List.Forall₂ (fun x x' => x.Frame names (B x) x') t.methods kept ∧
    ∀ x ∈ hidden, x.name = initializerName ∧ G

/-! ### Laws -/

variable {names : MarkerNames}

/-- To lose markers twice is to lose them once. -/
private theorem attributes_trans {a b c : List Attribute} {name : String}
    (h : b = a ∨ b = strip a name) (h' : c = b ∨ c = strip b name) : c = a ∨ c = strip a name := by
  rcases h with rfl | rfl
  · exact h'
  · right
    rcases h' with rfl | rfl
    · rfl
    · exact strip_strip a name

theorem forall₂_trans {α : Type} {R S T : α → α → Prop}
    (h : ∀ x y z, R x y → S y z → T x z) :
    ∀ {l₁ l₂ l₃ : List α}, List.Forall₂ R l₁ l₂ → List.Forall₂ S l₂ l₃ → List.Forall₂ T l₁ l₃
  | _, _, _, .nil, .nil => .nil
  | _, _, _, .cons h₁ hs₁, .cons h₂ hs₂ => .cons (h _ _ _ h₁ h₂) (forall₂_trans h hs₁ hs₂)

private theorem exists_mem_of_forall₂ {α : Type} {R : α → α → Prop} {l l' : List α}
    (h : List.Forall₂ R l l') {x : α} (hx : x ∈ l) : ∃ y ∈ l', R x y := by
  induction h with
  | nil => cases hx
  | cons hab _ ih =>
    rcases List.mem_cons.1 hx with rfl | hx
    · exact ⟨_, List.mem_cons_self, hab⟩
    · obtain ⟨y, hy, hxy⟩ := ih hx
      exact ⟨y, List.mem_cons_of_mem _ hy, hxy⟩

namespace Param.Frame

private theorem refl (p : Param) : p.Frame names p := ⟨rfl, rfl, .inl rfl⟩

private theorem stripped (p : Param) : p.Frame names (p.stripped names) := ⟨rfl, rfl, .inr rfl⟩

private theorem trans {p q r : Param} (h : p.Frame names q) (h' : q.Frame names r) : p.Frame names r where
  name_eq := h'.name_eq.trans h.name_eq
  type_eq := h'.type_eq.trans h.type_eq
  attributes := attributes_trans h.attributes h'.attributes

end Param.Frame

namespace Method.Frame

variable {B : Prop} {x y z : Method}

private theorem refl (x : Method) : x.Frame names B x :=
  ⟨rfl, rfl, rfl, rfl, List.forall₂_same.2 fun p _ => .refl p, rfl, .inl rfl, .inl rfl⟩

/-- Later on, the code may differ. -/
private theorem trans (h : x.Frame names False y) (h' : y.Frame names B z) : x.Frame names B z where
  id_eq := h'.id_eq.trans h.id_eq
  name_eq := h'.name_eq.trans h.name_eq
  access_eq := h'.access_eq.trans h.access_eq
  isStatic_eq := h'.isStatic_eq.trans h.isStatic_eq
  params := forall₂_trans (fun _ _ _ h h' => h.trans h') h.params h'.params
  ret_eq := h'.ret_eq.trans h.ret_eq
  attributes := attributes_trans h.attributes h'.attributes
  body := h'.body.imp_left fun hbody => hbody.trans (h.body.resolve_right fun h => h)

theorem swept (x : Method) : x.Frame names B (Weaving.swept names x) where
  id_eq := rfl
  name_eq := rfl
  access_eq := rfl
  isStatic_eq := rfl
  params := List.forall₂_map_right_iff.2 (List.forall₂_same.2 fun p _ => .stripped p)
  ret_eq := rfl
  attributes := .inr rfl
  body := .inl rfl

/-- A body that is put in may be the one that was there. -/
private theorem withBody (x : Method) {b : Body} (hb : ∀ b', x.body = some b' → B ∨ b = b') :
    x.Frame names B (x.withBody b) where
  id_eq := rfl
  name_eq := rfl
  access_eq := rfl
  isStatic_eq := rfl
  params := List.forall₂_same.2 fun p _ => .refl p
  ret_eq := rfl
  attributes := .inl rfl
  body := by
    cases hx : x.body with
    | none => exact .inl (by rw [Method.withBody_body, hx]; rfl)
    | some b' =>
      rcases hb b' hx with hB | rfl
      · exact .inr hB
      · exact .inl (by rw [Method.withBody_body, hx]; rfl)

/-- What a method carries it has carried before. -/
private theorem hasAttribute (h : x.Frame names B y) {name : String}
    (hy : AdviceWeaving.hasAttribute y.attributes name) : AdviceWeaving.hasAttribute x.attributes name := by
  rcases h.attributes with heq | heq <;> rw [heq] at hy
  · exact hy
  · obtain ⟨a, ha, hname⟩ := List.any_eq_true.1 hy
    exact List.any_eq_true.2 ⟨a, (List.mem_filter.1 ha).1, hname⟩

/-- What is no marker stays. -/
private theorem hasAttribute_of_ne (h : x.Frame names B y) {name : String} (hne : name ≠ names.rise)
    (hx : AdviceWeaving.hasAttribute x.attributes name) : AdviceWeaving.hasAttribute y.attributes name := by
  rcases h.attributes with heq | heq <;> rw [heq]
  · exact hx
  · obtain ⟨a, ha, hname⟩ := List.any_eq_true.1 hx
    rw [decide_eq_true_eq] at hname
    exact List.any_eq_true.2 ⟨a, List.mem_filter.2 ⟨ha, by simpa [hname] using hne⟩, by simpa using hname⟩

end Method.Frame

namespace TypeDecl.Frame

variable {G G' : Prop} {B : Method → Prop} {t u v : TypeDecl}

private theorem mono (hG : G → G') (h : t.Frame names G B u) : t.Frame names G' B u :=
  { h with
    fields := by
      obtain ⟨hidden, hfields, hhidden⟩ := h.fields
      exact ⟨hidden, hfields, fun f hf => (hhidden f hf).imp_right hG⟩
    methods := by
      obtain ⟨kept, hidden, hmethods, hkept, hhidden⟩ := h.methods
      exact ⟨kept, hidden, hmethods, hkept, fun x hx => (hhidden x hx).imp_right hG⟩ }

private theorem refl (t : TypeDecl) : t.Frame names G B t where
  id_eq := rfl
  name_eq := rfl
  kind_eq := rfl
  base_eq := rfl
  properties_eq := rfl
  attributes := .inl rfl
  fields := ⟨none, (List.append_nil _).symm, fun _ hf => by cases hf⟩
  methods := ⟨t.methods, none, (List.append_nil _).symm, List.forall₂_same.2 fun x _ => .refl x,
    fun _ hx => by cases hx⟩

/-- A change of the methods, one by one. -/
private theorem mapMethods (h : t.Frame names G (fun _ => False) u) {f : Method → Method}
    (hname : ∀ y, (f y).name = y.name)
    (hf : ∀ x ∈ t.methods, ∀ y, x.Frame names False y → y.Frame names (B x) (f y)) :
    t.Frame names G B { u with methods := u.methods.map f } :=
  { h with
    methods := by
      obtain ⟨kept, hidden, hmethods, hkept, hhidden⟩ := h.methods
      refine ⟨kept.map f, hidden.map f, ?_, List.forall₂_map_right_iff.2 ?_, fun x hx => ?_⟩
      · rw [hmethods, List.map_append]
        cases hidden <;> rfl
      · exact (List.forall₂_and_left _ _ |>.2 ⟨fun x hx => hx, hkept⟩).imp fun x y hxy =>
          hxy.2.trans (hf x hxy.1 y hxy.2)
      · obtain ⟨y, hy, rfl⟩ := Option.map_eq_some_iff.1 hx
        exact ⟨(hname y).trans (hhidden y hy).1, (hhidden y hy).2⟩ }

/-- Hidden members, appended. -/
private theorem append (t : TypeDecl) {field : Option Field} {method : Option Method}
    (hfield : ∀ f ∈ field, f.name = handleFieldName ∧ G)
    (hmethod : ∀ x ∈ method, x.name = initializerName ∧ G) :
    t.Frame names G B
      { t with fields := t.fields ++ field.toList, methods := t.methods ++ method.toList } where
  id_eq := rfl
  name_eq := rfl
  kind_eq := rfl
  base_eq := rfl
  properties_eq := rfl
  attributes := .inl rfl
  fields := ⟨field, rfl, hfield⟩
  methods := ⟨t.methods, method, rfl, List.forall₂_same.2 fun x _ => .refl x, hmethod⟩

/-- Hidden members come once: at first there are none. -/
private theorem trans (h : t.Frame names False (fun _ => False) u) (h' : u.Frame names G (fun _ => False) v) :
    t.Frame names G (fun _ => False) v where
  id_eq := h'.id_eq.trans h.id_eq
  name_eq := h'.name_eq.trans h.name_eq
  kind_eq := h'.kind_eq.trans h.kind_eq
  base_eq := h'.base_eq.trans h.base_eq
  properties_eq := h'.properties_eq.trans h.properties_eq
  attributes := attributes_trans h.attributes h'.attributes
  fields := by
    obtain ⟨_ | f, hfields, hhidden⟩ := h.fields
    · obtain ⟨hidden', hfields', hhidden'⟩ := h'.fields
      exact ⟨hidden', by rw [hfields', hfields, Option.toList_none, List.append_nil], hhidden'⟩
    · exact (hhidden f rfl).2.elim
  methods := by
    obtain ⟨kept, _ | x, hmethods, hkept, hhidden⟩ := h.methods
    · obtain ⟨kept', hidden', hmethods', hkept', hhidden'⟩ := h'.methods
      rw [hmethods, Option.toList_none, List.append_nil] at hkept'
      exact ⟨kept', hidden', hmethods', forall₂_trans (fun _ _ _ h h' => h.trans h') hkept hkept', hhidden'⟩
    · exact (hhidden x rfl).2.elim

/-- What has become of a method. -/
private theorem exists_method (h : t.Frame names G B u) {x : Method} (hx : x ∈ t.methods) :
    ∃ y ∈ u.methods, x.Frame names (B x) y := by
  obtain ⟨kept, hidden, hmethods, hkept, -⟩ := h.methods
  obtain ⟨y, hy, hxy⟩ := exists_mem_of_forall₂ hkept hx
  exact ⟨y, hmethods ▸ List.mem_append_left _ hy, hxy⟩

end TypeDecl.Frame

/-! ### Reading markers -/

theorem Method.frame_scan (x : Method) (owner : String) :
    x.Frame names False (x.scan names owner).2 := by
  rcases x.scan_rest_cases names owner with h | h
  · rw [h]
    exact .refl x
  · rw [h]
    refine { (Frame.refl x : x.Frame names False x) with params := ?_, attributes := .inr rfl }
    refine (forall₂_scanParams names x.params).imp ?_
    rintro p _ (rfl | rfl)
    · exact .refl _
    · exact .stripped p

/-- To read the markers of a type takes away no more than markers. -/
theorem TypeDecl.frame_scan (t : TypeDecl) :
    t.Frame names False (fun _ => False) (t.scan names).rest := by
  rcases t.scan_rest_cases names with h | h
  · rw [h]
    exact .refl t
  · rw [h]
    refine { (Frame.refl t : t.Frame names False (fun _ => False) t) with
             attributes := .inr rfl
             methods := ⟨_, none, (List.append_nil _).symm, ?_, fun _ hx => by cases hx⟩ }
    refine (forall₂_scanMethods names t.name t.methods).imp ?_
    rintro x _ (rfl | rfl)
    · exact .refl _
    · exact x.frame_scan t.name

/-! ### Hidden members -/

namespace Module

variable {m : Module} {t : TypeDecl}

/-- A handle brings at most one field and at most one method. -/
private theorem frame_addHandle (ht : m.type? t.id = some t) (storage : HandleStorage) :
    let m' := (m.addHandleField storage t).addInitializer storage t
    m'.name = m.name ∧ ∃ t', m'.type? t.id = some t' ∧ t.Frame names True (fun _ => False) t' := by
  obtain ⟨field?, method?, ids, heq, hfield, hmethod⟩ := exists_addHandle_eq ht storage
  rw [heq]
  refine ⟨rfl, _, type?_put_self ht rfl, .append t (fun f hf => ?_) fun x hx => ?_⟩
  · rw [hfield f hf]
    exact ⟨rfl, trivial⟩
  · rw [hmethod x hx]
    exact ⟨rfl, trivial⟩

end Module

/-! ### Outlines -/

/-- A marker type is woven whose advice is called on instances of the type. -/
def Outline.Equips (o : Outline) (id : TypeId) : Prop :=
  ∃ a ∈ o.admissions, a.marker.owner = id ∧ a.marker.advice.any (!·.isStatic)

/-- The types of the outline are those of the module but for markers and hidden members, and advice goes to the methods
that have a body and carry the name of its marker type, if that is no marker itself. -/
structure Outline.Framed (o : Outline) (settings : Settings) (m : Module) : Prop where
  name_eq : o.module.name = m.name
  types : ∀ t ∈ m.types, ∃ t', o.module.type? t.id = some t' ∧
    t.Frame settings.markers (o.Equips t.id) (fun _ => False) t'
  carried : ∀ a ∈ o.admissions, ∀ t x, (t, x) ∈ m.methods → x.target t ∈ a.targets →
    hasAttribute x.attributes a.marker.name
  reached : ∀ a ∈ o.admissions, a.marker.name ≠ settings.markers.rise → ∀ t x, (t, x) ∈ m.methods →
    hasAttribute x.attributes a.marker.name → ∀ b, x.body = some b → x.target t ∈ a.targets

namespace Outline.Framed

variable {o : Outline} {settings : Settings} {m : Module} {id : TypeId}

private theorem start (h : m.Numbered) : ({ module := m } : Outline).Framed settings m where
  name_eq := rfl
  types t ht := ⟨t, h.type?_eq_some_iff.2 ⟨ht, rfl⟩, .refl t⟩
  carried _ ha := by cases ha
  reached _ ha := by cases ha

/-- Only carriers of its name are targets of a marker type. -/
private theorem hasAttribute_of_target (h : o.Framed settings m) (hnumbered : o.module.Numbered) {marker : String}
    {t : TypeDecl} {x : Method} (hx : (t, x) ∈ m.methods) (htarget : x.target t ∈ o.module.targets marker) :
    hasAttribute x.attributes marker := by
  obtain ⟨t', ht', hframe⟩ := h.types t (Module.mem_methods.1 hx).1
  obtain ⟨y, hy, hxy⟩ := hframe.exists_method (Module.mem_methods.1 hx).2
  obtain ⟨u, z, hz, htarget, hcarries, -⟩ := Module.mem_targets_iff.1 htarget
  -- the carrier has the identifier of the method, so it is what has become of it
  have hid : z.id = y.id := (congrArg Target.id htarget).trans hxy.id_eq.symm
  have hmem : (t', y) ∈ o.module.methods :=
    Module.mem_methods.2 ⟨List.mem_of_find?_eq_some ht', hy⟩
  obtain ⟨rfl, rfl⟩ := Prod.mk.inj (hnumbered.eq_of_id_eq hz hmem hid)
  exact hxy.hasAttribute (hasAttribute_iff.2 hcarries)

/-- All carriers of its name that have a body are targets of a marker type, if the name is no marker. -/
private theorem mem_targets_of_hasAttribute (h : o.Framed settings m) {marker : String}
    (hne : marker ≠ settings.markers.rise)
    {t : TypeDecl} {x : Method} (hx : (t, x) ∈ m.methods) (hcarries : hasAttribute x.attributes marker) {b : Body}
    (hb : x.body = some b) : x.target t ∈ o.module.targets marker := by
  obtain ⟨t', ht', hframe⟩ := h.types t (Module.mem_methods.1 hx).1
  obtain ⟨y, hy, hxy⟩ := hframe.exists_method (Module.mem_methods.1 hx).2
  have htarget : y.target t' = x.target t := by
    simp only [Method.target, hxy.id_eq, hxy.name_eq, hxy.isStatic_eq, hxy.ret_eq, hframe.name_eq]
  exact Module.mem_targets_iff.2 ⟨t', y, Module.mem_methods.2 ⟨List.mem_of_find?_eq_some ht', hy⟩, htarget,
    hasAttribute_iff.1 (hxy.hasAttribute_of_ne hne hcarries), b, (hxy.body.resolve_right False.elim).trans hb⟩

/-- A change of one type, and no more admissions. -/
private theorem updateType (h : o.Framed settings m) {t : TypeDecl} (ht : o.module.type? id = some t)
    {f : TypeDecl → TypeDecl} (hid : (f t).id = t.id)
    (hf : ∀ s ∈ m.types, s.id = id → s.Frame settings.markers (o.Equips id) (fun _ => False) (f t)) :
    ({ o with module := o.module.updateType id f } : Outline).Framed settings m where
  name_eq := h.name_eq
  types s hs := by
    by_cases hsid : s.id = id
    · exact ⟨f t, by rw [hsid]; exact Module.type?_updateType_self ht hid, hsid ▸ hf s hs hsid⟩
    · obtain ⟨s', hs', hframe⟩ := h.types s hs
      exact ⟨s', (Module.type?_updateType_of_ne ht hid hsid).trans hs', hframe⟩
  carried := h.carried
  reached := h.reached

/-- The markers of a type are read. -/
private theorem scanType (h : o.Framed settings m) (hnew : ¬ o.Equips id) {t : TypeDecl}
    (ht : o.module.type? id = some t) : (o.scanType settings id t).Framed settings m := by
  refine h.updateType ht (t.scan_rest_id _) fun s hs hsid => ?_
  obtain ⟨s', hs', hframe⟩ := h.types s hs
  rw [hsid] at hs' hframe
  cases ht.symm.trans hs'
  exact ((hframe.mono hnew).trans t.frame_scan).mono False.elim

/-- One more marker type is woven; its hidden members may come to its type. -/
private theorem addAdmission (h : o.Framed settings m) (hnumbered : o.module.Numbered) {m' : Module}
    {a : Admission} (htargets : a.targets = o.module.targets a.marker.name)
    (hname : m'.name = o.module.name) (hothers : ∀ k, k ≠ a.marker.owner → m'.type? k = o.module.type? k)
    (howner : ∀ t, o.module.type? a.marker.owner = some t → ∃ t', m'.type? a.marker.owner = some t' ∧
      ∀ s ∈ m.types, s.id = a.marker.owner → s.Frame settings.markers (o.Equips s.id) (fun _ => False) t →
        s.Frame settings.markers (a.marker.advice.any (!·.isStatic)) (fun _ => False) t') :
    (Outline.mk m' (o.admissions ++ [a])).Framed settings m where
  name_eq := hname.trans h.name_eq
  types s hs := by
    obtain ⟨s', hs', hframe⟩ := h.types s hs
    by_cases hsid : s.id = a.marker.owner
    · obtain ⟨t', ht', hgrown⟩ := howner s' (hsid ▸ hs')
      refine ⟨t', by rw [hsid]; exact ht', (hgrown s hs hsid hframe).mono fun hany => ?_⟩
      exact ⟨a, List.mem_append_right _ List.mem_cons_self, hsid.symm, hany⟩
    · refine ⟨s', (hothers s.id hsid).trans hs', hframe.mono ?_⟩
      rintro ⟨b, hb, hbowner⟩
      exact ⟨b, List.mem_append_left _ hb, hbowner⟩
  carried b hb t x hx hx' := by
    rcases List.mem_append.1 hb with hb | hb
    · exact h.carried b hb t x hx hx'
    · obtain rfl := List.mem_singleton.1 hb
      exact h.hasAttribute_of_target hnumbered hx (htargets ▸ hx')
  reached b hb hne t x hx hcarries body hbody := by
    rcases List.mem_append.1 hb with hb | hb
    · exact h.reached b hb hne t x hx hcarries body hbody
    · obtain rfl := List.mem_singleton.1 hb
      rw [htargets]
      exact h.mem_targets_of_hasAttribute hne hx hcarries hbody

private theorem enlist (h : o.Framed settings m) (hnumbered : o.module.Numbered) {marker : MarkerType}
    (hnew : ¬ o.Equips marker.owner) : (o.enlist settings marker).Framed settings m := by
  refine enlist_cases (motive := fun o' => o'.Framed settings m) h (fun _ _ => ?_) fun t _ hany hid ht => ?_
  · refine h.addAdmission hnumbered rfl rfl (fun _ _ => rfl) fun t ht => ⟨t, ht, fun s hs hsid hframe => ?_⟩
    exact hframe.mono fun hequips => absurd (hsid ▸ hequips) hnew
  · obtain ⟨hname, t', ht', hgrown⟩ : _ ∧ ∃ t', _ ∧ t.Frame settings.markers True (fun _ => False) t' :=
      Module.frame_addHandle ht settings.handleStorage
    refine h.addAdmission hnumbered rfl hname (fun k hk => ?_) fun t₁ ht₁ => ⟨t', hid ▸ ht', ?_⟩
    · exact (hnumbered.gainsHandle ht settings.handleStorage).others k (hid.symm ▸ hk)
    · intro s hs hsid hframe
      cases ht.symm.trans (hid ▸ ht₁)
      have hframe' : s.Frame settings.markers False (fun _ => False) t :=
        hframe.mono fun hequips => hnew (hsid ▸ hequips)
      exact (hframe'.trans hgrown).mono fun _ => hany

private theorem weaveType (h : o.Framed settings m) (hnumbered : o.module.Numbered) (hnew : ¬ o.Equips id) :
    (o.weaveType settings id).Framed settings m := by
  refine weaveType_cases (motive := fun o' => o'.Framed settings m) (fun _ => h)
    (fun t ht => h.scanType hnew ht) fun t marker ht _ howner => ?_
  exact (h.scanType hnew ht).enlist (numbered_scanType hnumbered ht) (howner ▸ hnew)

/-- The stray markers of a type are removed. -/
private theorem sweepType (h : o.Framed settings m) (id : TypeId) : (o.sweepType settings id).Framed settings m where
  name_eq := h.name_eq
  types t ht := by
    obtain ⟨t', ht', hframe⟩ := h.types t ht
    refine ⟨_, by rw [Outline.sweepType, Module.type?_mapMethods, ht']; rfl, ?_⟩
    refine hframe.mapMethods (fun y => ?_) fun x _ y _ => ?_
    · split <;> rfl
    · split
      · exact .swept y
      · exact .refl y
  carried := h.carried
  reached := h.reached

private theorem visitType (h : o.Framed settings m) {visited : List TypeId} (hsound : o.Sound settings m visited)
    (hid : id ∉ visited) : (o.visitType settings id).Framed settings m := by
  have hnew : ¬ o.Equips id := fun ⟨a, ha, howner, _⟩ => hid (howner ▸ hsound.owners a ha)
  exact visitType_cases (motive := fun o' => o'.Framed settings m) h (h.weaveType hsound.numbered hnew)
    fun o' h' => h'.sweepType id

private theorem foldr_visitType (h : m.Numbered) {ids : List TypeId} (hids : ids.Nodup) :
    (ids.foldr (fun id (o : Outline) => o.visitType settings id) { module := m }).Framed settings m := by
  induction ids with
  | nil => exact start h
  | cons id ids ih =>
    obtain ⟨hid, hids⟩ := List.nodup_cons.1 hids
    exact (ih hids).visitType (Outline.Sound.foldr_visitType h hids) hid

end Outline.Framed

/-- The outline of a pass over a module whose identifiers are distinct. -/
theorem Module.Numbered.framed_outline {m : Module} (h : m.Numbered) (settings : Settings) :
    (m.outline settings).Framed settings m :=
  Outline.Framed.foldr_visitType h h.types_nodup

/-- In a module that is decoded, or numbered anew, the advice of a marker type that is woven goes to just those methods
that have a body and carry its name, unless it has the name of the marker of advice, which is taken away. -/
theorem Module.Numbered.mem_targets_iff_of_admission {m : Module} (h : m.Numbered) {settings : Settings} {a : Admission}
    (ha : a ∈ (m.outline settings).admissions) (hname : a.marker.name ≠ settings.markers.rise) {t : TypeDecl} {x : Method}
    (hx : (t, x) ∈ m.methods) :
    x.target t ∈ a.targets ↔ (∃ carried ∈ x.attributes, carried.name = a.marker.name) ∧ ∃ b, x.body = some b := by
  rw [← hasAttribute_iff]
  constructor
  · intro htarget
    have hsound := h.sound_outline settings
    obtain ⟨p, hp, hp', hbody⟩ := hsound.targets a ha _ htarget
    -- the method is still there, and no other has its identifier
    obtain ⟨u, z, hz, rfl⟩ := Module.mem_profiles.1 hp
    obtain ⟨u', z', hz', heq⟩ := Module.mem_profiles.1 (hsound.kept _ (Module.mem_profiles.2 ⟨t, x, hx, rfl⟩))
    have hid : z.id = z'.id := (congrArg Target.id hp').trans (congrArg (·.target.id) heq.symm)
    obtain ⟨rfl, rfl⟩ := Prod.mk.inj (hsound.numbered.eq_of_id_eq hz hz' hid)
    have hbodies : (z.profile u).body = (x.profile t).body := congrArg Profile.body heq
    rw [hbodies] at hbody
    exact ⟨(h.framed_outline settings).carried a ha t x hx htarget, Option.isSome_iff_exists.1 hbody⟩
  · rintro ⟨hcarries, b, hb⟩
    exact (h.framed_outline settings).reached a ha hname t x hx hcarries b hb

/-! ### Passes -/

/-- Nothing has been put around a body. -/
private theorem Wrapping.Around.eq_base {base body : Body} {cursor : Nat} {slot? : Option UInt16}
    (h : ({} : Wrapping).Around base body cursor slot?) : body = base := by
  have hcode : body.code = base.code := h.code_eq.trans (Wrapping.code_empty base.code)
  have hlocals : body.locals = base.locals := by simpa using h.locals_eq
  have hinit : body.initLocals = base.initLocals := by simpa using h.initLocals_eq
  cases body
  cases base
  simp only at hcode hlocals hinit
  rw [hcode, hlocals, hinit]

/-- No advice goes to the target, and no hidden method is made for it. -/
private theorem Outline.wrapping_eq_empty {o : Outline} {p : Profile}
    (hadvice : ∀ a ∈ o.admissions, p.target ∉ a.targets)
    (hprologue : p.target.isConstructor → o.initializes p.owner = false) (storage : HandleStorage) (n : Nat) :
    o.wrapping storage p n = {} := by
  have hfilter : o.admissions.filter (p.target ∈ ·.targets) = [] :=
    List.filter_eq_nil_iff.2 fun a ha => by simpa using hadvice a ha
  have hnone : o.prologue p = [] := by
    unfold prologue
    split
    · next h =>
      rw [Bool.and_eq_true] at h
      rw [hprologue h.1] at h
      cases h.2
    · rfl
  simp [wrapping, adviceFor, hfilter, hnone]

namespace Module

variable {m m' : Module} {settings : Settings} {report : PassReport}

/-- A pass accepts a marker type of the type with the given identifier whose advice is called on instances. -/
def Instantiates (m : Module) (settings : Settings) (id : TypeId) : Prop :=
  ∃ marker, m.Accepts settings marker ∧ marker.owner = id ∧ marker.advice.any (!·.isStatic)

/-- A pass may put code into the method `x` of the type `t`: it carries the name of a marker type that is accepted, or
it is a constructor and may call the hidden method of its type. -/
def Rewrites (m : Module) (settings : Settings) (t : TypeDecl) (x : Method) : Prop :=
  (∃ marker, m.Accepts settings marker ∧ hasAttribute x.attributes marker.name) ∨
    x.isConstructor ∧ m.Instantiates settings t.id

/-- Types with the same identifiers, one after the other. -/
private theorem forall₂_types (h' : m'.Numbered) (hids : m'.types.map (·.id) = m.types.map (·.id))
    {R : TypeDecl → TypeDecl → Prop} (h : ∀ t ∈ m.types, ∃ t', m'.type? t.id = some t' ∧ R t t') :
    List.Forall₂ R m.types m'.types := by
  have hlength : m.types.length = m'.types.length := by simpa using (congrArg List.length hids).symm
  refine List.forall₂_iff_get.2 ⟨hlength, fun i hi hi' => ?_⟩
  obtain ⟨t', ht', hR⟩ := h _ (List.get_mem m.types ⟨i, hi⟩)
  have hid : (m'.types.get ⟨i, hi'⟩).id = (m.types.get ⟨i, hi⟩).id := by
    have hget := congrArg (·[i]?) hids
    simpa [hi, hi'] using hget
  cases (h'.type?_eq_some_iff.2 ⟨List.get_mem m'.types ⟨i, hi'⟩, hid⟩).symm.trans ht'
  exact hR

/-- A body that a pass may not put code into stays as it is. -/
private theorem rewrites_or_body_eq (hm : m.Numbered) (hweave : m.weave settings = (.ok report, m'))
    {t : TypeDecl} {x : Method} (hx : (t, x) ∈ m.methods) {base body : Body} {cursor : Nat}
    {slot? : Option UInt16}
    (haround : ((m.outline settings).wrapping settings.handleStorage (x.profile t) base.locals.size).Around base
      body cursor slot?) : m.Rewrites settings t x ∨ body = base := by
  by_cases hrewrites : m.Rewrites settings t x
  · exact .inl hrewrites
  have hsound := hm.sound_outline settings
  have hadvice : ∀ a ∈ (m.outline settings).admissions, (x.profile t).target ∉ a.targets := fun a ha htarget =>
    hrewrites (.inl ⟨a.marker, accepts_of_mem_outline hm hweave ha,
      (hm.framed_outline settings).carried a ha t x hx htarget⟩)
  have hprologue : (x.profile t).target.isConstructor → (m.outline settings).initializes t.id = false := by
    intro hconstructor
    rw [Outline.initializes, List.any_eq_false]
    intro a ha hinit
    simp only [Bool.and_eq_true, decide_eq_true_eq] at hinit
    have haccepted := hsound.accepted a ha
    refine hrewrites (.inr ⟨hconstructor, a.marker, accepts_of_mem_outline hm hweave ha, hinit.1, ?_⟩)
    rw [← haccepted.handle?_isSome]
    exact haccepted.initializes hinit.2
  rw [Outline.wrapping_eq_empty hadvice hprologue] at haround
  exact .inr haround.eq_base

/-- Nothing changes but what a pass is to change.  The types stay, in their order, and so do their names, kinds and
bases, their properties, fields and methods, and what these declare, in their order.  Only markers of the pass go away.
Hidden members come only to marker types that are accepted and whose advice is called on instances, at most one field
and one method each, at the end.  And only the code of carriers of accepted marker types, and of constructors of types
to which hidden members may come, may differ. -/
theorem frame_of_weave {encoding : Encoding} {source : String} (decoded : encoding.decode source = .ok m)
    (woven : m.weave settings = (.ok report, m')) :
    m'.name = m.name ∧
      List.Forall₂ (fun t t' =>
        t.Frame settings.markers (m.Instantiates settings t.id) (m.Rewrites settings t) t') m.types m'.types := by
  have hm := numbered_of_decode decoded
  have hsound := hm.sound_outline settings
  have hframed := hm.framed_outline settings
  obtain ⟨bodies, rfl, haround⟩ := exists_bodies_of_weave hm woven
  refine ⟨hframed.name_eq, forall₂_types (hsound.numbered.withBodies bodies) ?_ fun t ht => ?_⟩
  · rw [← hsound.types_eq]
    simp [Function.comp_def]
  obtain ⟨t', ht', hframe⟩ := hframed.types t ht
  refine ⟨t'.withBodies bodies, by rw [type?_withBodies, ht']; rfl, ?_⟩
  have hequips : (m.outline settings).Equips t.id → m.Instantiates settings t.id := by
    rintro ⟨a, ha, howner, hinstance⟩
    exact ⟨a.marker, accepts_of_mem_outline hm woven ha, howner, hinstance⟩
  refine (hframe.mono hequips).mapMethods (fun _ => rfl) fun x hx y hxy => .withBody y fun base hbase => ?_
  have hmem : (t, x) ∈ m.methods := mem_methods.2 ⟨ht, hx⟩
  have hbody : (x.profile t).body = some base := (hxy.body.resolve_right id).symm.trans hbase
  obtain ⟨cursor, slot?, haround⟩ := haround _ (hsound.kept _ (mem_profiles.2 ⟨t, x, hmem, rfl⟩)) base hbody
  rw [hxy.id_eq]
  exact rewrites_or_body_eq hm woven hmem haround

/-- The hidden members of the sample come to its marker type. -/
theorem frame_of_weave_sample :
    ∃ report m', Sample.module.weave Sample.settings = (.ok report, m') ∧ m'.name = "m" ∧
      List.Forall₂ (fun t t' => t.Frame Sample.settings.markers (Sample.module.Instantiates Sample.settings t.id)
        (Sample.module.Rewrites Sample.settings t) t') Sample.module.types m'.types := by
  obtain ⟨report, m', hweave, -⟩ := Sample.exists_weave
  exact ⟨report, m', hweave, frame_of_weave Sample.decode_source hweave⟩

end Module

end AdviceWeaving
