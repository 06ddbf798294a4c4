import AdviceWeaving.Proofs.Admitting

/-!
# A pass follows its outline

While a pass walks over a module, the module without the woven code is that of the outline, and the
wrapping around every body is the one that the outline tells (`Workspace.Follows`).  A visit of the
injection weaver to a type keeps this (`Weaving.follows_weaveType`), a second one changes nothing
(`Weaving.follows_weaveType_of_spent`), and so does a walk as a whole (`Walk.follows_walk`).
-/

namespace AdviceWeaving

/-- The workspace has come as far as the outline `o`, in which the types `visited` of the module `m`
have been visited. -/
structure Workspace.Follows (w : Workspace) (settings : Settings) (m : Module) (o : Outline)
    (visited : List TypeId) : Prop where
  sound : o.Sound settings m visited
  at_outline : ∃ handles wrap, w.At ⟨settings, handles, o.module, wrap⟩ ∧
    (∀ id, id ∉ visited → handles.lookup id = none) ∧
    ∀ p ∈ o.module.profiles, ∀ b, p.body = some b →
      wrap p.target.id = o.wrapping settings.handleStorage p b.locals.size

/-- The markers of a marker type are gone from a type. -/
def Outline.Spent (o : Outline) (settings : Settings) (id : TypeId) : Prop :=
  ∀ t, o.module.type? id = some t → hasAttribute t.attributes settings.markers.injection = false

/-! ### What reading markers leaves -/

theorem hasAttribute_strip (attributes : List Attribute) (name : String) :
    hasAttribute (strip attributes name) name = false := by
  simp [hasAttribute, strip]

theorem TypeDecl.hasAttribute_scan (t : TypeDecl) (names : MarkerNames) :
    hasAttribute (t.scan names).rest.attributes names.injection = false := by
  unfold scan
  split
  · exact hasAttribute_strip t.attributes names.injection
  · next h => simpa using h

theorem Module.Numbered.updateType_self {m : Module} (h : m.Numbered) {id : TypeId} {t : TypeDecl}
    (ht : m.type? id = some t) : m.updateType id (fun _ => t) = m := by
  have hmap : (m.types.map fun t' => if t'.id = id then t else t') = m.types := by
    refine (List.map_congr_left fun t' ht' => ?_).trans (List.map_id' m.types)
    split
    · next hid => exact Option.some.inj (ht.symm.trans (h.type?_eq_some_iff.2 ⟨ht', hid⟩))
    · rfl
  rw [h.updateType_eq, hmap]

namespace Outline

variable {o : Outline} {settings : Settings} {m : MarkerType} {id : TypeId}

/-- To note a marker type adds at most a hidden method. -/
private theorem profiles_enlist (h : o.module.Numbered) :
    ∀ p ∈ (o.enlist settings m).module.profiles, p ∈ o.module.profiles ∨
      p.IsInitializer settings.handleStorage ∧ p.target.id = ⟨o.module.ids.nextMethod⟩ := by
  refine enlist_cases (motive := fun o' => ∀ p ∈ o'.module.profiles, p ∈ o.module.profiles ∨
      p.IsInitializer settings.handleStorage ∧ p.target.id = ⟨o.module.ids.nextMethod⟩)
    (fun p hp => .inl hp) (fun _ _ p hp => .inl hp) fun t _ _ _ ht => ?_
  exact (h.gainsHandle ht settings.handleStorage).profiles

private theorem spent_scanType {t : TypeDecl} (ht : o.module.type? id = some t) :
    (o.scanType settings id t).Spent settings id := by
  intro t' ht'
  cases (type?_scanType_self ht).symm.trans ht'
  exact t.hasAttribute_scan settings.markers

/-- To note a marker type keeps the markers of types. -/
private theorem spent_enlist (h : o.module.Numbered) (hspent : o.Spent settings m.owner) :
    (o.enlist settings m).Spent settings m.owner := by
  refine enlist_cases (motive := fun o' => o'.Spent settings m.owner) hspent (fun _ _ => hspent)
    fun t _ _ howner ht t₁ ht₁ => ?_
  obtain ⟨t', ht', hattributes⟩ := (h.gainsHandle ht settings.handleStorage).attributes_eq
  rw [← howner, ht'] at ht₁
  cases ht₁
  rw [hattributes]
  exact hspent t (howner ▸ ht)

/-- The weaver takes the markers of a marker type away from the type that it visits. -/
theorem spent_weaveType (h : o.module.Numbered) : (o.weaveType settings id).Spent settings id := by
  refine weaveType_cases (motive := fun o' => o'.Spent settings id) (fun hnone t ht => ?_)
    (fun t ht => spent_scanType ht) fun t m ht _ howner => ?_
  · cases hnone.symm.trans ht
  · obtain rfl := howner
    exact spent_enlist (numbered_scanType h ht) (spent_scanType ht)

end Outline

/-! ### A visit of the injection weaver -/

/-- Nothing is woven into a method that no outline knows. -/
private theorem Outline.Sound.wrapping_of_new {o : Outline} {settings : Settings} {m : Module}
    {visited : List TypeId} (h : o.Sound settings m visited) {p : Profile}
    (hp : p.IsInitializer settings.handleStorage) (hid : p.target.id = ⟨o.module.ids.nextMethod⟩)
    (n : Nat) : o.wrapping settings.handleStorage p n = {} := by
  have hadvice : o.adviceFor p.target = [] := by
    have hfilter : o.admissions.filter (p.target ∈ ·.targets) = [] := by
      rw [List.filter_eq_nil_iff]
      intro a ha hmem
      obtain ⟨q, hq, htarget, _⟩ := h.targets a ha p.target (by simpa using hmem)
      obtain ⟨t, x, hx, rfl⟩ := Module.mem_profiles.1 hq
      obtain ⟨ht, hx⟩ := Module.mem_methods.1 hx
      have hlt := h.numbered.methods_lt x.id (Module.mem_methodIds.2 ⟨t, ht, x, hx, rfl⟩)
      have hxid : x.id = p.target.id := congrArg Target.id htarget
      rw [hxid, hid] at hlt
      exact Nat.lt_irrefl _ hlt
    rw [adviceFor, hfilter]
    rfl
  have hconstructor : p.target.isConstructor = false := by
    rw [Target.isConstructor, hp.name_eq]
    rfl
  simp [wrapping, hadvice, prologue, hconstructor]

theorem Workspace.follows_start {m : Module} (h : m.Numbered) (settings : Settings) :
    ({ pass := { settings }, module := m } : Workspace).Follows settings m { module := m } [] where
  sound := .start h
  at_outline := ⟨[], fun _ => {}, at_start h settings, fun _ _ => rfl, fun p _ b _ => by
    simp [Outline.wrapping, Outline.adviceFor, Outline.prologue, Outline.initializes]⟩

theorem Workspace.Follows.mono {w : Workspace} {settings : Settings} {m : Module} {o : Outline}
    {visited visited' : List TypeId} (h : w.Follows settings m o visited)
    (hvisited : ∀ id, id ∈ visited → id ∈ visited') : w.Follows settings m o visited' where
  sound := h.sound.of_profiles h.sound.numbered rfl rfl hvisited fun _ _ => rfl
  at_outline := by
    obtain ⟨handles, wrap, hat, hhandles, hwrap⟩ := h.at_outline
    exact ⟨handles, wrap, hat, fun id hid => hhandles id fun hin => hid (hvisited id hin), hwrap⟩

theorem Workspace.Follows.types_eq {w : Workspace} {settings : Settings} {m : Module} {o : Outline}
    {visited : List TypeId} (h : w.Follows settings m o visited) :
    w.module.types.map (·.id) = m.types.map (·.id) := by
  obtain ⟨handles, wrap, ⟨bodies, hholds⟩, -⟩ := h.at_outline
  refine Eq.trans ?_ h.sound.types_eq
  rw [hholds.module_eq]
  simp [Function.comp_def]

theorem Workspace.Follows.numbered {w : Workspace} {settings : Settings} {m : Module} {o : Outline}
    {visited : List TypeId} (h : w.Follows settings m o visited) : w.module.Numbered := by
  obtain ⟨handles, wrap, ⟨bodies, hholds⟩, -⟩ := h.at_outline
  exact hholds.module_eq ▸ hholds.numbered.withBodies bodies

/-- The types of the workspace are those of the outline, with other bodies. -/
theorem Workspace.Follows.type?_eq {w : Workspace} {settings : Settings} {m : Module} {o : Outline}
    {visited : List TypeId} (h : w.Follows settings m o visited) :
    ∃ bodies, ∀ id, w.module.type? id = (o.module.type? id).map (·.withBodies bodies) := by
  obtain ⟨handles, wrap, ⟨bodies, hholds⟩, -⟩ := h.at_outline
  exact ⟨bodies, fun id => by rw [hholds.module_eq, Module.type?_withBodies]⟩

namespace Weaving

open Step

variable {w w' : Workspace} {settings : Settings} {m : Module} {o : Outline} {visited : List TypeId}
  {u : Unit} {id : TypeId}

/-- A type without the markers that have been read, seen from the module without the woven code. -/
theorem at_scanned {s : PassStage} {t' : TypeDecl} (h : w.At s) (ht' : w.module.type? id = some t') :
    ∃ t, s.module.type? id = some t ∧
      (t.scan s.settings.markers).declared = (t'.scan w.pass.settings.markers).declared ∧
      (w.scanned id t').At { s with
        module := s.module.updateType id fun _ => (t.scan s.settings.markers).rest } := by
  obtain ⟨bodies, h⟩ := h
  rw [h.settings_eq]
  rw [h.module_eq, Module.type?_withBodies, Option.map_eq_some_iff] at ht'
  obtain ⟨t, ht, rfl⟩ := ht'
  refine ⟨t, ht, by rw [TypeDecl.scan_withBodies], ?_⟩
  have hnumbered := h.numbered.updateType (f := fun _ => (t.scan s.settings.markers).rest) ht
    (t.scan_rest_id _) (t.profiles_scan _)
  have hmodule : (w.scanned id (t.withBodies bodies)).module = (s.module.updateType id fun _ =>
      (t.scan s.settings.markers).rest).withBodies bodies := by
    rw [Workspace.scanned, Workspace.module_counting, h.settings_eq, TypeDecl.scan_withBodies, h.module_eq]
    exact Module.updateType_withBodies id fun _ _ => rfl
  have hat : ({ w with module := (w.scanned id (t.withBodies bodies)).module } : Workspace).At _ :=
    ⟨bodies, h.of_profiles hnumbered (Module.profiles_updateType ht (t.profiles_scan _)) rfl
      hmodule rfl⟩
  exact hat.of_eq rfl rfl rfl rfl rfl

/-- Reading the markers of a type, seen from the module without the woven code. -/
theorem at_scan {s : PassStage} {marker? : Option MarkerType} (h : w.At s)
    (hy : Yields (scan id) w marker? w') :
    ∃ t, s.module.type? id = some t ∧ (t.scan s.settings.markers).declared = .ok marker? ∧
      w'.At { s with
        module := s.module.updateType id fun _ => (t.scan s.settings.markers).rest } := by
  obtain ⟨t', ht', hdeclared, rfl⟩ := yields_scan_iff.1 hy
  obtain ⟨t, ht, hsame, hat⟩ := at_scanned h ht'
  exact ⟨t, ht, hsame.trans hdeclared, hat⟩

/-- The wrappings that an outline tells, when one more marker type is woven. -/
private theorem wrap_of_enlist {o' : Outline} {a : Admission} {handles : List (TypeId × Handle)}
    {wrap : MethodId → Wrapping} (hsound : o.Sound settings m visited)
    (hat : w.At ⟨settings, handles, o.module, wrap⟩)
    (hwrap : ∀ p ∈ o.module.profiles, ∀ b, p.body = some b →
      wrap p.target.id = o.wrapping settings.handleStorage p b.locals.size)
    (hadmissions : o'.admissions = o.admissions ++ [a])
    (howner : ∀ a' ∈ o.admissions, a'.marker.owner ≠ a.marker.owner)
    (hprofiles : ∀ p ∈ o'.module.profiles, p ∈ o.module.profiles ∨
      p.IsInitializer settings.handleStorage ∧ p.target.id = ⟨o.module.ids.nextMethod⟩)
    {p : Profile} (hp : p ∈ o'.module.profiles) {b : Body} (hb : p.body = some b) :
    a.around settings.handleStorage p b.locals.size (wrap p.target.id) =
      o'.wrapping settings.handleStorage p b.locals.size := by
  have hold : wrap p.target.id = o.wrapping settings.handleStorage p b.locals.size := by
    rcases hprofiles p hp with hp | ⟨hinitializer, hid⟩
    · exact hwrap p hp b hb
    · rw [hsound.wrapping_of_new hinitializer hid, hid]
      exact (hat.choose_spec.unused _ (Nat.le_refl _)).1
  obtain ⟨module, admissions⟩ := o'
  obtain rfl : admissions = o.admissions ++ [a] := hadmissions
  rw [hold, Outline.wrapping_append module howner]

/-- To weave a marker type of which nothing is known yet is to note it in the outline. -/
private theorem follows_inject {marker : MarkerType} {accepted : Bool}
    {handles : List (TypeId × Handle)} {wrap : MethodId → Wrapping}
    (hsound : o.Sound settings m visited) (hat : w.At ⟨settings, handles, o.module, wrap⟩)
    (hhandles : ∀ k, k ∉ visited → handles.lookup k = none)
    (hwrap : ∀ p ∈ o.module.profiles, ∀ b, p.body = some b →
      wrap p.target.id = o.wrapping settings.handleStorage p b.locals.size)
    (hsound' : (o.enlist settings marker).Sound settings m visited)
    (howner : marker.owner ∈ visited) (hnew : handles.lookup marker.owner = none)
    (hothers : ∀ a ∈ o.admissions, a.marker.owner ≠ marker.owner)
    (hy : Yields (inject marker) w accepted w') :
    w'.Follows settings m (o.enlist settings marker) visited := by
  rcases at_inject hat (o := o) rfl hnew hy with ⟨hsame, hat'⟩ | ⟨handles', wrap', a, henlisted⟩
  · -- the marker type is not woven
    rw [hsame]
    exact ⟨hsound, handles, wrap, hat', hhandles, hwrap⟩
  · have hprofiles : ∀ p ∈ (o.enlist settings marker).module.profiles, p ∈ o.module.profiles ∨
        p.IsInitializer settings.handleStorage ∧ p.target.id = ⟨o.module.ids.nextMethod⟩ :=
      Outline.profiles_enlist hsound.numbered
    refine ⟨hsound', handles', wrap', henlisted.at_stage, fun k hk => ?_, fun p hp b hb => ?_⟩
    · rw [henlisted.handles_eq k fun hkm => hk (hkm ▸ howner)]
      exact hhandles k hk
    · rw [henlisted.wrap_eq p hp b hb]
      refine wrap_of_enlist hsound hat hwrap henlisted.admissions_eq ?_ hprofiles hp hb
      rw [henlisted.marker_eq]
      exact hothers

/-- The first visit to a type weaves it, if it is a marker type, and takes its markers away. -/
theorem follows_weaveType (h : w.Follows settings m o visited) (hid : id ∉ visited)
    (hy : Yields (weaveType id) w u w') :
    w'.Follows settings m (o.weaveType settings id) (id :: visited) ∧
      (o.weaveType settings id).Spent settings id := by
  refine ⟨?_, Outline.spent_weaveType h.sound.numbered⟩
  obtain ⟨hsound, handles, wrap, hat, hnew, hwrap⟩ := h
  have hnew₁ : ∀ k, k ∉ id :: visited → handles.lookup k = none :=
    fun k hk => hnew k fun hin => hk (List.mem_cons_of_mem id hin)
  have hwrap₁ {t : TypeDecl} (ht : o.module.type? id = some t) :
      ∀ p ∈ (o.scanType settings id t).module.profiles, ∀ b, p.body = some b →
        wrap p.target.id = (o.scanType settings id t).wrapping settings.handleStorage p b.locals.size :=
    fun p hp b hb => hwrap p (Outline.profiles_scanType ht ▸ hp) b hb
  rcases yields_weaveType_iff.1 hy with hscan | ⟨marker, w₁, accepted, w₂, hscan, hinject, rfl⟩
  · obtain ⟨t, ht, hdeclared, hat₁⟩ := at_scan hat hscan
    rw [Outline.weaveType_of_unmarked ht hdeclared]
    exact ⟨hsound.scanType ht, handles, wrap, hat₁, hnew₁, hwrap₁ ht⟩
  · obtain ⟨t, ht, hdeclared, hat₁⟩ := at_scan hat hscan
    have howner : marker.owner = id := (t.owner_of_scan hdeclared).trans (Module.id_of_type? ht)
    have hsound₁ : (o.scanType settings id t).Sound settings m (id :: visited) := hsound.scanType ht
    have hsound' := hsound.weaveType hid
    rw [Outline.weaveType_of_marker ht hdeclared] at hsound' ⊢
    -- marker types are woven at the visit to their own type, so this one was not woven before
    have hothers : ∀ a ∈ (o.scanType settings id t).admissions, a.marker.owner ≠ marker.owner :=
      fun a ha hsame => hid (howner ▸ hsame ▸ hsound.owners a ha)
    obtain ⟨_, handles', wrap', hat₂, hhandles', hwrap'⟩ := follows_inject hsound₁ hat₁ hnew₁
      (hwrap₁ ht) hsound' (howner ▸ List.mem_cons_self) (howner ▸ hnew id hid) hothers hinject
    exact ⟨hsound', handles', wrap', hat₂.of_eq rfl rfl rfl rfl rfl, hhandles', hwrap'⟩

/-- A type without markers is left as it is. -/
theorem follows_weaveType_of_spent (h : w.Follows settings m o visited)
    (hspent : o.Spent settings id) (hy : Yields (weaveType id) w u w') :
    w'.Follows settings m o visited := by
  obtain ⟨hsound, handles, wrap, hat, hnew, hwrap⟩ := h
  have hscanned {marker? : Option MarkerType} {w₁ : Workspace} (hscan : Yields (scan id) w marker? w₁) :
      marker? = none ∧ w₁.At ⟨settings, handles, o.module, wrap⟩ := by
    obtain ⟨t, ht, hdeclared, hat₁⟩ := at_scan hat hscan
    rw [TypeDecl.scan_of_not_hasAttribute (hspent t ht)] at hdeclared hat₁
    cases hdeclared
    rw [hsound.numbered.updateType_self ht] at hat₁
    exact ⟨rfl, hat₁⟩
  rcases yields_weaveType_iff.1 hy with hscan | ⟨marker, w₁, _, _, hscan, -⟩
  · exact ⟨hsound, handles, wrap, (hscanned hscan).2, hnew, hwrap⟩
  · cases (hscanned hscan).1

end Weaving

end AdviceWeaving
