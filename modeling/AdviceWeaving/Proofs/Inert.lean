import AdviceWeaving.Proofs.Shape

/-!
# What a pass finds no more

A module is inert if no marker is left in it on which the visitors of a pass would act.  What a pass leaves is inert
(`Module.inert_of_weave`): each type loses its markers at its visit, and so do all methods that it has by then, the
hidden ones too.  A pass over an inert module changes nothing (`Module.weave_of_inert`).
-/

namespace AdviceWeaving

/-- The visitors that the settings name find no marker in the type. -/
structure TypeDecl.Inert (t : TypeDecl) (settings : Settings) : Prop where
  injection : injectionWeaverName ∈ settings.components →
    hasAttribute t.attributes settings.markers.injection = false
  advice : orphanSweepName ∈ settings.components →
    ∀ x ∈ t.methods, x.countMarkers settings.markers = 0

/-- The visitors that the settings name find no marker in the module. -/
def Module.Inert (m : Module) (settings : Settings) : Prop :=
  ∀ t ∈ m.types, t.Inert settings

private theorem countAttribute_strip (attributes : List Attribute) (name : String) :
    countAttribute (strip attributes name) name = 0 := by
  rw [countAttribute, List.countP_eq_zero]
  intro a ha
  exact (List.mem_filter.1 ha).2 |> of_decide_eq_true |> fun h => by simpa using h

theorem Weaving.countMarkers_swept (names : MarkerNames) (x : Method) :
    (swept names x).countMarkers names = 0 := by
  rw [Method.countMarkers, Nat.add_eq_zero_iff]
  refine ⟨countAttribute_strip x.attributes names.rise, ?_⟩
  rw [countAttribute, List.countP_eq_zero]
  intro a ha
  obtain ⟨_, hp, ha⟩ := List.mem_flatMap.1 ha
  obtain ⟨p, -, rfl⟩ := List.mem_map.1 hp
  simpa using (List.mem_filter.1 ha).2

/-! ### What a pass leaves -/

namespace Outline

variable {o : Outline} {settings : Settings} {id : TypeId}

/-- To note a marker type adds hidden members to its type, and leaves the others as they are. -/
private theorem type?_enlist_of_ne (h : o.module.Numbered) (m : MarkerType) {k : TypeId}
    (hk : k ≠ m.owner) : (o.enlist settings m).module.type? k = o.module.type? k := by
  refine enlist_cases (motive := fun o' => o'.module.type? k = o.module.type? k) rfl (fun _ _ => rfl)
    fun t _ _ howner ht => ?_
  exact (h.gainsHandle ht settings.handleStorage).others k (howner.symm ▸ hk)

/-- A visit to a type leaves the other types as they are. -/
private theorem type?_visitType_of_ne (h : o.module.Numbered) {k : TypeId} (hk : k ≠ id) :
    (o.visitType settings id).module.type? k = o.module.type? k := by
  refine visitType_cases (motive := fun o' => o'.module.type? k = o.module.type? k) rfl ?_
    fun o' ho' => ?_
  · refine weaveType_cases (motive := fun o' => o'.module.type? k = o.module.type? k) (fun _ => rfl)
      (fun t ht => type?_scanType_of_ne ht hk) fun t m ht _ howner => ?_
    rw [type?_enlist_of_ne (numbered_scanType h ht) m (howner.symm ▸ hk)]
    exact type?_scanType_of_ne ht hk
  · rw [sweepType, Module.type?_mapMethods, ho']
    cases ht : o.module.type? k with
    | none => rfl
    | some t =>
      have htid : t.id ≠ id := Module.id_of_type? ht ▸ hk
      simp [htid]

/-- A type is inert once it has been visited. -/
private theorem inert_visitType (h : o.module.Numbered) {t : TypeDecl}
    (ht : (o.visitType settings id).module.type? id = some t) : t.Inert settings := by
  have hspent : (o.weaveType settings id).Spent settings id := spent_weaveType h
  unfold visitType at ht
  by_cases hsweeper : orphanSweepName ∈ settings.components
  · simp only [hsweeper, if_true, sweepType, Module.type?_mapMethods, Option.map_eq_some_iff] at ht
    obtain ⟨t₁, ht₁, rfl⟩ := ht
    have hid := Module.id_of_type? ht₁
    refine ⟨fun hweaver => ?_, fun _ x hx => ?_⟩
    · rw [if_pos hweaver] at ht₁
      exact hspent t₁ ht₁
    · simp only [hid, if_true, List.mem_map] at hx
      obtain ⟨y, -, rfl⟩ := hx
      exact Weaving.countMarkers_swept settings.markers y
  · simp only [hsweeper, if_false] at ht
    refine ⟨fun hweaver => ?_, fun hin => absurd hin hsweeper⟩
    rw [if_pos hweaver] at ht
    exact hspent t ht

/-- So is every type that has been visited. -/
private theorem inert_foldr_visitType {m : Module} (hm : m.Numbered) {ids : List TypeId} (hids : ids.Nodup) :
    ∀ id ∈ ids, ∀ t, (ids.foldr (fun id (o : Outline) => o.visitType settings id)
      { module := m }).module.type? id = some t → t.Inert settings := by
  induction ids with
  | nil => exact fun _ hid => (List.not_mem_nil hid).elim
  | cons k ids ih =>
    obtain ⟨hk, hids⟩ := List.nodup_cons.1 hids
    have hsound : (ids.foldr (fun id (o : Outline) => o.visitType settings id)
        { module := m }).Sound settings m ids := Sound.foldr_visitType hm hids
    intro id hid t ht
    rw [List.foldr_cons] at ht
    by_cases heq : id = k
    · subst heq
      exact inert_visitType hsound.numbered ht
    · rw [type?_visitType_of_ne hsound.numbered heq] at ht
      exact ih hids id (List.mem_of_ne_of_mem heq hid) t ht

end Outline

private theorem TypeDecl.Inert.withBodies {t : TypeDecl} {settings : Settings} (h : t.Inert settings)
    (bodies : MethodId → Body) : (t.withBodies bodies).Inert settings where
  injection := h.injection
  advice hsweeper x hx := by
    obtain ⟨y, hy, rfl⟩ := List.mem_map.1 hx
    exact h.advice hsweeper y hy

theorem Module.inert_of_weave {m m' : Module} {settings : Settings} {report : PassReport}
    (hm : m.Numbered) (h : m.weave settings = (.ok report, m')) : m'.Inert settings := by
  obtain ⟨bodies, rfl, -⟩ := exists_bodies_of_weave hm h
  have hsound := hm.sound_outline settings
  intro t' ht'
  obtain ⟨t, ht, rfl⟩ := List.mem_map.1 ht'
  refine TypeDecl.Inert.withBodies ?_ bodies
  have hid : t.id ∈ m.types.map (·.id) := hsound.types_eq ▸ List.mem_map_of_mem ht
  exact Outline.inert_foldr_visitType hm hm.types_nodup t.id hid t
    (hsound.numbered.type?_eq_some_iff.2 ⟨ht, rfl⟩)

theorem Module.numbered_of_weave {m m' : Module} {settings : Settings} {report : PassReport}
    (hm : m.Numbered) (h : m.weave settings = (.ok report, m')) : m'.Numbered := by
  obtain ⟨bodies, rfl, -⟩ := exists_bodies_of_weave hm h
  exact (hm.sound_outline settings).numbered.withBodies bodies

/-! ### A pass that finds nothing -/

namespace Step

variable {σ α : Type} {s : σ}

theorem yields_forM_self {f : α → Step σ Unit} {l : List α} (h : ∀ a ∈ l, Yields (f a) s () s) :
    Yields (forM l f) s () s := by
  induction l with
  | nil => exact yields_forM_nil.2 rfl
  | cons a l ih =>
    exact yields_forM_cons.2
      ⟨s, h a List.mem_cons_self, ih fun b hb => h b (List.mem_cons_of_mem a hb)⟩

private theorem yields_countdown_self {visit : Nat → Step σ Unit} {n : Nat}
    (h : ∀ k < n, Yields (visit k) s () s) : Yields (countdown visit n) s () s := by
  induction n with
  | zero => exact yields_countdown_zero.2 rfl
  | succ n ih =>
    exact yields_countdown_succ.2
      ⟨s, h n (Nat.lt_succ_self n), ih fun k hk => h k (Nat.lt_succ_of_lt hk)⟩

end Step

open Step

namespace Weaving

variable {w : Workspace} {id : TypeId}

/-- The weaver leaves a type that is not marked. -/
theorem yields_weaveType_self (hw : w.module.Numbered) {t : TypeDecl}
    (ht : w.module.type? id = some t)
    (h : hasAttribute t.attributes w.pass.settings.markers.injection = false) :
    Yields (weaveType id) w () w := by
  have hscanned : w.scanned id t = w := by
    rw [Workspace.scanned, TypeDecl.scan_of_not_hasAttribute h, hw.updateType_self ht]
    rfl
  refine yields_weaveType_iff.2 (.inl (yields_scan_iff.2 ⟨t, ht, ?_, hscanned.symm⟩))
  rw [TypeDecl.scan_of_not_hasAttribute h]

/-- The sweep leaves a method without markers. -/
theorem yields_sweepMethod_self {id : MethodId} {t : TypeDecl} {x : Method}
    (hx : w.module.method? id = some (t, x)) (h : x.countMarkers w.pass.settings.markers = 0) :
    Yields (sweepMethod id) w () w :=
  yields_sweepMethod_iff.2 ⟨t, x, hx, .inl ⟨h, rfl⟩⟩

end Weaving

namespace Walk

variable {w : Workspace} {vs : List (Visitor Workspace)}

theorem yields_inTurn_self {isPresent : Module → Bool} {visit : Visitor Workspace → Weaving Unit}
    (h : ∀ v ∈ vs, Yields (visit v) w () w) :
    Yields (inTurn Workspace.module isPresent visit vs) w () w := by
  induction vs with
  | nil => exact yields_pure.2 ⟨rfl, rfl⟩
  | cons v vs ih =>
    rw [inTurn, yields_get_bind]
    split
    · exact yields_bind.2 ⟨(), w, h v List.mem_cons_self,
        ih fun v' hv' => h v' (List.mem_cons_of_mem v hv')⟩
    · exact yields_pure.2 ⟨rfl, rfl⟩

/-- A walk changes nothing if no visit of a type or of a method does. -/
private theorem yields_walk_self (hvs : Standard vs)
    (htypes : ∀ t ∈ w.module.types, ∀ v ∈ vs, Yields (v.onType t.id) w () w)
    (hmethods : ∀ p ∈ w.module.methods, ∀ v ∈ vs, Yields (v.onMethod p.2.id) w () w) :
    Yields (walk Workspace.module vs) w () w := by
  have hpure {f : Visitor Workspace → Weaving Unit}
      (hf : ∀ v, v = injectionWeaver ∨ v = orphanSweep → f v = pure ()) :
      ∀ v ∈ vs, Yields (f v) w () w := fun v hv => by
    rw [hf v (hvs v hv)]
    exact yields_pure.2 ⟨rfl, rfl⟩
  have hplaces {α : Type} (members : TypeDecl → List α) (visit : Visitor Workspace → Nat → Weaving Unit)
      (hvisit : ∀ v, v = injectionWeaver ∨ v = orphanSweep → ∀ n, visit v n = pure ()) (id : TypeId) :
      Yields (visitPlaces Workspace.module vs members visit id) w () w := by
    rw [visitPlaces, yields_get_bind]
    exact yields_countdown_self fun n _ => yields_inTurn_self (hpure fun v hv => hvisit v hv n)
  have hmembers (id : TypeId) : Yields (visitMethods Workspace.module vs id) w () w := by
    rw [visitMethods, yields_get_bind]
    refine yields_countdown_self fun n _ => ?_
    rw [yields_get_bind]
    split
    · exact yields_pure.2 ⟨rfl, rfl⟩
    · next x hx =>
      refine yields_inTurn_self fun v hv => ?_
      have hx := List.mem_of_getElem? hx
      cases ht : w.module.type? id with
      | none => simp [membersOf, ht] at hx
      | some t =>
        simp only [membersOf, ht, Option.elim_some] at hx
        exact hmethods (t, x) (Module.mem_methods.2 ⟨List.mem_of_find?_eq_some ht, hx⟩) v hv
  have htype (t : TypeDecl) (ht : t ∈ w.module.types) :
      Yields (visitType Workspace.module vs t.id) w () w := by
    simp only [visitType, yields_bind]
    exact ⟨(), w, yields_forM_self (htypes t ht), (), w, hmembers t.id, (), w,
      hplaces _ _ (by rintro v (rfl | rfl) n <;> rfl) t.id,
      hplaces _ _ (by rintro v (rfl | rfl) n <;> rfl) t.id⟩
  have hall : Yields (visitTypes Workspace.module vs) w () w := by
    rw [visitTypes, yields_get_bind]
    refine yields_countdown_self fun n _ => ?_
    rw [yields_get_bind]
    split
    · exact yields_pure.2 ⟨rfl, rfl⟩
    · next t ht => exact htype t (List.mem_of_getElem? ht)
  simp only [walk, yields_bind]
  exact ⟨(), w, yields_forM_self (hpure (by rintro v (rfl | rfl) <;> rfl)), (), w,
    yields_forM_self (hpure (by rintro v (rfl | rfl) <;> rfl)), (), w, hall,
    yields_forM_self (hpure (by rintro v (rfl | rfl) <;> rfl))⟩

end Walk

/-- The report on a pass that has found nothing: what verification tells, if the settings ask for it. -/
def Module.quietReport (m : Module) (settings : Settings) : PassReport where
  diagnostics := if settings.verify then m.verify.diagnostics else []
  tally := {}
  definitions := []
  certificate := if settings.verify then some m.verify.certificate else none

theorem Module.weave_of_inert {m : Module} {settings : Settings} (hm : m.Numbered)
    (h : m.Inert settings) {vs : List (Visitor Workspace)}
    (hvs : visitorsNamed settings.components = .ok vs) :
    m.weave settings = (.ok (m.quietReport settings), m) := by
  obtain ⟨hstandard, hnames⟩ := standard_of_visitorsNamed hvs
  have hmem (v : Visitor Workspace) (hv : v ∈ vs) : v.name ∈ settings.components :=
    hnames ▸ List.mem_map_of_mem hv
  have hwalk : Yields (walk Workspace.module vs) { pass := { settings }, module := m } ()
      { pass := { settings }, module := m } := by
    refine Walk.yields_walk_self hstandard (fun t ht v hv => ?_) fun p hp v hv => ?_
    · have hname := hmem v hv
      rcases hstandard v hv with rfl | rfl
      · exact Weaving.yields_weaveType_self hm (hm.type?_eq_some_iff.2 ⟨ht, rfl⟩)
          ((h t ht).injection hname)
      · exact yields_pure.2 ⟨rfl, rfl⟩
    · have hname := hmem v hv
      obtain ⟨t, x⟩ := p
      rcases hstandard v hv with rfl | rfl
      · exact yields_pure.2 ⟨rfl, rfl⟩
      · obtain ⟨ht, hx⟩ := Module.mem_methods.1 hp
        exact Weaving.yields_sweepMethod_self (hm.method?_eq_some_iff.2 ⟨hp, rfl⟩)
          ((h t ht).advice hname x hx)
  refine weave_eq_ok_iff.2 ⟨vs, _, hvs, hwalk, ?_, rfl⟩
  cases hverify : settings.verify <;> simp [Workspace.report, quietReport, hverify]

end AdviceWeaving
