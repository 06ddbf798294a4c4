import AdviceWeaving.Proofs.Following

/-!
# A walk follows the outline

A pass walks over a module with the visitors that its settings name, each maybe more than once.  The
injection weaver works at types only, and the orphan sweep at methods only; to visit a type again
changes nothing more.  So a walk visits the types as the outline does (`Walk.follows_walk`), and
what a pass makes of a module is told by the outline (`Module.follows_weave`).
-/

namespace AdviceWeaving

/-! ### Steps of a walk -/

namespace Step

variable {σ : Type} {visit : Nat → Step σ Unit} {n : Nat} {s s' : σ} {u : Unit}

theorem yields_countdown_zero : Yields (countdown visit 0) s u s' ↔ s' = s := by
  rw [countdown, yields_pure]
  simp

theorem yields_countdown_succ :
    Yields (countdown visit (n + 1)) s u s' ↔
      ∃ t, Yields (visit n) s () t ∧ Yields (countdown visit n) t () s' := by
  rw [countdown, yields_bind]
  constructor
  · rintro ⟨_, t, h⟩; exact ⟨t, h⟩
  · rintro ⟨t, h⟩; exact ⟨(), t, h⟩

/-- Steps that change nothing, one after the other. -/
private theorem eq_of_yields_countdown (hvisit : ∀ k s s', Yields (visit k) s () s' → s' = s)
    (h : Yields (countdown visit n) s u s') : s' = s := by
  induction n generalizing s with
  | zero => exact yields_countdown_zero.1 h
  | succ n ih =>
    obtain ⟨t, ht, h⟩ := yields_countdown_succ.1 h
    rw [ih h, hvisit n s t ht]

theorem eq_of_yields_forM {α : Type} {f : α → Step σ Unit} {l : List α}
    (hf : ∀ a ∈ l, ∀ s s', Yields (f a) s () s' → s' = s) (h : Yields (forM l f) s u s') :
    s' = s := by
  induction l generalizing s with
  | nil => exact yields_forM_nil.1 h
  | cons a l ih =>
    obtain ⟨t, ht, h⟩ := yields_forM_cons.1 h
    rw [ih (fun b hb => hf b (List.mem_cons_of_mem a hb)) h, hf a List.mem_cons_self s t ht]

end Step

/-! ### The visitors of a pass -/

/-- All visitors are those of a pass. -/
def Standard (visitors : List (Visitor Workspace)) : Prop :=
  ∀ v ∈ visitors, v = injectionWeaver ∨ v = orphanSweep

private theorem eq_of_visitorNamed {name : String} {v : Visitor Workspace} (h : visitorNamed name = .ok v) :
    (v = injectionWeaver ∨ v = orphanSweep) ∧ v.name = name := by
  unfold visitorNamed at h
  split at h
  · next hname => cases h; exact ⟨.inl rfl, hname.symm⟩
  · split at h
    · next hname => cases h; exact ⟨.inr rfl, hname.symm⟩
    · cases h

theorem standard_of_visitorsNamed {names : List String} {visitors : List (Visitor Workspace)}
    (h : visitorsNamed names = .ok visitors) :
    Standard visitors ∧ visitors.map (·.name) = names := by
  induction names generalizing visitors with
  | nil =>
    cases h
    exact ⟨fun v hv => (List.not_mem_nil hv).elim, rfl⟩
  | cons name names ih =>
    rw [visitorsNamed, List.mapM_cons] at h
    cases hv : visitorNamed name with
    | error failure => rw [hv] at h; cases h
    | ok v =>
      cases hvs : visitorsNamed names with
      | error failure =>
        rw [visitorsNamed] at hvs
        rw [hv, hvs] at h
        cases h
      | ok vs =>
        obtain ⟨hstandard, hnames⟩ := ih hvs
        rw [visitorsNamed] at hvs
        rw [hv, hvs] at h
        cases h
        obtain ⟨hone, hname⟩ := eq_of_visitorNamed hv
        refine ⟨fun v' hv' => ?_, by rw [List.map_cons, hname, hnames]⟩
        rcases List.mem_cons.1 hv' with rfl | hv'
        · exact hone
        · exact hstandard v' hv'

theorem Standard.tail {v : Visitor Workspace} {visitors : List (Visitor Workspace)}
    (h : Standard (v :: visitors)) : Standard visitors :=
  fun v' hv' => h v' (List.mem_cons_of_mem v hv')

/-! ### Sweeping -/

theorem strip_strip (attributes : List Attribute) (name : String) :
    strip (strip attributes name) name = strip attributes name := by
  simp [strip]

private theorem Weaving.swept_swept (names : MarkerNames) (x : Method) :
    swept names (swept names x) = swept names x := by
  simp [swept, strip_strip, Param.stripped, Function.comp_def]

/-- Remove stray markers from the methods with the given identifiers. -/
def Module.sweepMethods (m : Module) (names : MarkerNames) (ids : List MethodId) : Module :=
  m.mapMethods fun _ x => if x.id ∈ ids then Weaving.swept names x else x

/-- A stage, when stray markers have been removed. -/
def PassStage.sweep (s : PassStage) (ids : List MethodId) : PassStage :=
  { s with module := s.module.sweepMethods s.settings.markers ids }

/-- Those of the given methods that the visitors sweep: all or none. -/
def sweptBy (visitors : List (Visitor Workspace)) (ids : List MethodId) : List MethodId :=
  if orphanSweepName ∈ visitors.map (·.name) then ids else []

namespace Module

variable (m : Module) (names : MarkerNames)

private theorem sweepMethods_nil : m.sweepMethods names [] = m := by
  simp [sweepMethods, mapMethods]

private theorem sweepMethods_sweepMethods (a b : List MethodId) :
    (m.sweepMethods names a).sweepMethods names b = m.sweepMethods names (a ++ b) := by
  have hid (x : Method) : (Weaving.swept names x).id = x.id := rfl
  simp only [sweepMethods, mapMethods, List.map_map]
  congr 1
  apply List.map_congr_left
  intro t _
  simp only [Function.comp_apply, List.map_map]
  congr 1
  apply List.map_congr_left
  intro x _
  by_cases ha : x.id ∈ a <;> by_cases hb : x.id ∈ b <;> simp [ha, hb, hid, Weaving.swept_swept]

private theorem methodIds_sweepMethods (ids : List MethodId) :
    methodIds (m.sweepMethods names ids).types = methodIds m.types := by
  have hid (x : Method) : (if x.id ∈ ids then Weaving.swept names x else x).id = x.id := by
    split <;> rfl
  simp [sweepMethods, mapMethods, methodIds, List.flatMap_map, Function.comp_def, hid]

private theorem sweepMethods_congr {a b : List MethodId} (h : ∀ id, id ∈ a ↔ id ∈ b) :
    m.sweepMethods names a = m.sweepMethods names b := by
  simp only [sweepMethods, h]

private theorem profile_sweep (ids : List MethodId) (t : TypeDecl) (x : Method) :
    (if x.id ∈ ids then Weaving.swept names x else x).profile t = x.profile t := by
  split
  · exact x.profile_swept names t
  · rfl

theorem profiles_sweepMethods (ids : List MethodId) :
    (m.sweepMethods names ids).profiles = m.profiles :=
  profiles_mapMethods fun t _ x _ => profile_sweep names ids t x

private theorem Numbered.sweepMethods {m : Module} (h : m.Numbered) (names : MarkerNames)
    (ids : List MethodId) : (m.sweepMethods names ids).Numbered :=
  h.mapMethods fun t _ x _ => profile_sweep names ids t x

end Module

private theorem strip_of_countAttribute {attributes : List Attribute} {name : String}
    (h : countAttribute attributes name = 0) : strip attributes name = attributes := by
  rw [countAttribute, List.countP_eq_zero] at h
  rw [strip, List.filter_eq_self]
  simpa using h

/-- A method without markers is as if they had been removed. -/
theorem Weaving.swept_of_countMarkers {names : MarkerNames} {x : Method}
    (h : x.countMarkers names = 0) : swept names x = x := by
  rw [Method.countMarkers, Nat.add_eq_zero_iff] at h
  have hparams : x.params.map (·.stripped names) = x.params := by
    refine (List.map_congr_left fun p hp => ?_).trans (List.map_id' x.params)
    have hp' : countAttribute p.attributes names.argument = 0 := by
      rw [countAttribute, List.countP_eq_zero] at h ⊢
      exact fun a ha => (List.countP_eq_zero.1 h.2) a (List.mem_flatMap.2 ⟨p, hp, ha⟩)
    rw [Param.stripped, strip_of_countAttribute hp']
  rw [swept, strip_of_countAttribute h.1, hparams]

namespace Weaving

open Step

variable {w w' : Workspace} {s : PassStage} {u : Unit} {vs : List (Visitor Workspace)}

theorem at_sweepMethod {id : MethodId} (h : w.At s) (hy : Yields (sweepMethod id) w u w') :
    w'.At (s.sweep [id]) := by
  obtain ⟨bodies, h⟩ := h
  obtain ⟨t, x, hx, hy⟩ := yields_sweepMethod_iff.1 hy
  rw [h.settings_eq] at hy
  have hnumbered : w.module.Numbered := h.module_eq ▸ h.numbered.withBodies bodies
  obtain ⟨hmem, rfl⟩ := hnumbered.method?_eq_some_iff.1 hx
  -- without markers nothing is done, which is the same as to remove them
  obtain ⟨hmodule, hat⟩ : w'.module = w.module.mapMethods
      (fun _ y => if y.id = x.id then swept s.settings.markers y else y) ∧
      ∀ s', ({ w with module := w'.module } : Workspace).At s' → w'.At s' := by
    rcases hy with ⟨hcount, rfl⟩ | ⟨-, rfl⟩
    · refine ⟨((Module.mapMethods_congr fun p hp => ?_).trans Module.mapMethods_id).symm,
        fun _ h => h⟩
      split
      · next hid => rw [hnumbered.eq_of_id_eq hp hmem hid, swept_of_countMarkers hcount]
      · rfl
    · refine ⟨?_, fun _ h => h.of_eq rfl rfl rfl rfl rfl⟩
      rw [← hnumbered.updateMethod_eq, ← h.settings_eq]
      rfl
  refine hat _ ⟨bodies, h.of_profiles (h.numbered.sweepMethods s.settings.markers [x.id])
    (s.module.profiles_sweepMethods s.settings.markers [x.id]) rfl ?_ rfl⟩
  show w'.module = _
  rw [hmodule, h.module_eq]
  refine Module.mapMethods_withBodies fun _ y => ?_
  by_cases hy : y.id = x.id
  · simp only [Method.withBody_id, hy, List.mem_singleton, if_true]
    show swept s.settings.markers (y.withBody (bodies x.id)) =
      (swept s.settings.markers y).withBody (bodies y.id)
    rw [hy, Method.swept_withBody]
  · simp [hy]

end Weaving

/-! ### The methods of a type -/

namespace Walk

open Step

variable {w w' : Workspace} {s : PassStage} {u : Unit} {vs : List (Visitor Workspace)}

private theorem sweep_sweep (a b : List MethodId) : (s.sweep a).sweep b = s.sweep (a ++ b) := by
  simp [PassStage.sweep, Module.sweepMethods_sweepMethods]

private theorem sweep_nil : s.sweep [] = s := by
  simp [PassStage.sweep, Module.sweepMethods_nil]

private theorem sweep_congr {a b : List MethodId} (h : ∀ id, id ∈ a ↔ id ∈ b) :
    s.sweep a = s.sweep b := by
  rw [PassStage.sweep, Module.sweepMethods_congr _ _ h]
  rfl

private theorem isSome_method? {id : MethodId} (h : w.At s) (hid : id ∈ methodIds s.module.types) :
    (w.module.method? id).isSome := by
  obtain ⟨bodies, h⟩ := h
  obtain ⟨t, ht, x, hx, rfl⟩ := Module.mem_methodIds.1 hid
  rw [h.module_eq, Module.method?_withBodies, Option.isSome_map,
    h.numbered.method?_eq_some_iff.2 ⟨Module.mem_methods.2 ⟨ht, hx⟩, rfl⟩]
  rfl

/-- The orphan sweep removes the markers of a method, the injection weaver leaves them. -/
private theorem at_inTurn (hvs : Standard vs) {id : MethodId} (h : w.At s)
    (hid : id ∈ methodIds s.module.types)
    (hy : Yields (inTurn Workspace.module (fun m => (m.method? id).isSome) (·.onMethod id) vs)
      w u w') :
    w'.At (s.sweep (sweptBy vs [id])) := by
  induction vs generalizing w s with
  | nil =>
    obtain ⟨-, rfl⟩ := yields_pure.1 hy
    simpa [sweptBy, sweep_nil] using h
  | cons v vs ih =>
    rw [inTurn, yields_get_bind, if_pos (isSome_method? h hid)] at hy
    obtain ⟨_, w₁, hv, hturn⟩ := yields_bind.1 hy
    rcases hvs v List.mem_cons_self with rfl | rfl
    · obtain ⟨-, rfl⟩ := yields_pure.1 hv
      have hname : orphanSweepName ≠ injectionWeaverName := by decide
      simpa [sweptBy, injectionWeaver, hname] using ih hvs.tail h hid hturn
    · have hid' : id ∈ methodIds (s.sweep [id]).module.types := by
        rwa [PassStage.sweep, Module.methodIds_sweepMethods]
      have hrest := ih hvs.tail (Weaving.at_sweepMethod h hv) hid' hturn
      rw [sweep_sweep, sweep_congr (b := [id])] at hrest
      · simpa [sweptBy, orphanSweep] using hrest
      · intro k
        unfold sweptBy
        split <;> simp

/-- Show the method at a place of a type. -/
private def visitMethodAt (vs : List (Visitor Workspace)) (id : TypeId) (index : Nat) :
    Weaving Unit := do
  match (membersOf (·.methods) id (← get).module)[index]? with
  | none => pure ()
  | some method =>
    inTurn Workspace.module (fun m => (m.method? method.id).isSome) (·.onMethod method.id) vs

private theorem at_visitMethodAt (hvs : Standard vs) {id : TypeId} {index : Nat} {k : MethodId}
    {t : TypeDecl} (h : w.At s) (ht : s.module.type? id = some t)
    (hk : (t.methods.map (·.id))[index]? = some k)
    (hy : Yields (visitMethodAt vs id index) w u w') : w'.At (s.sweep (sweptBy vs [k])) := by
  have hat := h
  obtain ⟨bodies, h⟩ := h
  rw [visitMethodAt, yields_get_bind] at hy
  rw [List.getElem?_map, Option.map_eq_some_iff] at hk
  obtain ⟨x, hx, rfl⟩ := hk
  rw [membersOf, h.module_eq, Module.type?_withBodies, ht] at hy
  simp only [Option.map_some, Option.elim_some, TypeDecl.withBodies_methods, List.getElem?_map,
    hx] at hy
  refine at_inTurn hvs hat ?_ hy
  exact Module.mem_methodIds.2
    ⟨t, (h.numbered.type?_eq_some_iff.1 ht).1, x, List.mem_of_getElem? hx, rfl⟩

/-- The methods of a type keep their identifiers while they are visited, from the last to the
first. -/
private theorem at_countdown_methods (hvs : Standard vs) {id : TypeId} {ids : List MethodId}
    {n : Nat} (hn : n ≤ ids.length) (h : w.At s) {t : TypeDecl} (ht : s.module.type? id = some t)
    (hids : t.methods.map (·.id) = ids) (hy : Yields (countdown (visitMethodAt vs id) n) w u w') :
    w'.At (s.sweep (sweptBy vs (ids.take n))) := by
  induction n generalizing w s t with
  | zero =>
    obtain rfl := yields_countdown_zero.1 hy
    simpa [sweptBy, sweep_nil] using h
  | succ n ih =>
    obtain ⟨w₁, hvisit, hy⟩ := yields_countdown_succ.1 hy
    -- the method at the last place comes first
    obtain ⟨k, hk⟩ : ∃ k, ids[n]? = some k := ⟨_, List.getElem?_eq_getElem hn⟩
    have hat := at_visitMethodAt hvs h ht (by rw [hids, hk]) hvisit
    have ht' : ∃ t', (s.sweep (sweptBy vs [k])).module.type? id = some t' ∧
        t'.methods.map (·.id) = ids := by
      refine ⟨_, by rw [PassStage.sweep, Module.sweepMethods, Module.type?_mapMethods, ht]; rfl, ?_⟩
      refine Eq.trans ?_ hids
      rw [List.map_map]
      refine List.map_congr_left fun x _ => ?_
      simp only [Function.comp_apply]
      split <;> rfl
    obtain ⟨t', ht', hids'⟩ := ht'
    have hrest := ih (Nat.le_of_succ_le hn) hat ht' hids' hy
    rw [sweep_sweep, sweep_congr (b := sweptBy vs (ids.take (n + 1)))] at hrest
    · exact hrest
    · intro id'
      unfold sweptBy
      split
      · rw [List.take_add_one, hk]
        simp [or_comm]
      · simp

/-- A visit of the methods of a type removes their stray markers, if the orphan sweep takes part. -/
private theorem at_visitMethods (hvs : Standard vs) {id : TypeId} {t : TypeDecl} (h : w.At s)
    (ht : s.module.type? id = some t) (hy : Yields (visitMethods Workspace.module vs id) w u w') :
    w'.At (s.sweep (sweptBy vs (t.methods.map (·.id)))) := by
  have hunfold : visitMethods Workspace.module vs id =
      (get >>= fun w => countdown (visitMethodAt vs id)
        (membersOf (·.methods) id w.module).length) := rfl
  rw [hunfold, yields_get_bind] at hy
  have hlength : (membersOf (·.methods) id w.module).length = (t.methods.map (·.id)).length := by
    rw [membersOf, h.choose_spec.module_eq, Module.type?_withBodies, ht]
    simp
  rw [hlength] at hy
  have hat := at_countdown_methods hvs (Nat.le_refl _) h ht rfl hy
  rwa [List.take_length] at hat

/-! ### Fields and properties -/

/-- Neither visitor does anything at a field or a property. -/
private theorem eq_of_yields_visitPlaces (hvs : Standard vs) {α : Type}
    {members : TypeDecl → List α} {visit : Visitor Workspace → Nat → Weaving Unit} {id : TypeId}
    (hvisit : ∀ v, v = injectionWeaver ∨ v = orphanSweep → ∀ n, visit v n = pure ())
    (hy : Yields (visitPlaces Workspace.module vs members visit id) w u w') : w' = w := by
  have hturn (n : Nat) {w w' : Workspace} {isPresent : Module → Bool}
      (vs : List (Visitor Workspace)) (hvs : Standard vs)
      (hy : Yields (inTurn Workspace.module isPresent (visit · n) vs) w () w') :
      w' = w := by
    induction vs generalizing w with
    | nil => exact (yields_pure.1 hy).2
    | cons v vs ih =>
      rw [inTurn, yields_get_bind] at hy
      split at hy
      · rw [hvisit v (hvs v List.mem_cons_self), yields_bind] at hy
        obtain ⟨_, _, hpure, hy⟩ := hy
        obtain ⟨-, rfl⟩ := yields_pure.1 hpure
        exact ih hvs.tail hy
      · exact (yields_pure.1 hy).2
  rw [visitPlaces, yields_get_bind] at hy
  exact eq_of_yields_countdown (fun n s s' hn => hturn n vs hvs hn) hy

/-! ### Types -/

variable {settings : Settings} {m : Module} {o : Outline} {visited : List TypeId}

/-- Once a type has been woven, the visitors leave it as it is. -/
private theorem follows_forM_of_spent (hvs : Standard vs) {id : TypeId}
    (h : w.Follows settings m o visited) (hspent : o.Spent settings id)
    (hy : Yields (forM vs (·.onType id)) w u w') : w'.Follows settings m o visited := by
  induction vs generalizing w with
  | nil =>
    obtain rfl := yields_forM_nil.1 hy
    exact h
  | cons v vs ih =>
    obtain ⟨w₁, hv, hrest⟩ := yields_forM_cons.1 hy
    rcases hvs v List.mem_cons_self with rfl | rfl
    · exact ih hvs.tail (Weaving.follows_weaveType_of_spent h hspent hv) hrest
    · obtain ⟨-, rfl⟩ := yields_pure.1 hv
      exact ih hvs.tail h hrest

private theorem follows_forM (hvs : Standard vs) {id : TypeId} (h : w.Follows settings m o visited)
    (hid : id ∉ visited) (hy : Yields (forM vs (·.onType id)) w u w') :
    w'.Follows settings m
      (if injectionWeaverName ∈ vs.map (·.name) then o.weaveType settings id else o)
      (id :: visited) := by
  induction vs generalizing w with
  | nil =>
    obtain rfl := yields_forM_nil.1 hy
    exact h.mono fun _ => List.mem_cons_of_mem id
  | cons v vs ih =>
    obtain ⟨w₁, hv, hrest⟩ := yields_forM_cons.1 hy
    rcases hvs v List.mem_cons_self with rfl | rfl
    · obtain ⟨hfollows, hspent⟩ := Weaving.follows_weaveType h hid hv
      simpa [injectionWeaver] using follows_forM_of_spent hvs.tail hfollows hspent hrest
    · obtain ⟨-, rfl⟩ := yields_pure.1 hv
      have hname : injectionWeaverName ≠ orphanSweepName := by decide
      simpa [orphanSweep, hname] using ih hvs.tail h hrest

/-- The methods of a type are those of its identifier. -/
private theorem sweepType_module (hsound : o.Sound settings m visited) {id : TypeId} {t : TypeDecl}
    (ht : o.module.type? id = some t) :
    (o.sweepType settings id).module =
      o.module.sweepMethods settings.markers (t.methods.map (·.id)) := by
  refine Module.mapMethods_congr fun p hp => ?_
  obtain ⟨hpt, hpx⟩ := Module.mem_methods.1 hp
  have hin := (hsound.numbered.type?_eq_some_iff.1 ht).1
  have hmem : p.1.id = id ↔ p.2.id ∈ t.methods.map (·.id) := by
    constructor
    · intro hpid
      obtain rfl : p.1 = t := Option.some.inj
        ((hsound.numbered.type?_eq_some_iff.2 ⟨hpt, hpid⟩).symm.trans ht)
      exact List.mem_map_of_mem hpx
    · intro hin'
      obtain ⟨x, hx, hxid⟩ := List.mem_map.1 hin'
      rw [hsound.numbered.eq_of_id_eq hp (Module.mem_methods.2 ⟨hin, hx⟩) hxid.symm]
      exact Module.id_of_type? ht
  simp only [hmem]

private theorem follows_visitType (hvs : Standard vs) (hnames : vs.map (·.name) = settings.components)
    {id : TypeId} (h : w.Follows settings m o visited) (hid : id ∉ visited)
    (hin : id ∈ m.types.map (·.id)) (hy : Yields (visitType Workspace.module vs id) w u w') :
    w'.Follows settings m (o.visitType settings id) (id :: visited) := by
  simp only [visitType, yields_bind] at hy
  obtain ⟨_, w₁, htype, _, w₂, hmethods, _, w₃, hfields, hproperties⟩ := hy
  have hplaces : w' = w₂ := by
    rw [eq_of_yields_visitPlaces hvs (by rintro v (rfl | rfl) n <;> rfl) hproperties,
      eq_of_yields_visitPlaces hvs (by rintro v (rfl | rfl) n <;> rfl) hfields]
  rw [hplaces]
  have h₁ := follows_forM hvs h hid htype
  rw [hnames] at h₁
  unfold Outline.visitType
  generalize (if injectionWeaverName ∈ settings.components then o.weaveType settings id else o) =
    o₁ at h₁ ⊢
  obtain ⟨hsound, handles, wrap, hat, hhandles, hwrap⟩ := h₁
  obtain ⟨t, ht⟩ := hsound.exists_type? hin
  have hat₂ := at_visitMethods hvs hat ht hmethods
  rw [sweptBy, hnames] at hat₂
  by_cases hsweep : orphanSweepName ∈ settings.components
  · simp only [if_pos hsweep] at hat₂ ⊢
    have hmodule := sweepType_module hsound ht
    refine ⟨hsound.sweepType List.mem_cons_self, handles, wrap, ?_, hhandles,
      fun p hp b hb => hwrap p ?_ b hb⟩
    · rw [hmodule]
      exact hat₂
    · rwa [hmodule, Module.profiles_sweepMethods] at hp
  · simp only [if_neg hsweep, sweep_nil] at hat₂ ⊢
    exact ⟨hsound, handles, wrap, hat₂, hhandles, hwrap⟩

/-- Nothing has been visited when a walk begins. -/
theorem follows_start_outlineFrom (hm : m.Numbered) (settings : Settings) :
    ({ pass := { settings }, module := m } : Workspace).Follows settings m (m.outlineFrom settings m.types.length)
      ((m.types.map (·.id)).drop m.types.length) := by
  rw [m.outlineFrom_length, ← List.length_map (·.id), List.drop_length]
  exact Workspace.follows_start hm settings

/-- Show the type at a place of the module. -/
def visitTypeAt (vs : List (Visitor Workspace)) (index : Nat) : Weaving Unit := do
  match (← get).module.types[index]? with
  | none => pure ()
  | some t => visitType Workspace.module vs t.id

theorem run_visitTypeAt {index : Nat} {id : TypeId}
    (hid : (w.module.types.map (·.id))[index]? = some id) :
    (visitTypeAt vs index).run w = (visitType Workspace.module vs id).run w := by
  rw [List.getElem?_map, Option.map_eq_some_iff] at hid
  obtain ⟨t, ht, rfl⟩ := hid
  have hunfold : (visitTypeAt vs index).run w = (match w.module.types[index]? with
    | none => (pure () : Weaving Unit)
    | some t => visitType Workspace.module vs t.id).run w := rfl
  rw [hunfold, ht]

/-- The type at a place is visited, when those behind it have been. -/
private theorem follows_visitTypeAt (hvs : Standard vs) (hnames : vs.map (·.name) = settings.components)
    (hm : m.Numbered) {ids : List TypeId} (hids : m.types.map (·.id) = ids) {n : Nat} (hn : n < ids.length)
    (h : w.Follows settings m
      ((ids.drop (n + 1)).foldr (fun id o => o.visitType settings id) { module := m })
      (ids.drop (n + 1)))
    (hy : Yields (visitTypeAt vs n) w u w') :
    w'.Follows settings m
      ((ids.drop n).foldr (fun id o => o.visitType settings id) { module := m }) (ids.drop n) := by
  -- the next type is the one in front of those that have been visited
  have hdrop : ids.drop n = ids[n] :: ids.drop (n + 1) := List.drop_eq_getElem_cons hn
  have hnodup : (ids.drop n).Nodup := (hids ▸ hm.types_nodup).sublist (List.drop_sublist n ids)
  rw [hdrop, List.nodup_cons] at hnodup
  rw [hdrop, List.foldr_cons]
  have hid : (w.module.types.map (·.id))[n]? = some ids[n] := by
    rw [h.types_eq, hids, List.getElem?_eq_getElem hn]
  rw [Yields, run_visitTypeAt hid] at hy
  exact follows_visitType hvs hnames h hnodup.1 (hids ▸ List.getElem_mem hn) hy

/-- The type at a place is the one that stood there at first. -/
theorem yields_visitTypeAt_iff (h : w.Follows settings m o visited) {n : Nat} (hn : n < m.types.length) :
    Yields (visitTypeAt vs n) w u w' ↔ Yields (visitType Workspace.module vs m.types[n].id) w u w' := by
  have hid : (w.module.types.map (·.id))[n]? = some m.types[n].id := by
    rw [h.types_eq, List.getElem?_eq_getElem (by rwa [List.length_map]), List.getElem_map]
  rw [Yields, Yields, run_visitTypeAt hid]

/-- What each visit of a walk keeps holds at its end, with the outline as far as the walk has come. -/
theorem countdown_induction (hvs : Standard vs) (hnames : vs.map (·.name) = settings.components) (hm : m.Numbered)
    {P : Nat → Workspace → Prop}
    (step : ∀ n (hn : n < m.types.length) w w',
      w.Follows settings m (m.outlineFrom settings (n + 1)) ((m.types.map (·.id)).drop (n + 1)) →
      m.types[n].id ∉ (m.types.map (·.id)).drop (n + 1) → P (n + 1) w →
      Yields (visitType Workspace.module vs m.types[n].id) w () w' → P n w')
    {n : Nat} (hn : n ≤ m.types.length)
    (h : w.Follows settings m (m.outlineFrom settings n) ((m.types.map (·.id)).drop n)) (hP : P n w)
    (hy : Yields (countdown (visitTypeAt vs) n) w u w') :
    w'.Follows settings m (m.outline settings) (m.types.map (·.id)) ∧ P 0 w' := by
  induction n generalizing w with
  | zero =>
    obtain rfl := yields_countdown_zero.1 hy
    exact ⟨h, hP⟩
  | succ n ih =>
    obtain ⟨w₁, hvisit, hrest⟩ := yields_countdown_succ.1 hy
    have hlt : n < (m.types.map (·.id)).length := by rwa [List.length_map]
    have hnew : m.types[n].id ∉ (m.types.map (·.id)).drop (n + 1) := by
      have hnodup := hm.types_nodup.sublist (List.drop_sublist n _)
      rw [List.drop_eq_getElem_cons hlt, List.nodup_cons, List.getElem_map] at hnodup
      exact hnodup.1
    refine ih (Nat.le_of_succ_le hn) (follows_visitTypeAt hvs hnames hm rfl hlt h hvisit) ?_ hrest
    exact step n hn w w₁ h hnew hP ((yields_visitTypeAt_iff h hn).1 hvisit)

end Walk

/-! ### Passes -/

/-- A walk of the visitors of a pass visits the types as the outline does. -/
theorem Walk.follows_walk {vs : List (Visitor Workspace)} {w' : Workspace} {m : Module}
    {settings : Settings} {u : Unit} (hvs : Standard vs)
    (hnames : vs.map (·.name) = settings.components) (hm : m.Numbered)
    (hy : Step.Yields (walk Workspace.module vs) { pass := { settings }, module := m } u w') :
    w'.Follows settings m (m.outline settings) (m.types.map (·.id)) := by
  have hforM {f : Visitor Workspace → Weaving Unit}
      (hf : ∀ v, v = injectionWeaver ∨ v = orphanSweep → f v = pure ())
      {w w' : Workspace} {u : Unit} (hy : Step.Yields (forM vs f) w u w') : w' = w :=
    Step.eq_of_yields_forM (fun v hv s s' h => by
      rw [hf v (hvs v hv)] at h
      exact (Step.yields_pure.1 h).2) hy
  simp only [walk, Step.yields_bind] at hy
  obtain ⟨_, w₁, hbefore, _, w₂, hmodule, _, w₃, htypes, hcomplete⟩ := hy
  obtain rfl := hforM (by rintro v (rfl | rfl) <;> rfl) hbefore
  obtain rfl := hforM (by rintro v (rfl | rfl) <;> rfl) hmodule
  obtain rfl := hforM (by rintro v (rfl | rfl) <;> rfl) hcomplete
  have hunfold : visitTypes Workspace.module vs =
      (get >>= fun w => countdown (visitTypeAt vs) w.module.types.length) := rfl
  rw [hunfold, Step.yields_get_bind] at htypes
  refine (countdown_induction (P := fun _ _ => True) hvs hnames hm (fun _ _ _ _ _ _ _ _ => trivial) (Nat.le_refl _)
    (follows_start_outlineFrom hm settings) trivial htypes).1

/-- What a pass makes of a module with distinct identifiers. -/
theorem Module.follows_weave {m m' : Module} {settings : Settings} {report : PassReport}
    (hm : m.Numbered) (h : m.weave settings = (.ok report, m')) :
    ∃ w : Workspace, w.module = m' ∧ w.report = report ∧
      w.Follows settings m (m.outline settings) (m.types.map (·.id)) := by
  obtain ⟨vs, w, hvisitors, hy, hreport, hmodule⟩ := weave_eq_ok_iff.1 h
  obtain ⟨hvs, hnames⟩ := standard_of_visitorsNamed hvisitors
  exact ⟨w, hmodule, hreport, Walk.follows_walk hvs hnames hm hy⟩

end AdviceWeaving
