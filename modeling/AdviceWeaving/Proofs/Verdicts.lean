import AdviceWeaving.Proofs.Inert
import AdviceWeaving.Proofs.Outcomes

/-!
# What a pass decides about marker types

A pass comes to every type once, and behind it all types have been visited by then.  If it reads a marker type there
(`Module.Reads`), it accepts it or rejects it.  The outline of a pass notes one marker type after the other, as the
pass accepts them (`Weaving.admissions_weaveType`), so what it notes in the end is what the pass accepts, with the
targets that it finds (`Module.admissions_of_weave`).
-/

namespace AdviceWeaving

namespace Step

/-- The number zero comes last. -/
private theorem yields_countdown_succ_last {σ : Type} {visit : Nat → Step σ Unit} {n : Nat} {s s' : σ} :
    Yields (countdown visit (n + 1)) s () s' ↔
      ∃ t, Yields (countdown (fun k => visit (k + 1)) n) s () t ∧ Yields (visit 0) t () s' := by
  induction n generalizing s with
  | zero =>
    rw [yields_countdown_succ]
    simp only [yields_countdown_zero]
    constructor
    · rintro ⟨t, h, rfl⟩; exact ⟨s, rfl, h⟩
    · rintro ⟨t, rfl, h⟩; exact ⟨s', h, rfl⟩
  | succ n ih =>
    rw [yields_countdown_succ]
    constructor
    · rintro ⟨t, hfirst, hrest⟩
      obtain ⟨t', hmiddle, hlast⟩ := ih.1 hrest
      exact ⟨t', yields_countdown_succ.2 ⟨t, hfirst, hmiddle⟩, hlast⟩
    · rintro ⟨t', hfront, hlast⟩
      obtain ⟨t, hfirst, hmiddle⟩ := yields_countdown_succ.1 hfront
      exact ⟨t, hfirst, ih.2 ⟨t', hmiddle, hlast⟩⟩

end Step

/-! ### Decisions -/

/-- What visitors do before they come to the type at a place: they visit those behind it. -/
def Walk.approach (visitors : List (Visitor Workspace)) (index : Nat) : Weaving Unit := do
  visitors.forM (·.before)
  visitors.forM (·.onModule)
  let n := (← get).module.types.length - (index + 1)
  countdown (fun k => Walk.visitTypeAt visitors (index + 1 + k)) n

/-- A pass that comes to the type with the given identifier reads a marker type there. -/
def Module.Reads (m : Module) (settings : Settings) (id : TypeId) (marker : MarkerType) (w : Workspace) : Prop :=
  injectionWeaverName ∈ settings.components ∧
    ∃ visitors index w₀, visitorsNamed settings.components = .ok visitors ∧
      (m.types.map (·.id))[index]? = some id ∧
      Step.Yields (Walk.approach visitors index) { pass := { settings }, module := m } () w₀ ∧
      Step.Yields (Weaving.scan id) w₀ (some marker) w

/-- A pass reads the marker type, finds targets for it, and accepts it. -/
def Module.Accepts (m : Module) (settings : Settings) (marker : MarkerType) : Prop :=
  ∃ w w', m.Reads settings marker.owner marker w ∧ w.module.targets marker.name ≠ [] ∧
    Step.Yields (Weaving.inject marker) w true w'

/-- What there is to note of a marker type that a pass accepts, if it has made `m` of the module before. -/
def MarkerType.admission (marker : MarkerType) (storage : HandleStorage) (m : Module) : Admission where
  marker := marker
  targets := m.targets marker.name
  handle? := if marker.advice.any (!·.isStatic) then (m.type? marker.owner).map (·.handle storage) else none
  initializes := marker.advice.any (!·.isStatic) &&
    (m.type? marker.owner).any fun t => (t.method? initializerName).isNone

/-- A pass accepts the marker type of the admission, for its targets, and makes the hidden method if it says so. -/
def Module.Admits (m : Module) (settings : Settings) (a : Admission) : Prop :=
  ∃ w w', m.Reads settings a.marker.owner a.marker w ∧ a = a.marker.admission settings.handleStorage w.module ∧
    a.targets ≠ [] ∧ Step.Yields (Weaving.inject a.marker) w true w'

/-! ### Walks -/

namespace Walk

open Step Workspace

variable {vs : List (Visitor Workspace)} {w w' w₀ w₁ : Workspace} {u : Unit}

/-- The hooks of the visitors that are not shown anything do nothing. -/
private theorem yields_hooks (hvs : Standard vs) {f : Visitor Workspace → Weaving Unit}
    (hf : ∀ visitor, visitor = injectionWeaver ∨ visitor = orphanSweep → f visitor = pure ()) :
    Yields (forM vs f) w u w' ↔ w' = w := by
  constructor
  · refine eq_of_yields_forM fun visitor hvisitor w w' hy => ?_
    rw [hf visitor (hvs visitor hvisitor)] at hy
    exact (yields_pure.1 hy).2
  · rintro rfl
    refine yields_forM_self fun visitor hvisitor => ?_
    rw [hf visitor (hvs visitor hvisitor)]
    exact yields_pure.2 ⟨rfl, rfl⟩

/-- A walk of the visitors of a pass is a countdown over the places of types. -/
theorem yields_walk (hvs : Standard vs) :
    Yields (walk Workspace.module vs) w u w' ↔
      Yields (countdown (visitTypeAt vs) w.module.types.length) w () w' := by
  have hhooks {f : Visitor Workspace → Weaving Unit}
      (hf : ∀ v, v = injectionWeaver ∨ v = orphanSweep → f v = pure ()) {u : Unit} {w w' : Workspace} :
      Yields (vs.forM f) w u w' ↔ w' = w := yields_hooks hvs hf
  simp only [walk, yields_bind, @hhooks (·.before) (by rintro _ (rfl | rfl) <;> rfl),
    @hhooks (·.onModule) (by rintro _ (rfl | rfl) <;> rfl),
    @hhooks (·.complete) (by rintro _ (rfl | rfl) <;> rfl)]
  constructor
  · rintro ⟨_, _, rfl, _, _, rfl, _, _, hy, rfl⟩
    exact hy
  · intro hy
    exact ⟨(), w, rfl, (), w, rfl, (), w', hy, rfl⟩

private theorem yields_approach (hvs : Standard vs) {n : Nat} :
    Yields (approach vs n) w () w' ↔
      Yields (countdown (fun k => visitTypeAt vs (n + 1 + k)) (w.module.types.length - (n + 1))) w () w' := by
  have hbefore {u : Unit} {w w' : Workspace} : Yields (vs.forM (·.before)) w u w' ↔ w' = w :=
    yields_hooks hvs (by rintro _ (rfl | rfl) <;> rfl)
  have hmodule {u : Unit} {w w' : Workspace} : Yields (vs.forM (·.onModule)) w u w' ↔ w' = w :=
    yields_hooks hvs (by rintro _ (rfl | rfl) <;> rfl)
  simp only [approach, yields_bind, hbefore, hmodule, yields_get]
  constructor
  · rintro ⟨_, _, rfl, _, _, rfl, _, _, ⟨rfl, rfl⟩, hy⟩
    exact hy
  · intro hy
    exact ⟨(), w, rfl, (), w, rfl, w, w, ⟨rfl, rfl⟩, hy⟩

/-- The types behind a place have been visited, and then the one at the place is. -/
theorem yields_behind {length n : Nat} (hn : n + 1 ≤ length)
    (h : Yields (countdown (fun k => visitTypeAt vs (n + 1 + k)) (length - (n + 1))) w₀ () w)
    (hy : Yields (visitTypeAt vs n) w () w₁) :
    Yields (countdown (fun k => visitTypeAt vs (n + k)) (length - n)) w₀ () w₁ := by
  have hlength : length - n = length - (n + 1) + 1 := by omega
  rw [hlength, yields_countdown_succ_last]
  simp only [Nat.add_right_comm n 1] at h
  exact ⟨w, h, hy⟩

/-- What each visit of a walk keeps holds at its end.  Before a type is visited, those behind it have been. -/
theorem visit_induction {settings : Settings} {m : Module} (hvs : Standard vs)
    (hnames : vs.map (·.name) = settings.components) (hm : m.Numbered) {P : Nat → Workspace → Prop}
    (start : P m.types.length { pass := { settings }, module := m })
    (step : ∀ n (hn : n < m.types.length) w w',
      w.Follows settings m (m.outlineFrom settings (n + 1)) ((m.types.map (·.id)).drop (n + 1)) →
      m.types[n].id ∉ (m.types.map (·.id)).drop (n + 1) →
      Yields (countdown (fun k => visitTypeAt vs (n + 1 + k)) (m.types.length - (n + 1)))
        { pass := { settings }, module := m } () w →
      P (n + 1) w → Yields (visitType Workspace.module vs m.types[n].id) w () w' → P n w')
    (hy : Yields (countdown (visitTypeAt vs) m.types.length) { pass := { settings }, module := m } () w') : P 0 w' := by
  refine (countdown_induction (P := fun n w => Yields (countdown (fun k => visitTypeAt vs (n + k)) (m.types.length - n))
    { pass := { settings }, module := m } () w ∧ P n w) hvs hnames hm ?_ (Nat.le_refl _)
    (follows_start_outlineFrom hm settings) ⟨?_, start⟩ hy).2.2
  · rintro n hn w w' h hnew ⟨hbehind, hP⟩ hvisit
    exact ⟨yields_behind hn hbehind ((yields_visitTypeAt_iff h hn).2 hvisit), step n hn w w' h hnew hbehind hP hvisit⟩
  · rw [Nat.sub_self]
    exact yields_countdown_zero.2 rfl

/-- A marker type is read where the visit of its type finds it, when the types behind it have been visited. -/
theorem reads_iff {settings : Settings} {m : Module} (hvs : Standard vs)
    (hvisitors : visitorsNamed settings.components = .ok vs) (hm : m.Numbered) {n : Nat} (hn : n < m.types.length)
    (hbehind : Yields (countdown (fun k => visitTypeAt vs (n + 1 + k)) (m.types.length - (n + 1)))
      { pass := { settings }, module := m } () w) {marker : MarkerType} :
    m.Reads settings m.types[n].id marker w₁ ↔
      injectionWeaverName ∈ settings.components ∧ Yields (Weaving.scan m.types[n].id) w (some marker) w₁ := by
  have happroach : Yields (approach vs n) { pass := { settings }, module := m } () w := (yields_approach hvs).2 hbehind
  have hlt : n < (m.types.map (·.id)).length := by rwa [List.length_map]
  have hplace : (m.types.map (·.id))[n]? = some m.types[n].id := by
    rw [List.getElem?_eq_getElem hlt, List.getElem_map]
  constructor
  · rintro ⟨hweaver, vs', n', w₀, hvisitors', hplace', happroach', hscan⟩
    obtain rfl : vs = vs' := Except.ok.inj (hvisitors.symm.trans hvisitors')
    obtain rfl : n' = n := ((List.getElem?_inj hlt hm.types_nodup).1 (hplace.trans hplace'.symm)).symm
    cases happroach.symm.trans happroach'
    exact ⟨hweaver, hscan⟩
  · rintro ⟨hweaver, hscan⟩
    exact ⟨hweaver, vs, n, w, hvisitors, hplace, happroach, hscan⟩

/-- Where the weaver takes part in the visit of a type, it comes to the type as the visit finds it. -/
private theorem exists_yields_weaveType (hvs : Standard vs) (hweaver : injectionWeaverName ∈ vs.map (·.name))
    {id : TypeId}
    (hy : Yields (visitType Workspace.module vs id) w u w') : ∃ w₁, Yields (Weaving.weaveType id) w () w₁ := by
  simp only [visitType, yields_bind] at hy
  obtain ⟨_, w₂, hy, -⟩ := hy
  induction vs generalizing w with
  | nil => simp at hweaver
  | cons v vs ih =>
    obtain ⟨w₁, hv, hrest⟩ := yields_forM_cons.1 hy
    rcases hvs v List.mem_cons_self with rfl | rfl
    · exact ⟨w₁, hv⟩
    · obtain ⟨-, rfl⟩ := yields_pure.1 hv
      have hname : injectionWeaverName ≠ orphanSweepName := by decide
      exact ih hvs.tail (by simpa [orphanSweep, hname] using hweaver) hrest

end Walk

/-! ### Admissions -/

private theorem MarkerType.admission_withBodies (marker : MarkerType) (storage : HandleStorage) (m : Module)
    (bodies : MethodId → Body) :
    marker.admission storage (m.withBodies bodies) = marker.admission storage m := by
  have hhandle (t : TypeDecl) : (t.withBodies bodies).handle storage = t.handle storage := rfl
  have hmethod (t : TypeDecl) :
      ((t.withBodies bodies).method? initializerName).isNone = (t.method? initializerName).isNone := by
    rw [TypeDecl.method?_withBodies, Option.isNone_map]
  simp only [admission, Module.targets_withBodies, Module.type?_withBodies, Option.map_map, Option.any_map,
    Function.comp_def, hhandle, hmethod]

namespace Outline

variable {o : Outline} {settings : Settings} {marker : MarkerType}

/-- A marker type is noted if it has targets and its advice keeps the rules. -/
private theorem admissions_enlist (howner : (o.module.type? marker.owner).isSome) :
    (o.enlist settings marker).admissions =
      o.admissions ++ if o.module.targets marker.name ≠ [] ∧
          marker.firstViolation? (o.module.targets marker.name) = none then
        [marker.admission settings.handleStorage o.module]
      else [] := by
  by_cases hrejected : (o.module.targets marker.name).isEmpty ∨
      (marker.firstViolation? (o.module.targets marker.name)).isSome
  · have hnot : ¬ (o.module.targets marker.name ≠ [] ∧
        marker.firstViolation? (o.module.targets marker.name) = none) := by
      rintro ⟨hne, hlawful⟩
      rcases hrejected with hempty | hviolation
      · exact hne (List.isEmpty_iff.1 hempty)
      · rw [hlawful] at hviolation
        cases hviolation
    rw [enlist_of_rejected hrejected, if_neg hnot, List.append_nil]
  have haccepted : o.module.targets marker.name ≠ [] ∧
      marker.firstViolation? (o.module.targets marker.name) = none := by
    simpa [not_or] using hrejected
  rw [if_pos haccepted]
  obtain ⟨t, ht⟩ := Option.isSome_iff_exists.1 howner
  cases hany : marker.advice.any (!·.isStatic) with
  | false => simp [enlist_of_static hrejected hany, MarkerType.admission, hany]
  | true => simp [enlist_of_instance hrejected hany ht, MarkerType.admission, hany, ht]

theorem admissions_visitType (o : Outline) (settings : Settings) (id : TypeId) :
    (o.visitType settings id).admissions =
      (if injectionWeaverName ∈ settings.components then o.weaveType settings id else o).admissions := by
  simp only [visitType]
  by_cases hsweep : orphanSweepName ∈ settings.components
  · rw [if_pos hsweep]
    rfl
  · rw [if_neg hsweep]

end Outline

namespace Weaving

open Step Workspace

variable {w w' : Workspace} {settings : Settings} {m : Module} {o : Outline} {visited : List TypeId} {id : TypeId}

/-- A marker type with targets is accepted if its advice keeps the rules. -/
private theorem accepted_iff {marker : MarkerType} {accepted : Bool} (h : w.module.Numbered)
    (htargets : w.module.targets marker.name ≠ []) (hy : Yields (inject marker) w accepted w') :
    accepted = true ↔ marker.firstViolation? (w.module.targets marker.name) = none := by
  rw [MarkerType.firstViolation?_eq_none_iff]
  cases outcome_inject h hy with
  | idle hnone => exact absurd hnone htargets
  | woven _ hlawful => exact iff_of_true rfl hlawful
  | rejected hin hadvice hbroken => exact iff_of_false (by simp) fun hlawful => hbroken (hlawful _ hin _ hadvice)

/-- The outline notes at a type what the weaver accepts there. -/
theorem admissions_weaveType (h : w.Follows settings m o visited) (hy : Yields (weaveType id) w () w') :
    ∃ a? : Option Admission, (o.weaveType settings id).admissions = o.admissions ++ a?.toList ∧
      ∀ a, a? = some a ↔ a.marker.owner = id ∧ ∃ w₁ w₂, Yields (scan id) w (some a.marker) w₁ ∧
        a = a.marker.admission settings.handleStorage w₁.module ∧ a.targets ≠ [] ∧
        Yields (inject a.marker) w₁ true w₂ := by
  obtain ⟨handles, wrap, hat, -⟩ := h.at_outline
  rcases yields_weaveType_iff.1 hy with hscan | ⟨marker, w₁, accepted, w₂, hscan, hinject, -⟩
  · obtain ⟨t, ht, hdeclared, -⟩ := at_scan hat hscan
    rw [Outline.weaveType_of_unmarked ht hdeclared]
    refine ⟨none, (List.append_nil _).symm, fun a => iff_of_false (by simp) ?_⟩
    rintro ⟨-, w₂, -, hscan', -⟩
    cases hscan.symm.trans hscan'
  · obtain ⟨t, ht, hdeclared, bodies, hholds⟩ := at_scan hat hscan
    rw [Outline.weaveType_of_marker ht hdeclared]
    let o₁ : Outline := o.scanType settings id t
    have hmodule : w₁.module = o₁.module.withBodies bodies := hholds.module_eq
    have howner : marker.owner = id := (t.owner_of_scan hdeclared).trans (Module.id_of_type? ht)
    have hself : o₁.module.type? id = some (t.scan settings.markers).rest := Outline.type?_scanType_self ht
    have hadmission : marker.admission settings.handleStorage w₁.module =
        marker.admission settings.handleStorage o₁.module := by rw [hmodule, MarkerType.admission_withBodies]
    have htargets : w₁.module.targets marker.name = o₁.module.targets marker.name := by
      rw [hmodule, Module.targets_withBodies]
    have hnumbered : w₁.module.Numbered := hholds.module_eq ▸ hholds.numbered.withBodies bodies
    refine ⟨if o₁.module.targets marker.name ≠ [] ∧ marker.firstViolation? (o₁.module.targets marker.name) = none then
      some (marker.admission settings.handleStorage o₁.module) else none, ?_, fun a => ?_⟩
    · have henlist : (o₁.enlist settings marker).admissions = _ :=
        Outline.admissions_enlist (by rw [howner, hself]; rfl)
      refine henlist.trans ?_
      split <;> rfl
    · rw [← htargets, ← hadmission]
      constructor
      · intro ha
        obtain ⟨⟨hne, hlawful⟩, ha⟩ := Option.ite_none_right_eq_some.1 ha
        obtain rfl : _ = a := Option.some.inj ha
        obtain rfl := (accepted_iff hnumbered hne hinject).2 hlawful
        exact ⟨howner, w₁, w₂, hscan, rfl, hne, hinject⟩
      · rintro ⟨-, w₁', w₂', hscan', ha, hne, hinject'⟩
        -- the type is read in one way only
        cases hscan.symm.trans hscan'
        have hne' : w₁.module.targets a.marker.name ≠ [] := by rw [ha] at hne; exact hne
        rw [if_pos ⟨hne', (accepted_iff hnumbered hne' hinject').1 rfl⟩, ← ha]

end Weaving

namespace Walk

open Step Workspace

variable {settings : Settings} {m : Module} {vs : List (Visitor Workspace)} {w w' : Workspace} {u : Unit}

/-- What has been noted, when the types behind the place `n` have been visited, is what the pass accepts there. -/
structure Admitted (settings : Settings) (m : Module) (n : Nat) : Prop where
  owners_nodup : ((m.outlineFrom settings n).admissions.map (·.marker.owner)).Nodup
  mem_iff : ∀ a, a ∈ (m.outlineFrom settings n).admissions ↔
    a.marker.owner ∈ (m.types.map (·.id)).drop n ∧ m.Admits settings a

private theorem admitted_start (settings : Settings) (m : Module) : Admitted settings m m.types.length where
  owners_nodup := by rw [m.outlineFrom_length]; exact List.nodup_nil
  mem_iff a := by
    rw [m.outlineFrom_length, ← List.length_map (·.id), List.drop_length]
    exact iff_of_false List.not_mem_nil fun h => List.not_mem_nil h.1

/-- The visit of a type notes what the pass accepts there. -/
private theorem admitted_visitType (hvs : Standard vs) (hnames : vs.map (·.name) = settings.components)
    (hvisitors : visitorsNamed settings.components = .ok vs) (hm : m.Numbered) {n : Nat} (hn : n < m.types.length)
    (h : w.Follows settings m (m.outlineFrom settings (n + 1)) ((m.types.map (·.id)).drop (n + 1)))
    (hnew : m.types[n].id ∉ (m.types.map (·.id)).drop (n + 1))
    (hbehind : Yields (countdown (fun k => visitTypeAt vs (n + 1 + k)) (m.types.length - (n + 1)))
      { pass := { settings }, module := m } () w) (hadmitted : Admitted settings m (n + 1))
    (hy : Yields (visitType Workspace.module vs m.types[n].id) w () w') : Admitted settings m n := by
  have hlt : n < (m.types.map (·.id)).length := by rwa [List.length_map]
  have hdrop : (m.types.map (·.id)).drop n = m.types[n].id :: (m.types.map (·.id)).drop (n + 1) := by
    rw [List.drop_eq_getElem_cons hlt, List.getElem_map]
  obtain ⟨a?, hadmissions, ha?⟩ : ∃ a? : Option Admission,
      (m.outlineFrom settings n).admissions = (m.outlineFrom settings (n + 1)).admissions ++ a?.toList ∧
        ∀ a, a? = some a ↔ a.marker.owner = m.types[n].id ∧ m.Admits settings a := by
    rw [m.outlineFrom_of_lt settings hn, Outline.admissions_visitType]
    by_cases hweaver : injectionWeaverName ∈ settings.components
    · obtain ⟨w₁, hweave⟩ := exists_yields_weaveType hvs (hnames ▸ hweaver) hy
      obtain ⟨a?, hadmissions, ha?⟩ := Weaving.admissions_weaveType h hweave
      rw [if_pos hweaver]
      refine ⟨a?, hadmissions, fun a => (ha? a).trans (and_congr_right fun howner => ?_)⟩
      simp only [Module.Admits, howner, reads_iff hvs hvisitors hm hn hbehind, hweaver, true_and]
    · rw [if_neg hweaver]
      refine ⟨none, (List.append_nil _).symm, fun a => iff_of_false (by simp) ?_⟩
      rintro ⟨-, _, _, hreads, -⟩
      exact hweaver hreads.1
  have hnone : ∀ a ∈ (m.outlineFrom settings (n + 1)).admissions, a.marker.owner ≠ m.types[n].id :=
    fun a ha howner => hnew (howner ▸ ((hadmitted.mem_iff a).1 ha).1)
  refine ⟨?_, fun a => ?_⟩
  · rw [hadmissions, List.map_append, List.nodup_append]
    refine ⟨hadmitted.owners_nodup, ?_, ?_⟩
    · cases a? <;> simp
    · simp only [List.mem_map, Option.mem_toList]
      rintro _ ⟨a, ha, rfl⟩ _ ⟨b, hb, rfl⟩ howner
      exact hnone a ha (howner.trans ((ha? b).1 hb).1)
  · rw [hadmissions, List.mem_append, Option.mem_toList, hadmitted.mem_iff, ha?, hdrop, List.mem_cons,
      or_and_right, or_comm]

end Walk

namespace Module

variable {m m' : Module} {settings : Settings} {report : PassReport}

/-- A pass that ends well is a countdown over the places of types. -/
theorem exists_countdown_of_weave (h : m.weave settings = (.ok report, m')) :
    ∃ vs w, visitorsNamed settings.components = .ok vs ∧ w.module = m' ∧ w.report = report ∧
      Step.Yields (countdown (Walk.visitTypeAt vs) m.types.length) { pass := { settings }, module := m } () w := by
  obtain ⟨vs, w, hvisitors, hy, hreport, hmodule⟩ := weave_eq_ok_iff.1 h
  exact ⟨vs, w, hvisitors, hmodule, hreport, (Walk.yields_walk (standard_of_visitorsNamed hvisitors).1).1 hy⟩

/-- The outline of a pass that ends well notes what the pass accepts, and each marker type once. -/
theorem admissions_of_weave (hm : m.Numbered) (h : m.weave settings = (.ok report, m')) :
    ((m.outline settings).admissions.map (·.marker.owner)).Nodup ∧
      ∀ a, a ∈ (m.outline settings).admissions ↔ m.Admits settings a := by
  obtain ⟨vs, w, hvisitors, -, -, hy⟩ := exists_countdown_of_weave h
  obtain ⟨hvs, hnames⟩ := standard_of_visitorsNamed hvisitors
  have hadmitted : Walk.Admitted settings m 0 := Walk.visit_induction (P := fun n _ => Walk.Admitted settings m n)
    hvs hnames hm (Walk.admitted_start settings m)
    (fun n hn w w' => Walk.admitted_visitType hvs hnames hvisitors hm hn) hy
  refine ⟨hadmitted.owners_nodup, fun a => (hadmitted.mem_iff a).trans (and_iff_right_of_imp ?_)⟩
  rintro ⟨_, _, ⟨-, _, _, _, -, hplace, -⟩, -⟩
  exact List.mem_of_getElem? hplace

/-- A pass that ends well has accepted the marker types that its outline notes. -/
theorem accepts_of_mem_outline (hm : m.Numbered) (h : m.weave settings = (.ok report, m')) {a : Admission}
    (ha : a ∈ (m.outline settings).admissions) : m.Accepts settings a.marker := by
  obtain ⟨w, w', hreads, hadmission, hne, hinject⟩ := ((admissions_of_weave hm h).2 a).1 ha
  refine ⟨w, w', hreads, ?_, hinject⟩
  rw [hadmission] at hne
  exact hne

end Module

end AdviceWeaving
