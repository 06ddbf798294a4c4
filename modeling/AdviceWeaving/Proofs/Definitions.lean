import AdviceWeaving.Proofs.Isolation
import AdviceWeaving.Proofs.Selection

/-!
# The definitions of a pass

A pass takes down the marker types that it reads, in the order in which it comes to them.  It comes to the types from
the last to the first, and edits the module as it goes.  But before it comes to a type it has changed nothing there
except bodies, which the markers do not depend on.  So it takes down the marker types that stand in the module as it was
at first, the last one first, whatever becomes of them (`Module.markerTypes_of_weave`).
-/

namespace AdviceWeaving

open Step Workspace

/-! ### Steps that take nothing down -/

/-- The workspace beside itself, if the given marker types have been taken down in it. -/
def Workspace.Noted (definitions : List MarkerType) (w v : Workspace) : Prop :=
  v = w ∧ w.pass.definitions = definitions

namespace Weaving

variable {definitions : List MarkerType} {w w' : Workspace}

private theorem respects_updateModule_noted (f : Module → Module) : Respects (Noted definitions) (updateModule f) :=
  Keeps.respects (keeps_modify fun _ h => h)

private theorem respects_updatePass_noted {f : Pass → Pass} (hf : ∀ p, (f p).definitions = p.definitions) :
    Respects (Noted definitions) (updatePass f) :=
  Keeps.respects (keeps_modify fun w h => (hf w.pass).trans h)

private theorem congruence_noted : Congruence (Noted definitions) [] where
  markers_eq := by rintro _ w ⟨rfl, -⟩; rfl
  storage_eq := by rintro _ w ⟨rfl, -⟩; rfl
  handle?_eq := by rintro _ w ⟨rfl, -⟩ id; rfl
  slot?_eq := by rintro _ w ⟨rfl, -⟩ id; rfl
  cursor_eq := by rintro _ w ⟨rfl, -⟩ id; rfl
  body?_eq := by rintro _ w ⟨rfl, -⟩ id; rfl
  type?_eq := by rintro _ w ⟨rfl, -⟩ id -; rfl
  report _ := respects_updatePass_noted fun _ => rfl
  tally _ := respects_updatePass_noted fun _ => rfl
  addHandle _ _ := respects_updatePass_noted fun _ => rfl
  addSlot _ _ := respects_updatePass_noted fun _ => rfl
  advance _ _ := respects_updatePass_noted fun _ => rfl
  setBody _ _ := respects_updateModule_noted _
  updateType _ _ _ _ := respects_updateModule_noted _
  addMethod id _ x := by
    refine respects_get_bind ?_
    rintro _ w ⟨rfl, hw⟩
    exact ((respects_expect _ _).bind fun _ => respects_updateModule_noted _) w w ⟨rfl, hw⟩

/-- Injection takes nothing down. -/
private theorem definitions_inject {marker : MarkerType} {accepted : Bool} (hy : Yields (inject marker) w accepted w') :
    w'.pass.definitions = w.pass.definitions := by
  have hrespects : Respects (Noted w.pass.definitions) (inject marker) := by
    refine congruence_noted.respects_inject List.not_mem_nil (respects_get_bind ?_)
    rintro _ v ⟨rfl, hv⟩
    exact ((congruence_noted.report _).bind fun _ => respects_pure _) v v ⟨rfl, hv⟩
  obtain ⟨_, -, -, hkept⟩ := (hrespects w w ⟨rfl, rfl⟩).yields hy
  exact hkept

private theorem respects_sweepMethod_noted (id : MethodId) : Respects (Noted definitions) (sweepMethod id) := by
  refine respects_get_bind ?_
  rintro _ w ⟨rfl, hw⟩
  refine ((respects_expect _ (w.module.method? id)).bind fun found => ?_) w w ⟨rfl, hw⟩
  refine respects_ite ?_ (respects_pure ())
  exact (respects_updateModule_noted _).bind fun _ => (congruence_noted.tally _).bind fun _ =>
    congruence_noted.report _

/-! ### Types -/

variable {settings : Settings} {m : Module} {o : Outline} {visited : List TypeId} {id : TypeId} {u : Unit}

/-- The weaver takes down what a type declares, which is what it declared at first. -/
private theorem definitions_weaveType (h : w.Follows settings m o visited) (hid : id ∉ visited)
    (hy : Yields (weaveType id) w u w') :
    ∃ t marker?, m.type? id = some t ∧ (t.scan settings.markers).declared = .ok marker? ∧
      w'.pass.definitions = w.pass.definitions ++ marker?.toList := by
  obtain ⟨handles, wrap, hat, -⟩ := h.at_outline
  have hread {marker? : Option MarkerType} {w₁ : Workspace} (hscan : Yields (scan id) w marker? w₁) :
      (∃ t, m.type? id = some t ∧ (t.scan settings.markers).declared = .ok marker?) ∧
        w₁.pass.definitions = w.pass.definitions := by
    obtain ⟨t, ht, hdeclared, -⟩ := at_scan hat hscan
    obtain ⟨-, -, -, rfl⟩ := yields_scan_iff.1 hscan
    exact ⟨⟨t, (h.sound.untouched id hid).symm.trans ht, hdeclared⟩, rfl⟩
  rcases yields_weaveType_iff.1 hy with hscan | ⟨marker, w₁, accepted, w₂, hscan, hinject, rfl⟩
  · obtain ⟨⟨t, ht, hdeclared⟩, hdefinitions⟩ := hread hscan
    exact ⟨t, none, ht, hdeclared, by simp [hdefinitions]⟩
  · obtain ⟨⟨t, ht, hdeclared⟩, hdefinitions⟩ := hread hscan
    refine ⟨t, some marker, ht, hdeclared, ?_⟩
    simp [Workspace.defining, definitions_inject hinject, hdefinitions]

end Weaving

private theorem Module.markerTypes_cons (names : MarkerNames) (m : Module) (t : TypeDecl) (ts : List TypeDecl) :
    ({ m with types := t :: ts } : Module).markerTypes names = (do
      let marker? ← (t.scan names).declared
      let rest ← ({ m with types := ts } : Module).markerTypes names
      pure (marker?.toList ++ rest)) := by
  simp only [markerTypes, List.mapM_cons]
  cases (t.scan names).declared with
  | error failure => rfl
  | ok marker? =>
    cases ts.mapM fun t => (t.scan names).declared with
    | error failure => rfl
    | ok rest => cases marker? <;> rfl

namespace Walk

variable {settings : Settings} {m : Module} {vs : List (Visitor Workspace)} {w w' : Workspace} {u : Unit}

/-- A visit of a type takes down what the type declared at first, and nothing at its members. -/
private theorem definitions_visitType (hvs : Standard vs) (hnames : vs.map (·.name) = settings.components)
    (weaves : injectionWeaverName ∈ settings.components) {o : Outline} {visited : List TypeId} {id : TypeId}
    (h : w.Follows settings m o visited) (hid : id ∉ visited)
    (hy : Yields (visitType Workspace.module vs id) w u w') :
    ∃ t marker?, m.type? id = some t ∧ (t.scan settings.markers).declared = .ok marker? ∧
      w'.pass.definitions = w.pass.definitions ++ marker?.toList := by
  have hrun := run_onType hvs h.numbered id
  rw [hnames, if_pos weaves] at hrun
  obtain ⟨_, w₁, htype, -⟩ := yields_bind.1 hy
  replace htype : Yields (Weaving.weaveType id) w _ w₁ := hrun.symm.trans htype
  obtain ⟨t, marker?, ht, hdeclared, hdefinitions⟩ := Weaving.definitions_weaveType h hid htype
  refine ⟨t, marker?, ht, hdeclared, ?_⟩
  rw [← hdefinitions]
  have hlockstep : Lockstep (Noted w₁.pass.definitions) (visitType Workspace.module vs id)
      (visitType Workspace.module vs id) w w := by
    refine lockstep_visitType (by rintro _ v ⟨rfl, -⟩; exact .refl _)
      (respectsMembers_of_sweepMethod hvs Weaving.respects_sweepMethod_noted) ⟨rfl, rfl, ?_⟩
    rw [hrun, htype]
  obtain ⟨_, -, -, hkept⟩ := hlockstep.yields hy
  exact hkept

/-- The types behind the place `n` have been visited, and what they declare has been taken down. -/
private theorem definitions_countdown (hvs : Standard vs) (hnames : vs.map (·.name) = settings.components)
    (weaves : injectionWeaverName ∈ settings.components) (hm : m.Numbered) {n : Nat} (hn : n ≤ m.types.length)
    (h : w.Follows settings m (((m.types.map (·.id)).drop n).foldr
      (fun id o => o.visitType settings id) { module := m }) ((m.types.map (·.id)).drop n))
    (hbehind : ({ m with types := m.types.drop n } : Module).markerTypes settings.markers =
      .ok w.pass.definitions.reverse)
    (hy : Yields (countdown (visitTypeAt vs) n) w u w') :
    m.markerTypes settings.markers = .ok w'.pass.definitions.reverse := by
  refine (countdown_induction (P := fun n w => ({ m with types := m.types.drop n } : Module).markerTypes
    settings.markers = .ok w.pass.definitions.reverse) hvs hnames hm ?_ hn h hbehind hy).2
  intro n hn w w' h hnew hbehind hvisit
  obtain ⟨t, marker?, ht, hdeclared, hdefinitions⟩ := definitions_visitType hvs hnames weaves h hnew hvisit
  have htn : m.types[n] = t :=
    Option.some.inj ((hm.type?_eq_some_iff.2 ⟨List.getElem_mem hn, rfl⟩).symm.trans ht)
  rw [List.drop_eq_getElem_cons hn, htn, Module.markerTypes_cons, hdeclared, hbehind, hdefinitions]
  -- a list of at most one marker type is its own reverse
  cases marker? <;> simp [pure, Except.pure, bind, Except.bind]

end Walk

namespace Module

/-- A pass that ends well has taken down the marker types of the module as it was at first, the last one first. -/
theorem markerTypes_of_weave {encoding : Encoding} {source : String} {m m' : Module} {settings : Settings}
    {report : PassReport} (decoded : encoding.decode source = .ok m)
    (weaves : injectionWeaverName ∈ settings.components) (woven : m.weave settings = (.ok report, m')) :
    m.markerTypes settings.markers = .ok report.definitions.reverse := by
  have hm := numbered_of_decode decoded
  obtain ⟨vs, w, hvisitors, hy, rfl, -⟩ := weave_eq_ok_iff.1 woven
  obtain ⟨hvs, hnames⟩ := standard_of_visitorsNamed hvisitors
  refine Walk.definitions_countdown hvs hnames weaves hm (Nat.le_refl _) ?_ ?_ ((Walk.yields_walk hvs).1 hy)
  · rw [← List.length_map (·.id), List.drop_length]
    exact follows_start hm settings
  · rw [List.drop_length]
    rfl

/-- Of the two marker types of the sample the pass comes to the second first, and rejects it. -/
theorem markerTypes_of_weave_sample :
    ∃ report m', Sample.rejecting.weave Sample.settings = (.ok report, m') ∧
      report.definitions.map (·.name) = ["R", "L"] ∧ report.tally.rejected = 1 ∧
      Sample.rejecting.markerTypes Sample.settings.markers = .ok report.definitions.reverse := by
  have hweave : ((Sample.rejecting.weave Sample.settings).1.toOption.map fun report =>
      (report.definitions.map (·.name), report.tally.rejected)) = some (["R", "L"], 1) := by
    decide +kernel
  rcases hw : Sample.rejecting.weave Sample.settings with ⟨failure | report, m'⟩
  · rw [hw] at hweave
    cases hweave
  · rw [hw] at hweave
    obtain ⟨hnames, hrejected⟩ := Prod.mk.inj (Option.some.inj hweave)
    exact ⟨report, m', rfl, hnames, hrejected,
      markerTypes_of_weave Sample.decode_rejectingSource (by decide) hw⟩

end Module

end AdviceWeaving
