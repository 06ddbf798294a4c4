import AdviceWeaving.Proofs.Congruence
import AdviceWeaving.Proofs.Inert
import AdviceWeaving.Proofs.Reached

/-!
# Which visitors the settings name

Only the set of the names in the settings matters, not their order and not how often one is repeated
(`Module.weave_selection`).  There are three reasons.  No step reads the names (`Weaving.congruence_renamed`).  The two
visitors have no station in common, so that each can be looked at alone.  And a visitor that comes to the same station
again finds its work done: a type has no markers left after the weaver has read them, and a method has none after the
sweep (`Walk.run_onType`, `Walk.run_onMethod`).
-/

namespace AdviceWeaving

/-! ### Names are not read -/

/-- The workspace with other names of visitors in the settings. -/
def Workspace.naming (names : List String) (w : Workspace) : Workspace :=
  { w with pass := { w.pass with settings := { w.pass.settings with components := names } } }

/-- The second workspace is the first, with the given names in place of those in the settings. -/
structure Workspace.Renamed (settings : Settings) (names : List String) (w v : Workspace) : Prop where
  settings_eq : w.pass.settings = settings
  eq_naming : v = w.naming names

namespace Weaving

open Step Workspace

variable {settings : Settings} {names : List String} {w w' : Workspace} {id : TypeId} {u : Unit}

private theorem respects_updateModule (f : Module → Module) :
    Respects (Renamed settings names) (updateModule f) := by
  rintro w _ ⟨rfl, rfl⟩
  exact ⟨rfl, rfl, rfl⟩

private theorem respects_updatePass {f : Pass → Pass} (hsettings : ∀ p, (f p).settings = p.settings)
    (hf : ∀ w : Workspace, f (w.naming names).pass =
      (({ w with pass := f w.pass } : Workspace).naming names).pass) :
    Respects (Renamed settings names) (updatePass f) := by
  rintro w _ ⟨rfl, rfl⟩
  exact ⟨rfl, hsettings _, congrArg (Workspace.mk · w.module) (hf w)⟩

theorem congruence_renamed : Congruence (Renamed settings names) [] where
  markers_eq := by rintro w _ ⟨-, rfl⟩; rfl
  storage_eq := by rintro w _ ⟨-, rfl⟩; rfl
  handle?_eq := by rintro w _ ⟨-, rfl⟩ id; rfl
  slot?_eq := by rintro w _ ⟨-, rfl⟩ id; rfl
  cursor_eq := by rintro w _ ⟨-, rfl⟩ id; rfl
  body?_eq := by rintro w _ ⟨-, rfl⟩ id; rfl
  type?_eq := by rintro w _ ⟨-, rfl⟩ id -; rfl
  report _ := respects_updatePass (fun _ => rfl) fun _ => rfl
  tally _ := respects_updatePass (fun _ => rfl) fun _ => rfl
  addHandle _ _ := respects_updatePass (fun _ => rfl) fun _ => rfl
  addSlot _ _ := respects_updatePass (fun _ => rfl) fun _ => rfl
  advance _ _ := respects_updatePass (fun _ => rfl) fun _ => rfl
  setBody _ _ := respects_updateModule _
  updateType _ _ _ _ := respects_updateModule _
  addMethod id _ x := by
    refine respects_get_bind fun w v h => ?_
    have hmodule : v.module = w.module := by rw [h.eq_naming]; rfl
    rw [hmodule]
    exact ((respects_expect _ _).bind fun _ => respects_updateModule _) w v h

private theorem respects_inject_renamed (m : MarkerType) : Respects (Renamed settings names) (inject m) := by
  refine congruence_renamed.respects_inject List.not_mem_nil (respects_get_bind fun w v h => ?_)
  have hmodule : v.module = w.module := by rw [h.eq_naming]; rfl
  rw [hmodule]
  exact ((congruence_renamed.report _).bind fun _ => respects_pure _) w v h

private theorem respects_weaveType_renamed (id : TypeId) : Respects (Renamed settings names) (weaveType id) := by
  refine (congruence_renamed.respects_scan List.not_mem_nil).bind fun marker? => ?_
  cases marker? with
  | none => exact respects_pure ()
  | some m =>
    refine (respects_inject_renamed m).bind fun _ => ?_
    exact respects_updatePass (fun _ => rfl) fun _ => rfl

private theorem respects_sweepMethod_renamed (id : MethodId) : Respects (Renamed settings names) (sweepMethod id) := by
  refine respects_get_bind fun w v h => ?_
  obtain ⟨hsettings, rfl⟩ := h
  refine ((respects_expect _ (w.module.method? id)).bind fun found => ?_) w _ ⟨hsettings, rfl⟩
  refine respects_ite ?_ (respects_pure ())
  exact (respects_updateModule _).bind fun _ => (congruence_renamed.tally _).bind fun _ =>
    congruence_renamed.report _

/-! ### What a visit leaves to do -/

private theorem numbered_weaveType (h : w.module.Numbered) (id : TypeId) :
    ((weaveType id).run w).2.module.Numbered := by
  rw [weaveType, run_bind]
  have hscan := numbered_scan h id
  rcases hrun : (scan id).run w with ⟨failure | _ | m, w₁⟩ <;> rw [hrun] at hscan
  · exact hscan
  · exact hscan
  · have hinject := numbered_inject (m := m) hscan
    simp only [run_bind]
    rcases hrun' : (inject m).run w₁ with ⟨failure | accepted, w₂⟩ <;> rw [hrun'] at hinject
    · exact hinject
    · exact hinject

private theorem attributes_inject (h : w.module.Numbered) {m : MarkerType} {accepted : Bool}
    (hy : Yields (inject m) w accepted w') (id : TypeId) :
    (w'.module.type? id).map (·.attributes) = (w.module.type? id).map (·.attributes) := by
  cases outcome_inject h hy with
  | idle _ huntouched => rw [huntouched.module_eq]
  | rejected _ _ _ huntouched => rw [huntouched.module_eq]
  | woven _ _ hwoven =>
    obtain ⟨_, w₁, hprepared, hinjected⟩ := hwoven
    rw [← (hprepared.equipped h).attributes_eq id, ← Module.attributes_withBodies fun _ => default,
      hinjected.members, Module.attributes_withBodies]

/-- The weaver reads the markers of a type once. -/
private theorem spent_of_weaveType (h : w.module.Numbered) (hy : Yields (weaveType id) w u w') :
    ∃ t, w'.module.type? id = some t ∧ hasAttribute t.attributes w'.pass.settings.markers.injection = false := by
  have hsettings : w'.pass.settings = w.pass.settings := by
    have hrespects : Respects (Workspace.Renamed w.pass.settings []) (weaveType id) := respects_weaveType_renamed id
    obtain ⟨v', -, hsettings, -⟩ := (hrespects w _ ⟨rfl, rfl⟩).yields hy
    exact hsettings
  rw [hsettings]
  rcases yields_weaveType_iff.1 hy with hscan | ⟨m, w₁, accepted, w₂, hscan, hinject, rfl⟩
  · obtain ⟨t, ht, -, rfl⟩ := yields_scan_iff.1 hscan
    exact ⟨_, type?_scanned_self ht, t.hasAttribute_scan w.pass.settings.markers⟩
  · obtain ⟨t, ht, -, rfl⟩ := yields_scan_iff.1 hscan
    have hattributes := attributes_inject (numbered_scanned h ht) hinject id
    rw [type?_scanned_self ht, Option.map_some, Option.map_eq_some_iff] at hattributes
    obtain ⟨t', ht', hattributes⟩ := hattributes
    exact ⟨t', ht', hattributes ▸ t.hasAttribute_scan w.pass.settings.markers⟩

private theorem method?_updateMethod_swept {m : Module} (h : m.Numbered) (names : MarkerNames) {id : MethodId}
    {t : TypeDecl} {x : Method} (hx : m.method? id = some (t, x)) :
    ∃ t', (m.updateMethod id (swept names)).method? id = some (t', swept names x) := by
  obtain ⟨hmem, hid⟩ := h.method?_eq_some_iff.1 hx
  obtain ⟨ht, hmethod⟩ := Module.mem_methods.1 hmem
  have hnumbered := numbered_updateMethod_swept h names id
  rw [h.updateMethod_eq] at hnumbered ⊢
  refine ⟨_, hnumbered.method?_eq_some_iff.2 ⟨Module.mem_methods.2 ⟨List.mem_map_of_mem ht, ?_⟩, hid⟩⟩
  exact List.mem_map.2 ⟨x, hmethod, if_pos hid⟩

/-- The sweep leaves no markers in a method. -/
private theorem countMarkers_of_sweepMethod (h : w.module.Numbered) {id : MethodId}
    (hy : Yields (sweepMethod id) w u w') :
    ∃ t x, w'.module.method? id = some (t, x) ∧ x.countMarkers w'.pass.settings.markers = 0 := by
  obtain ⟨t, x, hx, ⟨hcount, rfl⟩ | ⟨-, rfl⟩⟩ := yields_sweepMethod_iff.1 hy
  · exact ⟨t, x, hx, hcount⟩
  · obtain ⟨t', hx'⟩ := method?_updateMethod_swept h w.pass.settings.markers hx
    exact ⟨t', _, hx', countMarkers_swept _ x⟩

end Weaving

/-! ### Stations -/

namespace Walk

open Step Workspace Weaving

variable {settings : Settings} {names : List String} {vs vs' : List (Visitor Workspace)} {w v : Workspace}

private theorem run_inTurn_cons {isPresent : Module → Bool} {visit : Visitor Workspace → Weaving Unit}
    {v : Visitor Workspace} (h : isPresent w.module) :
    (inTurn Workspace.module isPresent visit (v :: vs)).run w =
      (visit v >>= fun _ => inTurn Workspace.module isPresent visit vs).run w := by
  show (if isPresent w.module then visit v >>= fun _ => inTurn Workspace.module isPresent visit vs
    else pure ()).run w = _
  rw [if_pos h]

private theorem run_inTurn_of_absent {isPresent : Module → Bool} {visit : Visitor Workspace → Weaving Unit}
    (h : isPresent w.module = false) :
    (inTurn Workspace.module isPresent visit vs).run w = (pure () : Weaving Unit).run w := by
  cases vs with
  | nil => rfl
  | cons v vs =>
    show (if isPresent w.module then visit v >>= fun _ => inTurn Workspace.module isPresent visit vs
      else pure ()).run w = _
    rw [if_neg (by rw [h]; exact Bool.false_ne_true)]

/-- At a type the visitors do what one weaver does, if there is a weaver among them. -/
theorem run_onType (hvs : Standard vs) (h : w.module.Numbered) (id : TypeId) :
    (forM vs (·.onType id) : Weaving Unit).run w =
      (if injectionWeaverName ∈ vs.map (·.name) then weaveType id else pure ()).run w := by
  induction vs with
  | nil => rfl
  | cons v vs ih =>
    rw [List.forM_cons, run_bind]
    rcases hvs v List.mem_cons_self with rfl | rfl
    · have hmem : injectionWeaverName ∈ (injectionWeaver :: vs).map (·.name) := List.mem_cons_self
      rw [if_pos hmem, show injectionWeaver.onType id = weaveType id from rfl]
      rcases hrun : (weaveType id).run w with ⟨failure | u, w'⟩
      · rfl
      · -- the other visitors find a type without markers
        have hnumbered := numbered_weaveType h id
        rw [hrun] at hnumbered
        obtain ⟨t, ht, hspent⟩ := spent_of_weaveType h hrun
        refine yields_forM_self fun v hv => ?_
        rcases hvs v (List.mem_cons_of_mem _ hv) with rfl | rfl
        · exact yields_weaveType_self hnumbered ht hspent
        · exact yields_pure.2 ⟨rfl, rfl⟩
    · have hmem : injectionWeaverName ∈ (orphanSweep :: vs).map (·.name) ↔
          injectionWeaverName ∈ vs.map (·.name) := by
        simp [orphanSweep, orphanSweepName, injectionWeaverName]
      simp only [hmem]
      exact ih hvs.tail

/-- At a method that is there the visitors do what one sweep does, if there is a sweep among them. -/
theorem run_onMethod (hvs : Standard vs) (h : w.module.Numbered) (id : MethodId) :
    (inTurn Workspace.module (fun m => (m.method? id).isSome) (·.onMethod id) vs).run w =
      (if (w.module.method? id).isSome ∧ orphanSweepName ∈ vs.map (·.name) then sweepMethod id
        else pure ()).run w := by
  by_cases hx : (w.module.method? id).isSome
  · simp only [hx, true_and]
    induction vs with
    | nil => rfl
    | cons v vs ih =>
      rw [run_inTurn_cons hx, run_bind]
      rcases hvs v List.mem_cons_self with rfl | rfl
      · have hmem : orphanSweepName ∈ (injectionWeaver :: vs).map (·.name) ↔
            orphanSweepName ∈ vs.map (·.name) := by
          simp [injectionWeaver, orphanSweepName, injectionWeaverName]
        simp only [hmem]
        exact ih hvs.tail
      · have hmem : orphanSweepName ∈ (orphanSweep :: vs).map (·.name) := List.mem_cons_self
        rw [if_pos hmem, show orphanSweep.onMethod id = sweepMethod id from rfl]
        rcases hrun : (sweepMethod id).run w with ⟨failure | u, w'⟩
        · rfl
        · -- the other visitors find a method without markers
          obtain ⟨t, x, hx', hcount⟩ := countMarkers_of_sweepMethod h hrun
          refine yields_inTurn_self fun v hv => ?_
          rcases hvs v (List.mem_cons_of_mem _ hv) with rfl | rfl
          · exact yields_pure.2 ⟨rfl, rfl⟩
          · exact yields_sweepMethod_self hx' hcount
  · rw [if_neg fun hand => hx hand.1]
    exact run_inTurn_of_absent (by simpa using hx)

/-! ### Walks -/

/-- A workspace in the middle of a pass, and the same with the given names in the settings. -/
private def Amid (settings : Settings) (names : List String) (w v : Workspace) : Prop :=
  w.Renamed settings names v ∧ w.module.Numbered

private theorem respects_amid {x : Weaving Unit} (hx : Respects (Renamed settings names) x)
    (hnumbered : ∀ w : Workspace, w.module.Numbered → (x.run w).2.module.Numbered) :
    Respects (Amid settings names) x := by
  intro w v hwv
  obtain ⟨hresult, hstate⟩ := hx w v hwv.1
  exact ⟨hresult, hstate, hnumbered w hwv.2⟩

private theorem module_eq (h : Amid settings names w v) : v.module = w.module := by
  rw [h.1.eq_naming]
  rfl

/-- Two lists of visitors with the same names. -/
private theorem matches_onType (hvs : Standard vs) (hvs' : Standard vs')
    (hsame : ∀ name, name ∈ vs'.map (·.name) ↔ name ∈ vs.map (·.name)) (id : TypeId) :
    Matches (Amid settings names) (forM vs (·.onType id)) (forM vs' (·.onType id)) := by
  intro w v hwv
  have hnumbered : v.module.Numbered := module_eq hwv ▸ hwv.2
  rw [Lockstep, run_onType hvs hwv.2, run_onType hvs' hnumbered]
  simp only [hsame]
  split
  · exact respects_amid (respects_weaveType_renamed id) (fun w h => numbered_weaveType h id) w v hwv
  · exact respects_pure () w v hwv

private theorem matches_onMethod (hvs : Standard vs) (hvs' : Standard vs')
    (hsame : ∀ name, name ∈ vs'.map (·.name) ↔ name ∈ vs.map (·.name)) (id : MethodId) :
    Matches (Amid settings names)
      (inTurn Workspace.module (fun m => (m.method? id).isSome) (·.onMethod id) vs)
      (inTurn Workspace.module (fun m => (m.method? id).isSome) (·.onMethod id) vs') := by
  intro w v hwv
  have hnumbered : v.module.Numbered := module_eq hwv ▸ hwv.2
  rw [Lockstep, run_onMethod hvs hwv.2, run_onMethod hvs' hnumbered]
  simp only [hsame, module_eq hwv]
  split
  · exact respects_amid (respects_sweepMethod_renamed id) (fun w h => numbered_sweepMethod h id) w v hwv
  · exact respects_pure () w v hwv

/-- Visitors with these names do nothing at the other stations. -/
private theorem matches_of_yields_self {x y : Weaving Unit} (hx : ∀ w, Yields x w () w)
    (hy : ∀ w, Yields y w () w) : Matches (Amid settings names) x y := by
  intro w v hwv
  rw [Lockstep, show x.run w = (.ok (), w) from hx w, show y.run v = (.ok (), v) from hy v]
  exact ⟨rfl, hwv⟩

private theorem matches_forM_pure (hvs : Standard vs) (hvs' : Standard vs')
    {f : Visitor Workspace → Weaving Unit}
    (hf : ∀ v, v = injectionWeaver ∨ v = orphanSweep → f v = pure ()) :
    Matches (Amid settings names) (forM vs f) (forM vs' f) :=
  matches_of_yields_self
    (fun _ => yields_forM_self fun v hv => hf v (hvs v hv) ▸ yields_pure.2 ⟨rfl, rfl⟩)
    (fun _ => yields_forM_self fun v hv => hf v (hvs' v hv) ▸ yields_pure.2 ⟨rfl, rfl⟩)

private theorem matches_places (hvs : Standard vs) (hvs' : Standard vs') {α : Type}
    (members : TypeDecl → List α) {visit : Visitor Workspace → Nat → Weaving Unit}
    (hvisit : ∀ v, v = injectionWeaver ∨ v = orphanSweep → ∀ n, visit v n = pure ()) (id : TypeId) :
    Matches (Amid settings names) (visitPlaces Workspace.module vs members visit id)
      (visitPlaces Workspace.module vs' members visit id) := by
  have hturn {vs : List (Visitor Workspace)} (hvs : Standard vs) (n : Nat) (w : Workspace) :
      Yields (inTurn Workspace.module (fun m => n < (membersOf members id m).length) (visit · n) vs)
        w () w :=
    yields_inTurn_self fun v hv => hvisit v (hvs v hv) n ▸ yields_pure.2 ⟨rfl, rfl⟩
  refine matches_visitPlaces (fun w v hwv => by rw [module_eq hwv]) fun n => ?_
  exact matches_of_yields_self (hturn hvs n) (hturn hvs' n)

variable (settings names) in
/-- Walks with the same visitors, in any order and any number, change a module alike. -/
private theorem matches_walk (hvs : Standard vs) (hvs' : Standard vs')
    (hsame : ∀ name, name ∈ vs'.map (·.name) ↔ name ∈ vs.map (·.name)) :
    Matches (fun w v => w.Renamed settings names v ∧ w.module.Numbered) (walk Workspace.module vs)
      (walk Workspace.module vs') := by
  have hview : ∀ w v, Amid settings names w v → w.module.Alike v.module := fun w v hwv =>
    module_eq hwv ▸ .refl w.module
  have htype (id : TypeId) : Matches (Amid settings names) (visitType Workspace.module vs id)
      (visitType Workspace.module vs' id) := by
    refine (matches_onType hvs hvs' hsame id).bind fun _ => ?_
    refine (matches_visitMethods hview (matches_onMethod hvs hvs' hsame) id).bind fun _ => ?_
    refine (matches_places hvs hvs' _ ?_ id).bind fun _ => matches_places hvs hvs' _ ?_ id
    · rintro v (rfl | rfl) n <;> rfl
    · rintro v (rfl | rfl) n <;> rfl
  refine (matches_forM_pure hvs hvs' ?_).bind fun _ => (matches_forM_pure hvs hvs' ?_).bind fun _ =>
    (matches_visitTypes hview htype).bind fun _ => matches_forM_pure hvs hvs' ?_
  all_goals rintro v (rfl | rfl) <;> rfl

end Walk

/-! ### Passes -/

private theorem exists_visitorsNamed {names : List String}
    (h : ∀ name ∈ names, name = injectionWeaverName ∨ name = orphanSweepName) :
    ∃ vs, visitorsNamed names = .ok vs := by
  induction names with
  | nil => exact ⟨[], rfl⟩
  | cons name names ih =>
    obtain ⟨vs, hvs⟩ := ih fun name' hname' => h name' (List.mem_cons_of_mem name hname')
    obtain ⟨v, hv⟩ : ∃ v, visitorNamed name = .ok v := by
      rcases h name List.mem_cons_self with rfl | rfl
      · exact ⟨injectionWeaver, rfl⟩
      · exact ⟨orphanSweep, rfl⟩
    refine ⟨v :: vs, ?_⟩
    rw [visitorsNamed] at hvs ⊢
    rw [List.mapM_cons, hv, hvs]
    rfl

namespace Module

open Step

variable {m : Module} {names names' : List String}

/-- Only the set of the names of visitors matters: for two lists of known names with the same members, a pass over a
module that has been decoded fails with the same failure or gives the same report, and leaves the same module. -/
theorem weave_selection {encoding : Encoding} {source : String} (decoded : encoding.decode source = .ok m)
    (settings : Settings) (known : ∀ name ∈ names, name = injectionWeaverName ∨ name = orphanSweepName)
    (same : ∀ name, name ∈ names' ↔ name ∈ names) :
    m.weave { settings with components := names' } = m.weave { settings with components := names } := by
  obtain ⟨vs, hvisitors⟩ := exists_visitorsNamed known
  obtain ⟨vs', hvisitors'⟩ := exists_visitorsNamed fun name hname => known name ((same name).1 hname)
  obtain ⟨hvs, hnames⟩ := standard_of_visitorsNamed hvisitors
  obtain ⟨hvs', hnames'⟩ := standard_of_visitorsNamed hvisitors'
  have hwalk := Walk.matches_walk { settings with components := names } names' hvs hvs'
    (by rw [hnames, hnames']; exact same)
    { pass := { settings := { settings with components := names } }, module := m } _
    ⟨⟨rfl, rfl⟩, numbered_of_decode decoded⟩
  obtain ⟨hresult, ⟨-, hstate⟩, -⟩ := hwalk
  simp only [weave, hvisitors, hvisitors']
  rcases hrun : (walk Workspace.module vs).run
    { pass := { settings := { settings with components := names } }, module := m } with ⟨result, w⟩
  rcases hrun' : (walk Workspace.module vs').run
    { pass := { settings := { settings with components := names' } }, module := m } with ⟨result', w'⟩
  rw [hrun] at hresult hstate
  obtain rfl : result' = result := (congrArg Prod.fst hrun').symm.trans hresult
  obtain rfl : w' = w.naming names' := (congrArg Prod.snd hrun').symm.trans hstate
  rfl

/-- The sample is woven all the same if the sweep comes first and the weaver comes twice. -/
theorem weave_selection_sample :
    ∃ report m', Sample.module.weave Sample.settings = (.ok report, m') ∧
      Sample.module.weave { Sample.settings with
        components := [orphanSweepName, injectionWeaverName, injectionWeaverName] } = (.ok report, m') ∧
      m'.body? ⟨2⟩ = some Sample.woven := by
  obtain ⟨report, m', hweave, hbody⟩ := Sample.exists_weave
  have hknown : ∀ name ∈ Sample.settings.components, name = injectionWeaverName ∨ name = orphanSweepName := by
    decide
  have hselection := weave_selection Sample.decode_source Sample.settings hknown
    (show ∀ name, name ∈ [orphanSweepName, injectionWeaverName, injectionWeaverName] ↔
        name ∈ Sample.settings.components from fun name => by simp [Sample.settings, or_comm])
  exact ⟨report, m', hweave, hselection.trans hweave, hbody⟩

end Module

end AdviceWeaving
