import AdviceWeaving.Proofs.Declaring
import AdviceWeaving.Proofs.Transitions

/-!
# What reading a marker type takes away

To read a marker type takes away the markers that it has been told by: those of the type, and of its marked methods
with their parameters (`Method.cleared`).  The number that is added to the tally is that of the attributes that are
gone (`TypeDecl.length_allAttributes_scan`).  The markers on parameters of other methods are not read, and stay where
they are (`Weaving.scan_leaves_strays`).
-/

namespace AdviceWeaving

/-! ### Counting attributes -/

/-- The attributes of a method and of its parameters. -/
def Method.allAttributes (x : Method) : List Attribute :=
  x.attributes ++ x.params.flatMap (·.attributes)

/-- The attributes of a type, of its members and of their parameters. -/
def TypeDecl.allAttributes (t : TypeDecl) : List Attribute :=
  t.attributes ++ t.fields.flatMap (·.attributes) ++ t.properties.flatMap (·.attributes) ++
    t.methods.flatMap (·.allAttributes)

private theorem length_strip_add (attributes : List Attribute) (name : String) :
    (strip attributes name).length + countAttribute attributes name = attributes.length := by
  rw [strip, countAttribute, ← List.countP_eq_length_filter, Nat.add_comm]
  have h := List.length_eq_countP_add_countP (fun a : Attribute => decide (a.name = name)) (l := attributes)
  simpa using h.symm

theorem Weaving.allAttributes_swept (names : MarkerNames) (x : Method) :
    (swept names x).allAttributes =
      strip x.attributes names.rise ++ strip (x.params.flatMap (·.attributes)) names.argument := by
  have hparams : (x.params.map (·.stripped names)).flatMap (·.attributes) =
      strip (x.params.flatMap (·.attributes)) names.argument := by
    rw [List.flatMap_map, strip, List.filter_flatMap]
    rfl
  rw [← hparams]
  rfl

theorem Weaving.length_allAttributes_swept (names : MarkerNames) (x : Method) :
    (swept names x).allAttributes.length + x.countMarkers names = x.allAttributes.length := by
  have hrise := length_strip_add x.attributes names.rise
  have hargument := length_strip_add (x.params.flatMap (·.attributes)) names.argument
  rw [allAttributes_swept, Method.allAttributes, List.length_append, List.length_append, Method.countMarkers]
  omega

/-! ### What is left -/

/-- What is left of a method when its type has been read: without its markers if it is marked, and else as it is. -/
def Method.cleared (names : MarkerNames) (x : Method) : Method :=
  if hasAttribute x.attributes names.rise then Weaving.swept names x else x

section

variable {names : MarkerNames}

private theorem scanParams_rest {params : List Param} {bindings : List Binding}
    (h : (scanParams names params).1 = .ok bindings) :
    (scanParams names params).2 = params.map (·.stripped names) := by
  induction params generalizing bindings with
  | nil => rfl
  | cons p params ih =>
    cases hsource : p.source names with
    | error fault => simp [scanParams, hsource] at h
    | ok source? =>
      cases hrest : (scanParams names params).1 with
      | error fault => simp [scanParams, hsource, hrest, Except.map] at h
      | ok rest => simp [scanParams, hsource, ih hrest]

private theorem Method.scan_rest {owner : String} {x : Method} {a : Advice} (h : (x.scan names owner).1 = .ok a) :
    (x.scan names owner).2 = Weaving.swept names x := by
  cases htiming : x.timing names with
  | error fault => simp [scan, htiming] at h
  | ok timing =>
    cases hbindings : (scanParams names x.params).1 with
    | error fault => simp [scan, htiming, hbindings, Except.map] at h
    | ok bindings => simp [scan, htiming, scanParams_rest hbindings, Weaving.swept]

private theorem scanMethods_rest {owner : String} {methods : List Method} {advice : List Advice}
    (h : (scanMethods names owner methods).declared = .ok advice) :
    (scanMethods names owner methods).rest = methods.map (·.cleared names) ∧
      ((methods.map (·.cleared names)).flatMap (·.allAttributes)).length + (scanMethods names owner methods).stripped =
        (methods.flatMap (·.allAttributes)).length := by
  induction methods generalizing advice with
  | nil => exact ⟨rfl, rfl⟩
  | cons x methods ih =>
    cases hmarked : hasAttribute x.attributes names.rise with
    | false =>
      simp only [scanMethods, hmarked, Bool.false_eq_true, if_false] at h ⊢
      obtain ⟨hrest, hcount⟩ := ih h
      have hx : x.cleared names = x := if_neg (by simp [hmarked])
      simp only [List.map_cons, List.flatMap_cons, List.length_append, hx, hrest]
      exact ⟨trivial, by omega⟩
    | true =>
      rcases hscan : x.scan names owner with ⟨fault | a, rest⟩
      · simp [scanMethods, hmarked, hscan] at h
      · cases hothers : (scanMethods names owner methods).declared with
        | error failure => simp [scanMethods, hmarked, hscan, hothers, Except.map] at h
        | ok others =>
          obtain ⟨hrest, hcount⟩ := ih hothers
          have hx : x.cleared names = Weaving.swept names x := if_pos hmarked
          have hswept : rest = Weaving.swept names x := by
            have := Method.scan_rest (congrArg Prod.fst hscan)
            rwa [hscan] at this
          have hlength := Weaving.length_allAttributes_swept names x
          simp only [scanMethods, hmarked, if_true, hscan, List.map_cons, List.flatMap_cons, List.length_append, hx,
            hrest, hswept]
          exact ⟨trivial, by omega⟩

/-- What is left of a marker type when it has been read. -/
def TypeDecl.cleared (names : MarkerNames) (t : TypeDecl) : TypeDecl :=
  { t with
    attributes := strip t.attributes names.injection
    methods := t.methods.map (·.cleared names) }

theorem TypeDecl.scan_rest {t : TypeDecl} {marker : MarkerType} (h : (t.scan names).declared = .ok (some marker)) :
    (t.scan names).rest = t.cleared names ∧
      (t.cleared names).allAttributes.length + (t.scan names).stripped = t.allAttributes.length := by
  cases hmarked : hasAttribute t.attributes names.injection with
  | false => simp [scan, hmarked] at h
  | true =>
    cases hmethods : (scanMethods names t.name t.methods).declared with
    | error failure => simp [scan, hmarked, hmethods, Except.map] at h
    | ok advice =>
      obtain ⟨hrest, hcount⟩ := scanMethods_rest hmethods
      have hstrip := length_strip_add t.attributes names.injection
      simp only [scan, hmarked, if_true, cleared, allAttributes, hrest, List.length_append]
      exact ⟨trivial, by omega⟩

/-! ### Markers that are left -/

/-- No parameter of the method has a marker. -/
def Method.HasPlainParams (names : MarkerNames) (x : Method) : Prop :=
  ∀ p ∈ x.params, ∀ a ∈ p.attributes, a.name ≠ names.argument

private theorem forall_mem_strip {attributes : List Attribute} {name : String} :
    ∀ a ∈ strip attributes name, a.name ≠ name :=
  fun _ ha => of_decide_eq_true (List.mem_filter.1 ha).2

private theorem Method.not_mem_rise_cleared (x : Method) : ∀ a ∈ (x.cleared names).attributes, a.name ≠ names.rise := by
  unfold cleared
  split
  · exact forall_mem_strip
  · next hmarked => exact fun a ha hname => hmarked (hasAttribute_iff.2 ⟨a, ha, hname⟩)

private theorem Method.hasPlainParams_cleared_iff (x : Method) :
    (x.cleared names).HasPlainParams names ↔
      hasAttribute x.attributes names.rise ∨ x.HasPlainParams names := by
  unfold cleared
  split
  · next hmarked =>
    have hplain : (Weaving.swept names x).HasPlainParams names := by
      rintro _ hp
      obtain ⟨p, -, rfl⟩ := List.mem_map.1 hp
      exact forall_mem_strip
    simp [hmarked, hplain]
  · next hmarked => simp [hmarked]

end

/-- What a step leaves that has read a marker type.  The markers of the type, of its marked methods and of their
parameters are gone, and as many as these are added to the tally; all other attributes are kept in order.  The type has
no markers any more, and none of its methods has, but its parameters have none only if there were none on the
parameters of methods that are not marked. -/
theorem Weaving.scan_leaves_strays {w w' : Workspace} {id : TypeId} {marker : MarkerType}
    (read : Step.Yields (scan id) w (some marker) w') :
    let names := w.pass.settings.markers
    ∃ t t', w.module.type? id = some t ∧ w'.module.type? id = some t' ∧
      w'.module = w.module.updateType id (fun _ => t') ∧
      t' = { t with
        attributes := strip t.attributes names.injection
        methods := t.methods.map fun x =>
          if hasAttribute x.attributes names.rise then
            { x with
              attributes := strip x.attributes names.rise
              params := x.params.map fun p => { p with attributes := strip p.attributes names.argument } }
          else x } ∧
      (∃ removed, t'.allAttributes.length + removed = t.allAttributes.length ∧
        w'.pass = { w.pass with
          tally := { w.pass.tally with markersStripped := w.pass.tally.markersStripped + removed } }) ∧
      (∀ a ∈ t'.attributes, a.name ≠ names.injection) ∧
      (∀ x ∈ t'.methods, ∀ a ∈ x.attributes, a.name ≠ names.rise) ∧
      ((∀ x ∈ t'.methods, ∀ p ∈ x.params, ∀ a ∈ p.attributes, a.name ≠ names.argument) ↔
        ∀ x ∈ t.methods, (∀ a ∈ x.attributes, a.name ≠ names.rise) →
          ∀ p ∈ x.params, ∀ a ∈ p.attributes, a.name ≠ names.argument) := by
  intro names
  obtain ⟨t, ht, hdeclared, rfl⟩ := yields_scan_iff.1 read
  obtain ⟨hrest, hcount⟩ := TypeDecl.scan_rest hdeclared
  refine ⟨t, t.cleared names, ht, ?_, ?_, rfl, ⟨_, hcount, rfl⟩, forall_mem_strip, ?_, ?_⟩
  · rw [Workspace.type?_scanned_self ht, hrest]
  · rw [Workspace.module_scanned, hrest]
  · rintro _ hx
    obtain ⟨x, -, rfl⟩ := List.mem_map.1 hx
    exact x.not_mem_rise_cleared
  · have hx (x : Method) : (x.cleared names).HasPlainParams names ↔
        ((∀ a ∈ x.attributes, a.name ≠ names.rise) → x.HasPlainParams names) := by
      rw [x.hasPlainParams_cleared_iff, hasAttribute_iff, imp_iff_not_or]
      push Not
      rfl
    simp only [TypeDecl.cleared, List.forall_mem_map]
    exact forall₂_congr fun x _ => hx x

/-- The pass over a module that has only the sample type. -/
def Sample.logWorkspace : Workspace where
  pass := { settings := { markerNamespace := "Aop" } }
  module := { name := "m", types := [logDecl] }

/-- The marker on the parameter of a method that is no advice stays in the sample. -/
theorem Weaving.scan_leaves_strays_sample :
    ∃ marker w', Step.Yields (scan ⟨2⟩) Sample.logWorkspace (some marker) w' ∧
      w'.pass.tally.markersStripped = 7 ∧
      ∃ t', w'.module.type? ⟨2⟩ = some t' ∧
        ¬ ∀ x ∈ t'.methods, ∀ p ∈ x.params, ∀ a ∈ p.attributes, a.name ≠ "Aop.Argument" := by
  have hrun : ((scan ⟨2⟩).run Sample.logWorkspace).1.toOption.join.isSome := by decide +kernel
  obtain ⟨marker, hmarker⟩ := Option.isSome_iff_exists.1 hrun
  have read := Step.yields_of_run (Option.join_eq_some_iff.1 hmarker)
  refine ⟨marker, _, read, by decide +kernel, ?_⟩
  obtain ⟨t, t', ht, ht', -, -, -, -, -, hplain⟩ := scan_leaves_strays read
  refine ⟨t', ht', fun h => ?_⟩
  cases ht
  have hhelper := hplain.1 h Sample.helper (by simp [Sample.logDecl]) (by simp [Sample.helper])
  exact hhelper { name := "n", type := .string, attributes := [{ name := "Aop.Argument" }] } (by simp [Sample.helper])
    { name := "Aop.Argument" } (by simp) rfl

end AdviceWeaving
