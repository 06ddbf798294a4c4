import AdviceWeaving.Proofs.JsonModules
import AdviceWeaving.Proofs.Shape
import AdviceWeaving.Proofs.Verdicts
import AdviceWeaving.Proofs.Definitions
import AdviceWeaving.Proofs.Removals
import AdviceWeaving.Proofs.Amounts

/-!
# The account of a pass

The tally of a pass counts what it has done to the module.  Every visit of a type adds to the tally what it puts into
the module and what it takes away there (`Workspace.Accounts`), so at the end the numbers are those of the whole pass
(`Module.tally_exact`): they are told by the marker types that it has woven, by the `ret`s of their targets as they were
at first, and by the attributes and the calls in which the two modules differ.
-/

namespace AdviceWeaving

open Step Workspace

/-! ### What is there at first -/

/-- How many constructors of the module are given a call of a hidden method. -/
def Outline.callers (o : Outline) (m : Module) : Nat :=
  m.methods.countP fun p => p.2.constructs && o.initializes p.1.id

section

variable {m : Module} {settings : Settings} {o : Outline} {visited : List TypeId}

private theorem countP_or_of_disjoint {α : Type} {l : List α} {p q : α → Bool} (h : ∀ a ∈ l, p a → q a = false) :
    l.countP (fun a => p a || q a) = l.countP p + l.countP q := by
  induction l with
  | nil => rfl
  | cons a l ih =>
    rw [List.countP_cons, List.countP_cons, List.countP_cons, ih fun b hb => h b (List.mem_cons_of_mem a hb)]
    cases hp : p a with
    | false => simp only [Bool.false_or, Bool.false_eq_true, if_false]; omega
    | true => simp only [Bool.true_or, h a List.mem_cons_self hp, Bool.false_eq_true, if_true, if_false]; omega

/-- The constructors of a type are those methods that stand there. -/
private theorem Module.Numbered.countP_constructs (h : m.Numbered) (id : TypeId) :
    m.methods.countP (fun p => p.2.constructs && p.1.id = id) =
      (m.type? id).elim 0 (·.constructorIds.length) := by
  have htypes (types : List TypeDecl) (hnodup : (types.map (·.id)).Nodup) :
      (types.flatMap fun t => t.methods.map (t, ·)).countP (fun p => p.2.constructs && p.1.id = id) =
        (types.find? (·.id = id)).elim 0 (·.constructorIds.length) := by
    induction types with
    | nil => rfl
    | cons t types ih =>
      rw [List.map_cons, List.nodup_cons] at hnodup
      rw [List.flatMap_cons, List.countP_append, List.countP_map, List.find?_cons]
      by_cases hid : t.id = id
      · have hrest : (types.flatMap fun t => t.methods.map (t, ·)).countP
            (fun p => p.2.constructs && p.1.id = id) = 0 := by
          rw [List.countP_eq_zero]
          intro p hp
          obtain ⟨t', ht', hp⟩ := List.mem_flatMap.1 hp
          obtain ⟨x, -, rfl⟩ := List.mem_map.1 hp
          have hne : t'.id ≠ id := fun h' => hnodup.1 (hid.trans h'.symm ▸ List.mem_map_of_mem ht')
          simp [hne]
        simp [hrest, hid, Function.comp_def, TypeDecl.constructorIds, List.countP_eq_length_filter]
      · simp [hid, Function.comp_def, ih hnodup.2]
  exact htypes m.types h.types_nodup

/-- One more marker type lets the constructors of its own type call its hidden method, if that is new. -/
private theorem Outline.callers_append (h : m.Numbered) {o' : Outline} {a : Admission}
    (hadmissions : o'.admissions = o.admissions ++ [a])
    (hothers : ∀ a' ∈ o.admissions, a'.marker.owner ≠ a.marker.owner) :
    o'.callers m = o.callers m + (a.amounts m).prologues := by
  obtain ⟨module, admissions⟩ := o'
  obtain rfl : admissions = o.admissions ++ [a] := hadmissions
  simp only [callers, initializes_append, Bool.and_or_distrib_left]
  rw [countP_or_of_disjoint]
  · cases hinit : a.initializes with
    | false => simp [Admission.amounts, hinit]
    | true =>
      rw [Admission.amounts, hinit, if_pos rfl, ← h.countP_constructs]
      simp only [Bool.and_true, eq_comm]
  · intro p _ hold
    have hne : a.marker.owner ≠ p.1.id := by
      rintro hsame
      simp only [Bool.and_eq_true, initializes, List.any_eq_true, decide_eq_true_eq] at hold
      obtain ⟨-, a', ha', howner, -⟩ := hold
      exact hothers a' ha' (howner.trans hsame.symm)
    simp [hne]

/-- The `ret`s of what is woven are those of the module, or that of a hidden method. -/
private theorem Outline.Sound.countReturns_eq (hm : m.Numbered) (h : o.Sound settings m visited) {p : Profile}
    (hp : p ∈ o.module.profiles) {base : Body} (hbase : p.body = some base) :
    countReturns base.code = m.returns p.target.id := by
  cases hbody : m.body? p.target.id with
  | some b =>
    obtain ⟨q, hq, hqid, hqbody⟩ := hm.body?_eq_some_iff_profile.1 hbody
    obtain rfl := h.numbered.profile_eq (h.kept q hq) hp hqid
    cases hqbody.symm.trans hbase
    rw [Module.returns, hbody]
    rfl
  | none =>
    rcases h.profiles p hp with hin | hinitializer
    · rw [hm.body?_of_profile hin, hbase] at hbody
      cases hbody
    · obtain ⟨field, hcode⟩ := hinitializer.body_eq
      cases hcode.symm.trans hbase
      rw [Module.returns, hbody]
      cases settings.handleStorage <;> rfl

end

/-! ### What a pass has done -/

/-- What a pass over the module `m` has counted is what it has done, when it has come as far as the outline `o`. -/
structure Workspace.Accounts (w : Workspace) (m : Module) (o : Outline) : Prop where
  strips : w.Strips m
  targets_eq : w.pass.tally.targets = (o.admissions.map fun a => a.targets.length).sum
  entrySites_eq : w.pass.tally.entrySites =
    (o.admissions.map fun a => a.targets.length * a.marker.count .onEntry).sum
  exitSites_eq : w.pass.tally.exitSites =
    (o.admissions.map fun a => (a.targets.map fun t => a.marker.count .onExit * m.returns t.id).sum).sum
  calls_eq : ∀ op, w.module.countCalls op = m.countCalls op +
    if op = .call then w.pass.tally.entrySites + w.pass.tally.exitSites + o.callers m else 0

variable {m : Module} {settings : Settings} {o o' : Outline} {visited : List TypeId} {w w' : Workspace} {u : Unit}

private theorem Workspace.accounts_start (m : Module) (settings : Settings) :
    ({ pass := { settings }, module := m } : Workspace).Accounts m { module := m } where
  strips := strips_start m settings
  targets_eq := rfl
  entrySites_eq := rfl
  exitSites_eq := rfl
  calls_eq op := by simp [Outline.callers, Outline.initializes]

namespace Workspace.Accounts

variable {n : Amounts}

/-- Where only markers are removed. -/
private theorem of_removal (h : w.Accounts m o) {k : Nat} (hcounts : w.Counts w' { stripped := k })
    (hstrips : w'.Strips m)
    (hadmissions : o'.admissions = o.admissions) : w'.Accounts m o' where
  strips := hstrips
  targets_eq := by rw [hcounts.targets_eq, hadmissions, h.targets_eq]; rfl
  entrySites_eq := by rw [hcounts.entrySites_eq, hadmissions, h.entrySites_eq]; rfl
  exitSites_eq := by rw [hcounts.exitSites_eq, hadmissions, h.exitSites_eq]; rfl
  calls_eq op := by
    have hcallers : o'.callers m = o.callers m := by simp only [Outline.callers, Outline.initializes, hadmissions]
    rw [hcounts.calls_eq, hcounts.entrySites_eq, hcounts.exitSites_eq, h.calls_eq, hcallers]
    simp

/-- Where one more marker type is woven. -/
private theorem of_admission (hm : m.Numbered) (h : w.Accounts m o) {a : Admission} {k : Nat}
    (hcounts : w.Counts w' ({ stripped := k } + a.amounts m)) (hstrips : w'.Strips m)
    (hadmissions : o'.admissions = o.admissions ++ [a])
    (hothers : ∀ a' ∈ o.admissions, a'.marker.owner ≠ a.marker.owner) : w'.Accounts m o' where
  strips := hstrips
  targets_eq := by
    rw [hcounts.targets_eq, hadmissions, List.map_append, List.sum_append, h.targets_eq]
    simp [Admission.amounts]
  entrySites_eq := by
    rw [hcounts.entrySites_eq, hadmissions, List.map_append, List.sum_append, h.entrySites_eq]
    simp [Admission.amounts]
  exitSites_eq := by
    rw [hcounts.exitSites_eq, hadmissions, List.map_append, List.sum_append, h.exitSites_eq]
    simp [Admission.amounts]
  calls_eq op := by
    rw [hcounts.calls_eq, hcounts.entrySites_eq, hcounts.exitSites_eq, h.calls_eq,
      Outline.callers_append hm hadmissions hothers]
    simp only [Amounts.add_def]
    split <;> omega

end Workspace.Accounts

namespace Weaving

variable {id : TypeId}

/-- The sweep of a method puts nothing in. -/
private theorem keeps_sweepMethod_accounts (id : MethodId) : Keeps (·.Accounts m o) (sweepMethod id) := by
  intro w h
  have hstrips := keeps_sweepMethod_strips id w h.strips
  rcases run_sweepMethod w id with hrun | ⟨t, x, hx, -, hrun⟩
  · rw [hrun]
    exact h
  · have hcounts : w.Counts ((sweepMethod id).run w).2 { stripped := x.countMarkers w.pass.settings.markers } := by
      rw [hrun]
      refine ⟨rfl, rfl, rfl, rfl, fun op => ?_⟩
      have hcalls := Module.countCalls_updateMethod op hx (swept w.pass.settings.markers)
      simpa [Workspace.cleared] using Nat.add_right_cancel hcalls
    exact h.of_removal hcounts hstrips rfl

/-- To read the markers of a type puts nothing in. -/
private theorem counts_scan {marker? : Option MarkerType} (hy : Yields (scan id) w marker? w') :
    ∃ k, w.Counts w' { stripped := k } := by
  obtain ⟨t, ht, -, rfl⟩ := yields_scan_iff.1 hy
  refine ⟨_, rfl, rfl, rfl, rfl, fun op => ?_⟩
  have hput := Module.countCalls_put op ht ((t.scan_rest_id w.pass.settings.markers).trans (Module.id_of_type? ht))
  rw [← Module.updateType_eq_put (f := fun _ => (t.scan w.pass.settings.markers).rest) ht (t.scan_rest_id _),
    TypeDecl.countCalls_congr (t.profiles_scan _)] at hput
  simpa [Workspace.module_scanned] using Nat.add_right_cancel hput

/-- The first visit of the weaver to a type counts what it does. -/
private theorem accounts_weaveType (hm : m.Numbered) (h : w.Follows settings m o visited) (hid : id ∉ visited)
    (ha : w.Accounts m o) (hy : Yields (weaveType id) w u w') : w'.Accounts m (o.weaveType settings id) := by
  obtain ⟨h', -⟩ := follows_weaveType h hid hy
  have hsound := h.sound
  obtain ⟨handles, wrap, hat, hnew, -⟩ := h.at_outline
  rcases yields_weaveType_iff.1 hy with hscan | ⟨marker, w₁, accepted, w₂, hscan, hinject, rfl⟩
  · obtain ⟨t, ht, hdeclared, hat₁⟩ := at_scan hat hscan
    obtain ⟨k, hread⟩ := counts_scan hscan
    refine ha.of_removal hread (strips_weaveType h hid h' ha.strips hscan rfl) ?_
    rw [Outline.weaveType_of_unmarked ht hdeclared]
    rfl
  · obtain ⟨t, ht, hdeclared, hat₁⟩ := at_scan hat hscan
    obtain ⟨k, hread⟩ := counts_scan hscan
    let o₁ : Outline := o.scanType settings id t
    have hweave : o.weaveType settings id = o₁.enlist settings marker :=
      Outline.weaveType_of_marker ht hdeclared
    have howner : marker.owner = id := (t.owner_of_scan hdeclared).trans (Module.id_of_type? ht)
    have hsound₁ : o₁.Sound settings m (id :: visited) := hsound.scanType ht
    have hreturns : ∀ t ∈ o₁.module.targets marker.name,
        ∃ base, o₁.module.body? t.id = some base ∧ countReturns base.code = m.returns t.id := by
      intro t ht
      obtain ⟨p, hp, rfl, hbody⟩ := Module.mem_targets ht
      obtain ⟨base, hbase⟩ := Option.isSome_iff_exists.1 hbody
      exact ⟨base, (hsound₁.numbered.body?_of_profile hp).trans hbase, hsound₁.countReturns_eq hm hp hbase⟩
    have hconstructors : ∀ t₁, o₁.module.type? marker.owner = some t₁ →
        ∃ t₀, m.type? marker.owner = some t₀ ∧ t₁.constructorIds.length = t₀.constructorIds.length := by
      intro t₁ ht₁
      have hself : o₁.module.type? id = some (t.scan settings.markers).rest := Outline.type?_scanType_self ht
      rw [howner] at ht₁ ⊢
      cases hself.symm.trans ht₁
      exact ⟨t, (hsound.untouched id hid).symm.trans ht,
        TypeDecl.length_constructorIds_congr (t.profiles_scan settings.markers)⟩
    have hnone : handles.lookup marker.owner = none := howner ▸ hnew id hid
    rcases counts_inject (o := o₁) rfl hreturns hconstructors hat₁ hnone hinject with
      ⟨hsame, hcounts⟩ | ⟨a, hadmissions, hmarker, hcounts⟩
    · have hstrips := strips_weaveType h hid h' ha.strips hscan hcounts.markersStripped_eq
      have hboth : w.Counts w₂ { stripped := k } := by simpa using hread.trans hcounts
      exact ha.of_removal (hboth.of_eq rfl rfl) hstrips (by rw [hweave]; exact hsame)
    · have hstrips := strips_weaveType h hid h' ha.strips hscan hcounts.markersStripped_eq
      refine ha.of_admission hm ((hread.trans hcounts).of_eq rfl rfl) hstrips (by rw [hweave]; exact hadmissions) ?_
      -- marker types are woven at the visit to their own type, so this one was not woven before
      intro a' ha' hsame
      exact hid (howner ▸ hmarker ▸ hsame ▸ hsound.owners a' ha')

end Weaving

/-! ### Passes -/

namespace Walk

variable {vs : List (Visitor Workspace)} {id : TypeId}

/-- A visit of a type counts what it does, there and at its members. -/
private theorem accounts_visitType (hvs : Standard vs) (hnames : vs.map (·.name) = settings.components)
    (hm : m.Numbered)
    (h : w.Follows settings m o visited) (hid : id ∉ visited) (ha : w.Accounts m o)
    (hy : Yields (visitType Workspace.module vs id) w u w') : w'.Accounts m (o.visitType settings id) := by
  have hrun := run_onType hvs h.numbered id
  rw [hnames] at hrun
  obtain ⟨_, w₁, htype, -⟩ := yields_bind.1 hy
  replace htype : (forM vs (·.onType id) : Weaving Unit).run w = (.ok _, w₁) := htype
  let o₁ : Outline := if injectionWeaverName ∈ settings.components then o.weaveType settings id else o
  have ha₁ : w₁.Accounts m o₁ := by
    have hweave : Yields (if injectionWeaverName ∈ settings.components then Weaving.weaveType id else pure ()) w _ w₁ :=
      hrun.symm.trans htype
    by_cases hweaver : injectionWeaverName ∈ settings.components
    · rw [if_pos hweaver] at hweave
      simpa only [o₁, if_pos hweaver] using Weaving.accounts_weaveType hm h hid ha hweave
    · rw [if_neg hweaver] at hweave
      obtain ⟨-, rfl⟩ := yields_pure.1 hweave
      simpa only [o₁, if_neg hweaver] using ha
  have hlockstep : Lockstep (fun w v => v = w ∧ w.Accounts m o₁) (visitType Workspace.module vs id)
      (visitType Workspace.module vs id) w w := by
    refine lockstep_visitType (by rintro _ v ⟨rfl, -⟩; exact .refl _)
      (respectsMembers_of_sweepMethod hvs fun id => (Weaving.keeps_sweepMethod_accounts id).respects) ⟨rfl, rfl, ?_⟩
    rw [htype]
    exact ha₁
  obtain ⟨_, -, -, hkept⟩ := hlockstep.yields hy
  -- to sweep a type changes no admission
  exact hkept.of_removal (.idle (fun _ => rfl) rfl rfl rfl rfl) hkept.strips (o.admissions_visitType settings id)

end Walk

variable {m' : Module} {report : PassReport}

/-- A pass that ends well has counted what it has done. -/
private theorem Module.accounts_of_weave (hm : m.Numbered) (h : m.weave settings = (.ok report, m')) :
    ∃ w : Workspace, w.module = m' ∧ w.pass.tally = report.tally ∧ w.Accounts m (m.outline settings) := by
  obtain ⟨vs, w, hvisitors, rfl, rfl, hy⟩ := exists_countdown_of_weave h
  obtain ⟨hvs, hnames⟩ := standard_of_visitorsNamed hvisitors
  refine ⟨w, rfl, rfl, ?_⟩
  refine Walk.visit_induction (P := fun n w => w.Accounts m (m.outlineFrom settings n)) hvs hnames hm ?_ ?_ hy
  · rw [m.outlineFrom_length]
    exact accounts_start m settings
  · intro n hn w w' h hnew _ ha hvisit
    rw [m.outlineFrom_of_lt settings hn]
    exact Walk.accounts_visitType hvs hnames hm h hnew ha hvisit

/-- A constructor that is given a call of a hidden method calls it before all else. -/
private theorem Module.exists_code_of_initializes (hm : m.Numbered) (h : m.weave settings = (.ok report, m'))
    {t : TypeDecl}
    {x : Method} (hx : (t, x) ∈ m.methods) (hconstructs : x.constructs)
    (hinitializes : (m.outline settings).initializes t.id) :
    ∃ body rest, m'.body? x.id = some body ∧ body.code = initializerCall (initializerSig t.name) ++ rest := by
  rw [Method.constructs, Bool.and_eq_true] at hconstructs
  obtain ⟨b, hb⟩ := Option.isSome_iff_exists.1 hconstructs.2
  obtain ⟨body, cursor, slot?, hbody, haround⟩ := exists_around_of_weave hm h hx hb
  have hcode := haround.code_eq
  have hprologue : (m.outline settings).prologue (x.profile t) = initializerCall (initializerSig t.name) := by
    have hconstructor : (x.profile t).target.isConstructor = true := hconstructs.1
    have howner : (m.outline settings).initializes (x.profile t).owner = true := hinitializes
    rw [Outline.prologue, hconstructor, howner]
    rfl
  obtain ⟨rest, hentry⟩ : ∃ rest, ((m.outline settings).wrapping settings.handleStorage (x.profile t)
      b.locals.size).entry = initializerCall (initializerSig t.name) ++ rest :=
    ⟨_, congrArg (· ++ _) hprologue⟩
  rw [Wrapping.code, hentry, List.append_assoc] at hcode
  exact ⟨body, _, hbody, hcode⟩

/-- The tally of a pass tells exactly what the pass has done.  Of the attributes of the module some are left, in their
order, and the others are as many as the tally counts; only the hidden methods have another one.  The targets and the
places of advice are those of the marker types that the pass accepts, with the `ret`s of the targets as they were at
first.  And as many calls have come as there are places of advice, and constructors of types for which the pass makes
the hidden method; each of these constructors calls it before all else. -/
theorem Module.tally_exact {encoding : Encoding} {source : String} (decoded : encoding.decode source = .ok m)
    (woven : m.weave settings = (.ok report, m')) :
    let known := methodIds m.types
    let n := report.tally
    ∃ accepted : List Admission,
      (∀ a, a ∈ accepted ↔ m.Admits settings a) ∧ (accepted.map (·.marker.owner)).Nodup ∧
      let initializes (t : TypeDecl) : Bool := accepted.any fun a => a.marker.owner = t.id && a.initializes
      (m'.attributesOf known).Sublist m.allAttributes ∧
      n.markersStripped + (m'.attributesOf known).length = m.allAttributes.length ∧
      (∀ t ∈ m'.types, ∀ x ∈ t.methods, x.id ∉ known → x.allAttributes = [{ name := debuggerHiddenName }]) ∧
      n.targets = (accepted.map fun a => a.targets.length).sum ∧
      n.entrySites = (accepted.map fun a => a.targets.length * a.marker.count .onEntry).sum ∧
      n.exitSites = (accepted.map fun a =>
        (a.targets.map fun t => a.marker.count .onExit * m.returns t.id).sum).sum ∧
      (∀ op, m'.countCalls op = m.countCalls op + if op = .call then
        n.entrySites + n.exitSites + m.methods.countP (fun p => p.2.constructs && initializes p.1) else 0) ∧
      ∀ t x, (t, x) ∈ m.methods → x.constructs → initializes t →
        ∃ body rest, m'.body? x.id = some body ∧ body.code = initializerCall (initializerSig t.name) ++ rest := by
  have hm := numbered_of_decode decoded
  obtain ⟨hnodup, hadmits⟩ := admissions_of_weave hm woven
  obtain ⟨w, hmodule, htally, haccounts⟩ := accounts_of_weave hm woven
  obtain ⟨⟨hkept, hstripped, hhides⟩, htargets, hentry, hexit, hcalls⟩ := haccounts
  rw [hmodule] at hkept hstripped hhides hcalls
  rw [htally] at hstripped htargets hentry hexit hcalls
  exact ⟨(m.outline settings).admissions, hadmits, hnodup, hkept, hstripped, hhides, htargets, hentry, hexit, hcalls,
    fun t x hx hconstructs hinitializes => exists_code_of_initializes hm woven hx hconstructs hinitializes⟩

/-- A marker type with a constructor and advice of both timings, a method with two `ret`s, and a stray marker. -/
def Sample.straying : Module where
  name := "m"
  types :=
    [{ name := "L"
       attributes := [{ name := "Injection" }]
       methods :=
         [{ name := Method.constructorName, ret := .void, body := some (.ofCode [.simple .ret]) },
           { id := ⟨1⟩, name := "B", ret := .void, attributes := [{ name := "Rise", args := [.int 1] }]
             body := some (.ofCode [.simple .ret]) },
           { id := ⟨2⟩, name := "E", ret := .void, attributes := [{ name := "Rise", args := [.int 2] }]
             body := some (.ofCode [.simple .ret]) }] },
      { id := ⟨1⟩, name := "C"
        methods :=
          [{ id := ⟨3⟩, name := "F", ret := .int32, attributes := [{ name := "L" }]
             body := some (.ofCode [.ldcI4 0, .branch .brtrue 4, .ldcI4 1, .simple .ret, .ldcI4 2, .simple .ret]) },
            { id := ⟨4⟩, name := "G", ret := .void, attributes := [{ name := "Rise", args := [.int 2] }]
              body := some (.ofCode [.simple .ret]) }] }]
  ids := ⟨2, 5⟩

theorem Module.tally_exact_sample :
    let m := Sample.straying
    Encoding.json.decode (Encoding.json.encode m) = .ok m ∧
    ∃ report m', m.weave Sample.settings = (.ok report, m') ∧
      report.tally = { markerTypes := 1, targets := 1, entrySites := 1, exitSites := 2, markersStripped := 4 } ∧
      4 + (m'.attributesOf (methodIds m.types)).length = m.allAttributes.length ∧
      m.countCalls .call = 0 ∧ m'.countCalls .call = 4 ∧
      ∃ accepted : List Admission, (∀ a, a ∈ accepted ↔ m.Admits Sample.settings a) ∧
        1 = (accepted.map fun a => a.targets.length).sum ∧
        1 = (accepted.map fun a => a.targets.length * a.marker.count .onEntry).sum ∧
        2 = (accepted.map fun a => (a.targets.map fun t => a.marker.count .onExit * m.returns t.id).sum).sum := by
  intro m
  have hdecode : Encoding.json.decode (Encoding.json.encode m) = .ok m := Encoding.decode_encode_json m
  have hrun : ((m.weave Sample.settings).1.toOption.map (·.tally), m.countCalls .call,
      (m.weave Sample.settings).2.countCalls .call) =
      (some { markerTypes := 1, targets := 1, entrySites := 1, exitSites := 2, markersStripped := 4 }, 0, 4) := by
    decide +kernel
  rcases hweave : m.weave Sample.settings with ⟨failure | report, m'⟩
  · rw [hweave] at hrun
    cases hrun
  · simp only [hweave, Except.toOption, Option.map_some, Option.some.injEq, Prod.mk.injEq] at hrun
    obtain ⟨htally, hbefore, hafter⟩ := hrun
    obtain ⟨accepted, hadmits, -, -, hstripped, -, htargets, hentry, hexit, -⟩ := tally_exact hdecode hweave
    rw [htally] at hstripped htargets hentry hexit
    exact ⟨hdecode, report, m', rfl, htally, hstripped, hbefore, hafter, accepted, hadmits, htargets, hentry, hexit⟩

end AdviceWeaving
