import AdviceWeaving.Proofs.Lockstep
import AdviceWeaving.Proofs.Rosters
import Mathlib.Data.List.Induction

/-!
# The order of a walk

The visits of a walk, if no visitor adds or removes types or members, are known from the module that it starts with:
`Module.itinerary` lists them, hook by hook and at each hook visitor by visitor.  The visits that a walk makes are
written down by visitors that log themselves (`Visitor.logged`); a walk with these does what a walk without them does.
`Walk.visits_exact` says that a walk makes the visits of its itinerary, all of them or up to the first that fails.
-/

namespace AdviceWeaving

variable {σ : Type}

/-! ### Hooks -/

/-- A place in a walk at which all visitors are called. -/
inductive Hook
  | before
  | onModule
  | onType (t : TypeId)
  | onMethod (id : MethodId)
  | onField (t : TypeId) (n : Nat)
  | onProperty (t : TypeId) (n : Nat)
  | complete
  deriving DecidableEq

/-- The hooks at a type, then at its methods, its fields and its properties, each kind from the last to the first. -/
def TypeDecl.hooks (t : TypeDecl) : List Hook :=
  .onType t.id :: ((t.methods.map fun x => Hook.onMethod x.id).reverse ++
    (((List.range t.fields.length).map (Hook.onField t.id)).reverse ++
      ((List.range t.properties.length).map (Hook.onProperty t.id)).reverse))

/-- The hooks of a module, with those at its types from the last type to the first. -/
def Module.hooks (m : Module) : List Hook :=
  .before :: .onModule :: (m.types.reverse.flatMap (·.hooks) ++ [.complete])

namespace Visitor

/-- What a visitor does at a hook. -/
def hook (v : Visitor σ) : Hook → Step σ Unit
  | .before => v.before
  | .onModule => v.onModule
  | .onType t => v.onType t
  | .onMethod id => v.onMethod id
  | .onField t n => v.onField t n
  | .onProperty t n => v.onProperty t n
  | .complete => v.complete

/-- The visitor that does at each hook what `f` tells. -/
def ofHooks (name : String) (f : Hook → Step σ Unit) : Visitor σ where
  name
  before := f .before
  onModule := f .onModule
  onType t := f (.onType t)
  onMethod id := f (.onMethod id)
  onField t n := f (.onField t n)
  onProperty t n := f (.onProperty t n)
  complete := f .complete

private theorem hook_ofHooks (name : String) (f : Hook → Step σ Unit) (h : Hook) : (ofHooks name f).hook h = f h := by
  cases h <;> rfl

private theorem matches_of_hook {τ : Type} {Q : σ → τ → Prop} {v : Visitor σ} {v' : Visitor τ}
    (h : ∀ hook, Step.Matches Q (v.hook hook) (v'.hook hook)) : Visitor.Matches Q v v' where
  before := h .before
  onModule := h .onModule
  onType t := h (.onType t)
  onMethod id := h (.onMethod id)
  onField t n := h (.onField t n)
  onProperty t n := h (.onProperty t n)
  complete := h .complete

end Visitor

/-! ### Visits -/

/-- The call of one visitor, given by its place among the visitors, at one hook. -/
structure Visit where
  visitor : Nat
  hook : Hook
  deriving DecidableEq

/-- What is done at a visit. -/
def Visit.perform (vs : List (Visitor σ)) (x : Visit) : Step σ Unit :=
  vs[x.visitor]?.elim (pure ()) (·.hook x.hook)

/-- The visits succeed one after the other, and lead from one state to the other. -/
inductive Visit.Run (vs : List (Visitor σ)) : List Visit → σ → σ → Prop
  | nil (s : σ) : Run vs [] s s
  | cons {x : Visit} {xs : List Visit} {s t s' : σ} (first : Step.Yields (x.perform vs) s () t)
      (rest : Run vs xs t s') : Run vs (x :: xs) s s'

/-- The visits of a walk with `n` visitors: at each hook, one of each of them. -/
def Module.itinerary (m : Module) (n : Nat) : List Visit :=
  m.hooks.flatMap fun h => (List.range n).map fun k => ⟨k, h⟩

/-- The module with each type replaced by the one that is found under its identifier. -/
def Module.asFound (m : Module) : Module :=
  { m with types := m.types.map fun t => (m.type? t.id).getD t }

/-- The visits that a walk is to make. -/
def Walk.plan (view : σ → Module) (vs : List (Visitor σ)) (s : σ) : List Visit :=
  (view s).asFound.itinerary vs.length

/-- Write down a visit, and then make it. -/
def Step.logging (x : Visit) (step : Step σ Unit) : Step (σ × List Visit) Unit := do
  modify fun t => (t.1, t.2 ++ [x])
  step.onPart Prod.fst fun s t => (s, t.2)

/-- The visitor at the place `k` of a walk that writes down its visits. -/
def Visitor.logged (v : Visitor σ) (k : Nat) : Visitor (σ × List Visit) :=
  .ofHooks v.name fun h => (v.hook h).logging ⟨k, h⟩

/-- A walk that writes down its visits. -/
def Walk.logged (view : σ → Module) (vs : List (Visitor σ)) : Step (σ × List Visit) Unit :=
  walk (fun t => view t.1) (vs.mapIdx fun k v => v.logged k)

/-! ### Inventories -/

/-- What a type is and has: its methods by their identifiers, its fields and properties by their number. -/
structure Inventory where
  id : TypeId
  methods : List MethodId
  fields : Nat
  properties : Nat

def TypeDecl.inventory (t : TypeDecl) : Inventory where
  id := t.id
  methods := t.methods.map (·.id)
  fields := t.fields.length
  properties := t.properties.length

def Module.inventory (m : Module) : List Inventory :=
  m.types.map (·.inventory)

/-- A visitor adds and removes no types and no members before the walk is complete; to move one is to remove it and to
add it again.  The visitor may change all that they hold, and whatever it does when it fails is left open. -/
def Visitor.KeepsMembers (view : σ → Module) (v : Visitor σ) : Prop :=
  ∀ h ≠ Hook.complete, ∀ s s', Step.Yields (v.hook h) s () s' → (view s').inventory = (view s).inventory

private theorem Module.map_inventory_type? (m : Module) (id : TypeId) :
    (m.type? id).map (·.inventory) = m.inventory.find? (·.id = id) := by
  rw [inventory, List.find?_map]
  rfl

/-- Modules with the same inventory look alike to a walk. -/
private theorem Module.alike_of_inventory {m n : Module} (h : n.inventory = m.inventory) : m.Alike n := by
  have htype (id : TypeId) : (n.type? id).map (·.inventory) = (m.type? id).map (·.inventory) := by
    rw [map_inventory_type?, map_inventory_type?, h]
  have hmethods (m : Module) (id : TypeId) : (Walk.membersOf (·.methods) id m).map (·.id) =
      ((m.type? id).map (·.inventory)).elim [] (·.methods) := by
    unfold Walk.membersOf
    cases m.type? id <;> rfl
  have hfields (m : Module) (id : TypeId) : (Walk.membersOf (·.fields) id m).length =
      ((m.type? id).map (·.inventory)).elim 0 (·.fields) := by
    unfold Walk.membersOf
    cases m.type? id <;> rfl
  have hproperties (m : Module) (id : TypeId) : (Walk.membersOf (·.properties) id m).length =
      ((m.type? id).map (·.inventory)).elim 0 (·.properties) := by
    unfold Walk.membersOf
    cases m.type? id <;> rfl
  have hmethod (m : Module) (id : MethodId) : (m.method? id).isSome ↔ ∃ e ∈ m.inventory, id ∈ e.methods := by
    simp [isSome_method?_iff, rosters, inventory, TypeDecl.roster, TypeDecl.inventory]
  refine ⟨?_, fun id => ?_, fun id => ?_, fun id => ?_, fun id => ?_⟩
  · simpa [inventory, Function.comp_def, TypeDecl.inventory] using congrArg (List.map (·.id)) h
  · rw [hmethods, hmethods, htype]
  · rw [hfields, hfields, htype]
  · rw [hproperties, hproperties, htype]
  · rw [Bool.eq_iff_iff, hmethod, hmethod, h]

/-- Where types have identifiers of their own, each is found under its identifier. -/
private theorem Module.asFound_eq {m : Module} (h : (m.types.map (·.id)).Nodup) : m.asFound = m := by
  have hfound : m.types.map (fun t => (m.type? t.id).getD t) = m.types.map id :=
    List.map_congr_left fun t ht => by
      rw [show m.type? t.id = some t from (find?_eq_some_iff_of_nodup h).2 ⟨ht, rfl⟩]
      rfl
  rw [asFound, hfound, List.map_id]

private theorem Module.type?_of_mem_asFound {m : Module} {t : TypeDecl} (h : t ∈ m.asFound.types) :
    m.type? t.id = some t := by
  obtain ⟨t', ht', rfl⟩ := List.mem_map.1 h
  obtain ⟨t, ht⟩ : ∃ t, m.type? t'.id = some t := Option.isSome_iff_exists.1 (List.find?_isSome.2 ⟨t', ht', by simp⟩)
  have hid : t.id = t'.id := by simpa using List.find?_some ht
  rw [ht, Option.getD_some, hid, ht]

private theorem Module.map_id_asFound (m : Module) : m.asFound.types.map (·.id) = m.types.map (·.id) := by
  rw [asFound, List.map_map]
  refine List.map_congr_left fun t ht => ?_
  have hmem : (m.type? t.id).getD t ∈ m.asFound.types := List.mem_map_of_mem ht
  cases h : m.type? t.id with
  | none => simp [h]
  | some u => simpa [h] using List.find?_some h

/-- In a list with the same keys, the same key stands at the same place. -/
private theorem exists_getElem?_of_map_eq {α κ : Type} {key : α → κ} {l l' : List α} (h : l.map key = l'.map key)
    {k : Nat}
    {a : α} (ha : l'[k]? = some a) : ∃ b, l[k]? = some b ∧ key b = key a := by
  have hplace := congrArg (·[k]?) h
  simpa only [List.getElem?_map, ha, Option.map_some, Option.map_eq_some_iff] using hplace

private theorem length_eq_of_map_eq {α κ : Type} {key : α → κ} {l l' : List α} (h : l.map key = l'.map key) :
    l.length = l'.length := by
  simpa only [List.length_map] using congrArg List.length h

/-! ### Steps that run alike -/

namespace Step

variable {I : σ → Prop} {x y x' y' : Step σ Unit}

/-- From states of `I` both steps run alike, and they end in states of `I` if they succeed.  What a step that fails
leaves need not be in `I`. -/
def Agree (I : σ → Prop) (x y : Step σ Unit) : Prop :=
  ∀ s, I s → x.run s = y.run s ∧ ∀ s', Yields y s () s' → I s'

private theorem agree_pure : Agree I (pure ()) (pure ()) := by
  refine fun s hs => ⟨rfl, fun s' hy => ?_⟩
  rw [(yields_pure.1 hy).2]
  exact hs

private theorem Agree.run_bind (h : Agree I x y) {s : σ} (hs : I s) (hf : ∀ t, I t → x'.run t = y'.run t) :
    (x >>= fun _ => x').run s = (y >>= fun _ => y').run s := by
  obtain ⟨hrun, hkeeps⟩ := h s hs
  rw [Step.run_bind, Step.run_bind, hrun]
  rcases hy : y.run s with ⟨failure | ⟨⟩, t⟩
  · rfl
  · exact hf t (hkeeps t hy)

private theorem Agree.bind (h : Agree I x y) (h' : Agree I x' y') :
    Agree I (x >>= fun _ => x') (y >>= fun _ => y') := by
  refine fun s hs => ⟨h.run_bind hs fun t ht => (h' t ht).1, fun s' hy => ?_⟩
  obtain ⟨_, t, hfirst, hsecond⟩ := yields_bind.1 hy
  exact (h' t ((h s hs).2 t hfirst)).2 s' hsecond

private theorem agree_get_bind {f : σ → Step σ Unit} (h : ∀ s, I s → Agree I (f s) y) : Agree I (get >>= f) y :=
  fun s hs => h s hs s hs

variable {α : Type} {f g : α → Step σ Unit}

private theorem agree_forM {l : List α} (h : ∀ a ∈ l, Agree I (f a) (g a)) : Agree I (forM l f) (forM l g) := by
  induction l with
  | nil => exact agree_pure
  | cons a l ih =>
    rw [List.forM_cons, List.forM_cons]
    exact (h a List.mem_cons_self).bind (ih fun b hb => h b (List.mem_cons_of_mem a hb))

/-- To count down over the places of a list is to go through the list from its end. -/
private theorem agree_countdown {visit : Nat → Step σ Unit} {l : List α}
    (h : ∀ k a, l[k]? = some a → Agree I (visit k) (g a)) :
    Agree I (countdown visit l.length) (forM l.reverse g) := by
  induction l using List.reverseRecOn with
  | nil => exact agree_pure
  | append_singleton l a ih =>
    rw [List.length_append, List.reverse_append]
    refine (h l.length a (by simp)).bind (ih fun k b hb => h k b ?_)
    rw [List.getElem?_append_left (List.getElem?_eq_some_iff.1 hb).1, hb]

private theorem forM_eq_of_map {β : Type} {l : List α} {l' : List β} {f : α → Step σ Unit} {g : β → Step σ Unit}
    (h : l.map f = l'.map g) : forM l f = forM l' g := by
  induction l generalizing l' with
  | nil => rw [List.map_eq_nil_iff.1 h.symm, List.forM_nil, List.forM_nil]
  | cons a l ih =>
    obtain ⟨b, l', rfl, hb, hl⟩ := List.map_eq_cons_iff.1 h.symm
    rw [List.forM_cons, List.forM_cons, hb, ih hl.symm]

private theorem forM_flatMap {β : Type} (l : List α) (F : α → List β) (g : β → Step σ Unit) :
    forM (l.flatMap F) g = forM l fun a => forM (F a) g := by
  induction l with
  | nil => rfl
  | cons a l ih => rw [List.flatMap_cons, List.forM_append, ih, List.forM_cons]

end Step

/-! ### The visits of a walk -/

namespace Walk

open Step

/-- The types and members of the module are those of `m`, whatever may have been changed in them. -/
def Stands (view : σ → Module) (m : Module) (s : σ) : Prop :=
  (view s).inventory = m.inventory

variable {view : σ → Module} {vs : List (Visitor σ)} {m : Module} {t : TypeDecl}

private theorem agree_inTurn {I : σ → Prop} {isPresent : Module → Bool} {visit : Visitor σ → Step σ Unit}
    (hpresent : ∀ s, I s → isPresent (view s)) (hvisit : ∀ v ∈ vs, Agree I (visit v) (visit v)) :
    Agree I (inTurn view isPresent visit vs) (forM vs visit) := by
  induction vs with
  | nil => exact agree_pure
  | cons v vs ih =>
    rw [List.forM_cons]
    refine agree_get_bind fun s hs => ?_
    rw [if_pos (hpresent s hs)]
    exact (hvisit v List.mem_cons_self).bind (ih fun u hu => hvisit u (List.mem_cons_of_mem v hu))

private theorem agree_hook (hvs : ∀ v ∈ vs, v.KeepsMembers view) {h : Hook} (hh : h ≠ .complete) :
    ∀ v ∈ vs, Agree (Stands view m) (v.hook h) (v.hook h) :=
  fun v hv s hs => ⟨rfl, fun s' hy => (hvs v hv h hh s s' hy).trans hs⟩

private theorem agree_visitMethods (hvs : ∀ v ∈ vs, v.KeepsMembers view) (ht : m.type? t.id = some t) :
    Agree (Stands view m) (visitMethods view vs t.id)
      (forM (t.methods.map fun x => Hook.onMethod x.id).reverse fun h => forM vs fun v => v.hook h) := by
  have hmethods : membersOf (·.methods) t.id m = t.methods := by rw [membersOf, ht]; rfl
  have hids (s : σ) (hs : Stands view m s) :
      (membersOf (·.methods) t.id (view s)).map (·.id) = t.methods.map (·.id) := by
    rw [(Module.alike_of_inventory hs).methods, hmethods]
  refine agree_get_bind fun s hs => ?_
  rw [length_eq_of_map_eq (hids s hs), ← List.length_map (fun x : Method => Hook.onMethod x.id)]
  refine agree_countdown fun k h hk => agree_get_bind fun s hs => ?_
  rw [List.getElem?_map, Option.map_eq_some_iff] at hk
  obtain ⟨x, hx, rfl⟩ := hk
  -- the method may have been changed since, but not its identifier
  obtain ⟨y, hy, hid⟩ := exists_getElem?_of_map_eq (hids s hs) hx
  rw [hy]
  simp only [hid]
  refine agree_inTurn (fun s hs => ?_) (agree_hook hvs (h := .onMethod x.id) (by simp))
  rw [(Module.alike_of_inventory hs).method?, Module.isSome_method?_iff]
  exact ⟨t.roster, List.mem_map_of_mem (List.mem_of_find?_eq_some ht), List.mem_map_of_mem (List.mem_of_getElem? hx)⟩

private theorem agree_visitPlaces {α : Type} {members : TypeDecl → List α} {hook : Nat → Hook}
    (ht : m.type? t.id = some t)
    (hlength : ∀ s, Stands view m s →
      (membersOf members t.id (view s)).length = (membersOf members t.id m).length)
    (hvs : ∀ n, ∀ v ∈ vs, Agree (Stands view m) (v.hook (hook n)) (v.hook (hook n))) :
    Agree (Stands view m)
      (visitPlaces view vs members (fun v n => v.hook (hook n)) t.id)
      (forM ((List.range (members t).length).map hook).reverse fun h => forM vs fun v => v.hook h) := by
  have hmembers : membersOf members t.id m = members t := by rw [membersOf, ht]; rfl
  have hcount (s : σ) (hs : Stands view m s) :
      (membersOf members t.id (view s)).length = ((List.range (members t).length).map hook).length := by
    rw [hlength s hs, hmembers, List.length_map, List.length_range]
  refine agree_get_bind fun s hs => ?_
  rw [hcount s hs]
  refine agree_countdown fun k h hk => ?_
  obtain ⟨hlt, rfl⟩ := List.getElem?_eq_some_iff.1 hk
  rw [List.getElem_map, List.getElem_range]
  refine agree_inTurn (fun s hs => ?_) (hvs k)
  rw [decide_eq_true_eq, hcount s hs]
  exact hlt

private theorem agree_visitType (hvs : ∀ v ∈ vs, v.KeepsMembers view) (ht : m.type? t.id = some t) :
    Agree (Stands view m) (visitType view vs t.id)
      (forM t.hooks fun h => forM vs fun v => v.hook h) := by
  rw [TypeDecl.hooks, List.forM_cons, List.forM_append, List.forM_append]
  have htype := agree_hook (m := m) hvs (h := .onType t.id) (by simp)
  have hfields (n : Nat) := agree_hook (m := m) hvs (h := .onField t.id n) (by simp)
  have hproperties (n : Nat) := agree_hook (m := m) hvs (h := .onProperty t.id n) (by simp)
  refine (agree_forM htype).bind ((agree_visitMethods hvs ht).bind (Agree.bind ?_ ?_))
  · exact agree_visitPlaces ht (fun s hs => (Module.alike_of_inventory hs).fields t.id) hfields
  · exact agree_visitPlaces ht (fun s hs => (Module.alike_of_inventory hs).properties t.id) hproperties

private theorem agree_visitTypes (hvs : ∀ v ∈ vs, v.KeepsMembers view) :
    Agree (Stands view m) (visitTypes view vs)
      (forM (m.asFound.types.reverse.flatMap (·.hooks)) fun h => forM vs fun v => v.hook h) := by
  have hids (s : σ) (hs : Stands view m s) :
      (view s).types.map (·.id) = m.asFound.types.map (·.id) := by
    rw [(Module.alike_of_inventory hs).types, m.map_id_asFound]
  rw [forM_flatMap]
  refine agree_get_bind fun s hs => ?_
  rw [length_eq_of_map_eq (hids s hs)]
  refine agree_countdown fun k t hk => agree_get_bind fun s hs => ?_
  obtain ⟨u, hu, hid⟩ := exists_getElem?_of_map_eq (hids s hs) hk
  rw [hu]
  simp only [hid]
  exact agree_visitType hvs (Module.type?_of_mem_asFound (List.mem_of_getElem? hk))

/-- A walk calls the visitors at the hooks of the module that it starts with. -/
private theorem run_walk (hvs : ∀ v ∈ vs, v.KeepsMembers view) (s : σ) :
    (walk view vs).run s =
      (forM (view s).asFound.hooks fun h => forM vs fun v : Visitor σ => v.hook h : Step σ Unit).run s := by
  have hlast : (forM [Hook.complete] fun h => forM vs fun v : Visitor σ => v.hook h) =
      forM vs fun v : Visitor σ => v.complete := by
    rw [List.forM_cons]
    exact bind_pure _
  have hbefore := agree_hook (m := view s) hvs (h := .before) (by simp)
  have hmodule := agree_hook (m := view s) hvs (h := .onModule) (by simp)
  unfold Module.hooks
  rw [List.forM_cons, List.forM_cons, List.forM_append, hlast]
  exact (agree_forM hbefore).run_bind rfl fun t ht => (agree_forM hmodule).run_bind ht fun t ht =>
    (agree_visitTypes hvs).run_bind ht fun _ _ => rfl

end Walk

/-! ### Visits that are written down -/

namespace Visit

open Step

variable {vs : List (Visitor σ)} {xs log log' : List Visit} {failure : Failure} {s s' : σ}

private theorem run_logging_eq_iff {x : Visit} {step : Step σ Unit} {result : Except Failure Unit} :
    (step.logging x).run (s, log) = (result, s', log') ↔ step.run s = (result, s') ∧ log' = log ++ [x] := by
  have hrun : (step.logging x).run (s, log) = ((step.run s).1, (step.run s).2, log ++ [x]) := rfl
  rw [hrun]
  constructor
  · intro h
    cases h
    exact ⟨rfl, rfl⟩
  · rintro ⟨h, rfl⟩
    rw [h]

private theorem yields_forM_logging : Yields (forM xs fun x => (x.perform vs).logging x) (s, log) () (s', log') ↔
    Run vs xs s s' ∧ log' = log ++ xs := by
  induction xs generalizing s log with
  | nil =>
    rw [yields_forM_nil, List.append_nil, Prod.mk.injEq]
    constructor
    · rintro ⟨rfl, rfl⟩
      exact ⟨.nil _, rfl⟩
    · rintro ⟨⟨_⟩, rfl⟩
      exact ⟨rfl, rfl⟩
  | cons x xs ih =>
    rw [yields_forM_cons]
    constructor
    · rintro ⟨⟨t, _⟩, hfirst, hrest⟩
      obtain ⟨hx, rfl⟩ := run_logging_eq_iff.1 hfirst
      obtain ⟨hxs, rfl⟩ := ih.1 hrest
      exact ⟨.cons hx hxs, by simp⟩
    · rintro ⟨_ | ⟨hfirst, hrest⟩, rfl⟩
      exact ⟨_, run_logging_eq_iff.2 ⟨hfirst, rfl⟩, ih.2 ⟨hrest, by simp⟩⟩

private theorem fails_forM_logging : Fails (forM xs fun x => (x.perform vs).logging x) (s, log) failure (s', log') ↔
    ∃ k x t, xs[k]? = some x ∧ Run vs (xs.take k) s t ∧ Fails (x.perform vs) t failure s' ∧
      log' = log ++ xs.take (k + 1) := by
  induction xs generalizing s log with
  | nil => simp
  | cons x xs ih =>
    rw [fails_forM_cons]
    constructor
    · rintro (hfirst | ⟨⟨t, _⟩, hfirst, hrest⟩)
      · obtain ⟨hx, rfl⟩ := run_logging_eq_iff.1 hfirst
        exact ⟨0, x, s, rfl, .nil s, hx, rfl⟩
      · obtain ⟨hx, rfl⟩ := run_logging_eq_iff.1 hfirst
        obtain ⟨k, y, u, hy, hrun, hfail, rfl⟩ := ih.1 hrest
        exact ⟨k + 1, y, u, hy, .cons hx hrun, hfail, by simp⟩
    · rintro ⟨_ | k, y, u, hy, hrun, hfail, rfl⟩
      · cases hy
        cases hrun
        exact .inl (run_logging_eq_iff.2 ⟨hfail, rfl⟩)
      · obtain _ | ⟨hfirst, hrun⟩ := hrun
        exact .inr ⟨_, run_logging_eq_iff.2 ⟨hfirst, rfl⟩, ih.2 ⟨k, y, u, hy, hrun, hfail, by simp⟩⟩

end Visit

namespace Visitor

variable {view : σ → Module}

/-- A visitor that logs its visits does what it does without. -/
private theorem matches_logged (v : Visitor σ) (k : Nat) :
    Visitor.Matches (fun s (t : σ × List Visit) => t.1 = s) v (v.logged k) := by
  refine matches_of_hook fun h => ?_
  rw [logged, hook_ofHooks]
  rintro _ t rfl
  exact ⟨rfl, rfl⟩

theorem KeepsMembers.logged {v : Visitor σ} (hv : v.KeepsMembers view) (k : Nat) :
    (v.logged k).KeepsMembers fun t => view t.1 := by
  rintro h hh ⟨s, log⟩ ⟨s', log'⟩ hy
  rw [Visitor.logged, hook_ofHooks] at hy
  exact hv h hh s s' (Visit.run_logging_eq_iff.1 hy).1

end Visitor

namespace Walk

open Step

variable {view : σ → Module} {vs : List (Visitor σ)}

/-- The visits at one hook are one by each of the visitors. -/
private theorem forM_hook_logged (vs : List (Visitor σ)) (h : Hook) :
    (forM (vs.mapIdx fun k v => v.logged k) fun v => v.hook h : Step (σ × List Visit) Unit) =
      forM ((List.range vs.length).map fun k => Visit.mk k h) fun x : Visit => (x.perform vs).logging x := by
  refine forM_eq_of_map (List.ext_getElem (by simp) fun k hk hk' => ?_)
  have hlt : k < vs.length := by simpa using hk
  simp [Visitor.logged, Visitor.hook_ofHooks, Visit.perform, hlt]

/-- A walk that writes down its visits makes those of its plan. -/
private theorem run_logged (hvs : ∀ v ∈ vs, v.KeepsMembers view) (s : σ) (log : List Visit) :
    (logged view vs).run (s, log) =
      (forM (plan view vs s) fun x : Visit => (x.perform vs).logging x : Step _ _).run (s, log) := by
  have hkeeps : ∀ v ∈ vs.mapIdx fun k v => v.logged k, v.KeepsMembers fun t : σ × List Visit => view t.1 := by
    intro v hv
    obtain ⟨k, hk, rfl⟩ := List.mem_mapIdx.1 hv
    exact (hvs _ (List.getElem_mem hk)).logged k
  rw [logged, run_walk hkeeps, plan, Module.itinerary, forM_flatMap]
  simp only [forM_hook_logged]

private theorem lockstep_logged (view : σ → Module) (vs : List (Visitor σ)) (s : σ) (log : List Visit) :
    Lockstep (fun s (t : σ × List Visit) => t.1 = s) (walk view vs) (logged view vs) s (s, log) := by
  have hvisitors : List.Forall₂ (Visitor.Matches fun s (t : σ × List Visit) => t.1 = s) vs
      (vs.mapIdx fun k v => v.logged k) :=
    List.forall₂_iff_get.2 ⟨by simp, fun k hk hk' => by simpa using Visitor.matches_logged vs[k] k⟩
  refine matches_walk_of_visitors (fun s t hst => ?_) hvisitors s (s, log) rfl
  rw [hst]
  exact .refl _

/-- If no visitor adds or removes types or members, a walk makes the visits of its plan, in order, and stops at the
first that fails.  It does what the walk does that writes down its visits.  That walk succeeds if and only if all
visits of the plan do, one after the other, and then it has made them all.  It fails if and only if one of the visits
does, when all in front of it have succeeded; then it fails as this visit does, and has made those in front and this
one.  Where each type has an identifier of its own, the plan is the itinerary of the module. -/
theorem visits_exact (hvs : ∀ v ∈ vs, v.KeepsMembers view) (s : σ) :
    (walk view vs).run s = (((logged view vs).run (s, [])).1, ((logged view vs).run (s, [])).2.1) ∧
    (∀ s' log, Yields (logged view vs) (s, []) () (s', log) ↔
      Visit.Run vs (plan view vs s) s s' ∧ log = plan view vs s) ∧
    (∀ failure s' log, Fails (logged view vs) (s, []) failure (s', log) ↔
      ∃ k x t, (plan view vs s)[k]? = some x ∧ Visit.Run vs ((plan view vs s).take k) s t ∧
        Fails (x.perform vs) t failure s' ∧ log = (plan view vs s).take (k + 1)) ∧
    (((view s).types.map (·.id)).Nodup → plan view vs s = (view s).itinerary vs.length) := by
  refine ⟨?_, fun s' log => ?_, fun failure s' log => ?_, fun hids => ?_⟩
  · obtain ⟨hresult, hstate⟩ := lockstep_logged view vs s []
    exact Prod.ext hresult.symm hstate.symm
  · rw [Yields, run_logged hvs]
    exact Visit.yields_forM_logging
  · rw [Fails, run_logged hvs]
    exact Visit.fails_forM_logging
  · rw [plan, Module.asFound_eq hids]

end Walk

namespace Sample

/-- A type with two methods, a field and a property, and one without members. -/
def manyMembers : Module where
  name := "m"
  types := [
    { id := ⟨0⟩
      name := "A"
      methods := [{ id := ⟨0⟩, name := "F", ret := .void }, { id := ⟨1⟩, name := "G", ret := .void }]
      fields := [{ name := "x", type := .int32 }]
      properties := [{ name := "P", type := .int32 }] },
    { id := ⟨1⟩, name := "B" }]
  ids := ⟨2, 2⟩

/-- The module with all fields public. -/
def exposed (m : Module) : Module :=
  { m with types := m.types.map fun t => { t with fields := t.fields.map ({ · with access := .pub }) } }

/-- A visitor that makes fields public when it is shown a type. -/
def exposer : Visitor Module where
  name := "exposer"
  onType _ := modify exposed

/-- A visitor that fails at the method `F`. -/
def stopper : Visitor Module where
  name := "stopper"
  onMethod id := if id = ⟨0⟩ then throw (.unknownMethod id) else pure ()

/-- What is visited up to the method `F`, when the exposer comes before the stopper. -/
def stoppedVisits : List Visit :=
  [⟨0, .before⟩, ⟨1, .before⟩, ⟨0, .onModule⟩, ⟨1, .onModule⟩, ⟨0, .onType ⟨1⟩⟩, ⟨1, .onType ⟨1⟩⟩,
    ⟨0, .onType ⟨0⟩⟩, ⟨1, .onType ⟨0⟩⟩, ⟨0, .onMethod ⟨1⟩⟩, ⟨1, .onMethod ⟨1⟩⟩, ⟨0, .onMethod ⟨0⟩⟩, ⟨1, .onMethod ⟨0⟩⟩]

private theorem keepsMembers_exposer : exposer.KeepsMembers id := by
  have hexposed (m : Module) : (exposed m).inventory = m.inventory := by
    simp [exposed, Module.inventory, TypeDecl.inventory, Function.comp_def]
  intro h _ m m' hy
  cases h with
  | onType t => exact Step.yields_modify.1 hy ▸ hexposed m
  | _ => rw [(Step.yields_pure.1 hy).2]

private theorem keepsMembers_stopper : stopper.KeepsMembers id := by
  intro h _ m m' hy
  cases h with
  | onMethod id =>
    change Step.Yields (if id = ⟨0⟩ then throw (.unknownMethod id) else pure ()) m () m' at hy
    split at hy
    · cases Step.yields_throw hy
    · rw [(Step.yields_pure.1 hy).2]
  | _ => rw [(Step.yields_pure.1 hy).2]

end Sample

/-- The walk stops at the method `F`: the types and the method behind have been visited, the field and the property
have not. -/
theorem Walk.visits_exact_stopped :
    (∀ v ∈ [Sample.exposer, Sample.stopper], v.KeepsMembers id) ∧
    Step.Fails (logged id [Sample.exposer, Sample.stopper]) (Sample.manyMembers, []) (.unknownMethod ⟨0⟩)
      (Sample.exposed Sample.manyMembers, Sample.stoppedVisits) ∧
    (∃ k x t, (Sample.manyMembers.itinerary 2)[k]? = some x ∧
      Visit.Run [Sample.exposer, Sample.stopper] ((Sample.manyMembers.itinerary 2).take k) Sample.manyMembers t ∧
      Step.Fails (x.perform [Sample.exposer, Sample.stopper]) t (.unknownMethod ⟨0⟩)
        (Sample.exposed Sample.manyMembers) ∧
      Sample.stoppedVisits = (Sample.manyMembers.itinerary 2).take (k + 1)) := by
  have hkeeps : ∀ v ∈ [Sample.exposer, Sample.stopper], v.KeepsMembers id := by
    simp [Sample.keepsMembers_exposer, Sample.keepsMembers_stopper]
  have hfails : Step.Fails (logged id [Sample.exposer, Sample.stopper]) (Sample.manyMembers, []) (.unknownMethod ⟨0⟩)
      (Sample.exposed Sample.manyMembers, Sample.stoppedVisits) := rfl
  obtain ⟨-, -, hexact, hplan⟩ := visits_exact hkeeps Sample.manyMembers
  have hstops := (hexact _ _ _).1 hfails
  rw [hplan (by decide)] at hstops
  exact ⟨hkeeps, hfails, hstops⟩

end AdviceWeaving
