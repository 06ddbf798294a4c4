import AdviceWeaving.Proofs.Steps
import Mathlib.Data.List.Forall2

/-!
# Two runs side by side

`Step.Lockstep` compares a step on one state with a step on another, maybe of another kind: both have the same result,
a failure included, and leave states that are related again.  Steps that are in lockstep on all related states
`Matches` one another, and a step `Respects` a relation if it matches itself.  The rules follow the way in which steps
are put together, up to a walk; there the two modules must look alike to a walk (`Module.Alike`).

With a relation that only a state and itself can have, to respect it is to keep a property of states, whether the step
succeeds or not (`Step.Keeps`, `Walk.keeps_walk`).
-/

namespace AdviceWeaving

namespace Step

variable {σ τ α β : Type} {Q : σ → τ → Prop} {s : σ} {t : τ}

/-- Both steps have the same result, and leave related states. -/
def Lockstep (Q : σ → τ → Prop) (x : Step σ α) (y : Step τ α) (s : σ) (t : τ) : Prop :=
  (y.run t).1 = (x.run s).1 ∧ Q (x.run s).2 (y.run t).2

/-- On related states the step has the same result, and leaves related states. -/
def Respects (Q : σ → σ → Prop) (x : Step σ α) : Prop :=
  ∀ s t, Q s t → Lockstep Q x x s t

/-- On related states the two steps have the same result, and leave related states. -/
def Matches (Q : σ → τ → Prop) (x : Step σ α) (y : Step τ α) : Prop :=
  ∀ s t, Q s t → Lockstep Q x y s t

variable {x : Step σ α} {y : Step τ α}

theorem Lockstep.yields (h : Lockstep Q x y s t) {a : α} {s' : σ}
    (hx : Yields x s a s') : ∃ t', Yields y t a t' ∧ Q s' t' := by
  obtain ⟨hresult, hstate⟩ := h
  rw [show x.run s = (.ok a, s') from hx] at hresult hstate
  exact ⟨(y.run t).2, Prod.ext hresult rfl, hstate⟩

/-- The step keeps a property of states, whether it succeeds or not. -/
def Keeps (I : σ → Prop) (x : Step σ α) : Prop :=
  ∀ s, I s → I (x.run s).2

private theorem Respects.keeps {I : σ → Prop} (h : Respects (fun s t => t = s ∧ I s) x) : Keeps I x :=
  fun s hs => (h s s ⟨rfl, hs⟩).2.2

theorem Keeps.respects {I : σ → Prop} (h : Keeps I x) : Respects (fun s t => t = s ∧ I s) x := by
  rintro s _ ⟨rfl, hs⟩
  exact ⟨rfl, rfl, h _ hs⟩

/-! ### Single steps -/

private theorem matches_pure (a : α) : Matches Q (pure a : Step σ α) (pure a : Step τ α) :=
  fun _ _ h => ⟨rfl, h⟩

theorem Lockstep.bind {f : α → Step σ β} {g : α → Step τ β} (h : Lockstep Q x y s t)
    (hf : ∀ a s' t', Yields x s a s' → Q s' t' → Lockstep Q (f a) (g a) s' t') :
    Lockstep Q (x >>= f) (y >>= g) s t := by
  obtain ⟨hresult, hstate⟩ := h
  unfold Lockstep
  rw [run_bind, run_bind]
  rcases hx : x.run s with ⟨failure | a, s'⟩ <;> rcases hy : y.run t with ⟨failure' | a', t'⟩ <;>
    rw [hx, hy] at hresult hstate <;> cases hresult
  · exact ⟨rfl, hstate⟩
  · exact hf a s' t' hx hstate

theorem Matches.bind {f : α → Step σ β} {g : α → Step τ β} (h : Matches Q x y)
    (hf : ∀ a, Matches Q (f a) (g a)) : Matches Q (x >>= f) (y >>= g) :=
  fun s t hst => (h s t hst).bind fun a s' t' _ h => hf a s' t' h

private theorem matches_get_bind {f : σ → Step σ α} {g : τ → Step τ α} (h : ∀ s t, Q s t → Lockstep Q (f s) (g t) s t) :
    Matches Q (get >>= f) (get >>= g) := h

section

variable {Q : σ → σ → Prop}

theorem respects_pure (a : α) : Respects Q (pure a : Step σ α) :=
  matches_pure a

theorem respects_throw (failure : Failure) : Respects Q (throw failure : Step σ α) :=
  fun _ _ h => ⟨rfl, h⟩

theorem Respects.bind {x : Step σ α} {f : α → Step σ β} (hx : Respects Q x)
    (hf : ∀ a, Respects Q (f a)) : Respects Q (x >>= f) :=
  Matches.bind hx hf

theorem Respects.map {x : Step σ α} (f : α → β) (hx : Respects Q x) : Respects Q (f <$> x) := by
  rw [← bind_pure_comp]
  exact hx.bind fun a => respects_pure (f a)

theorem respects_get_bind {f : σ → Step σ α} (h : ∀ s t, Q s t → Lockstep Q (f s) (f t) s t) :
    Respects Q (get >>= f) := h

theorem respects_ite {c : Prop} [Decidable c] {x y : Step σ α} (hx : Respects Q x)
    (hy : Respects Q y) : Respects Q (if c then x else y) := by
  split
  · exact hx
  · exact hy

end

/-! ### Steps that keep a property -/

section

variable {I : σ → Prop} {f : α → Step σ β}

theorem keeps_pure (a : α) : Keeps I (pure a : Step σ α) :=
  fun _ hs => hs

/-- What comes of two steps, if the second is reached or if it is not. -/
theorem bind_induction {s : σ} (hx : I (x.run s).2) (hf : ∀ a s', Yields x s a s' → I s' → I ((f a).run s').2) :
    I ((x >>= f).run s).2 := by
  rw [run_bind]
  rcases hrun : x.run s with ⟨failure | a, s'⟩ <;> rw [hrun] at hx
  · exact hx
  · exact hf a s' hrun hx

theorem Keeps.bind (hx : Keeps I x) (hf : ∀ a, Keeps I (f a)) : Keeps I (x >>= f) :=
  fun s hs => bind_induction (hx s hs) fun a s' _ hs' => hf a s' hs'

theorem Keeps.map (g : α → β) (hx : Keeps I x) : Keeps I (g <$> x) := by
  rw [← bind_pure_comp]
  exact hx.bind fun a => keeps_pure (g a)

theorem keeps_get_bind {g : σ → Step σ α} (h : ∀ s, I s → I ((g s).run s).2) : Keeps I (get >>= g) :=
  h

theorem keeps_modify {g : σ → σ} (h : ∀ s, I s → I (g s)) : Keeps I (modify g : Step σ Unit) :=
  h

theorem keeps_forM {g : α → Step σ Unit} {l : List α} (h : ∀ a ∈ l, Keeps I (g a)) : Keeps I (forM l g) := by
  induction l with
  | nil => exact keeps_pure ()
  | cons a l ih =>
    rw [List.forM_cons]
    exact (h a List.mem_cons_self).bind fun _ => ih fun b hb => h b (List.mem_cons_of_mem a hb)

end

/-! ### Loops -/

private theorem matches_forM {γ δ : Type} {f : γ → Step σ Unit} {g : δ → Step τ Unit} {l : List γ} {l' : List δ}
    (h : List.Forall₂ (fun a b => Matches Q (f a) (g b)) l l') : Matches Q (forM l f) (forM l' g) := by
  induction h with
  | nil => exact matches_pure ()
  | cons hab _ ih =>
    rw [List.forM_cons, List.forM_cons]
    exact hab.bind fun _ => ih

theorem respects_forM {Q : σ → σ → Prop} {f : α → Step σ Unit} {l : List α}
    (h : ∀ a ∈ l, Respects Q (f a)) : Respects Q (forM l f) :=
  matches_forM (List.forall₂_same.2 h)

private theorem matches_countdown {visit : Nat → Step σ Unit} {visit' : Nat → Step τ Unit}
    (h : ∀ n, Matches Q (visit n) (visit' n)) (n : Nat) : Matches Q (countdown visit n) (countdown visit' n) := by
  induction n with
  | zero => exact matches_pure ()
  | succ n ih => exact (h n).bind fun _ => ih

end Step

/-! ### Walks -/

/-- A walk passes the same stations in both modules. -/
structure Module.Alike (m n : Module) : Prop where
  types : n.types.map (·.id) = m.types.map (·.id)
  methods : ∀ id, (Walk.membersOf (·.methods) id n).map (·.id) =
    (Walk.membersOf (·.methods) id m).map (·.id)
  fields : ∀ id, (Walk.membersOf (·.fields) id n).length = (Walk.membersOf (·.fields) id m).length
  properties : ∀ id, (Walk.membersOf (·.properties) id n).length =
    (Walk.membersOf (·.properties) id m).length
  method? : ∀ id, (n.method? id).isSome = (m.method? id).isSome

theorem Module.Alike.refl (m : Module) : m.Alike m :=
  ⟨rfl, fun _ => rfl, fun _ => rfl, fun _ => rfl, fun _ => rfl⟩

namespace Walk

open Step

variable {σ τ : Type} {Q : σ → τ → Prop} {view : σ → Module} {view' : τ → Module} {vs : List (Visitor σ)}
  {vs' : List (Visitor τ)}

private theorem matches_inTurn {isPresent : Module → Bool} {visit : Visitor σ → Step σ Unit}
    {visit' : Visitor τ → Step τ Unit} (hpresent : ∀ s t, Q s t → isPresent (view' t) = isPresent (view s))
    (hvisit : List.Forall₂ (fun v v' => Matches Q (visit v) (visit' v')) vs vs') :
    Matches Q (inTurn view isPresent visit vs) (inTurn view' isPresent visit' vs') := by
  induction hvisit with
  | nil => exact matches_pure ()
  | cons hv _ ih =>
    refine matches_get_bind fun s t hst => ?_
    rw [hpresent s t hst]
    cases isPresent (view s) with
    | false => exact matches_pure () s t hst
    | true => exact (hv.bind fun _ => ih) s t hst

/-- The methods of a type are shown alike to two lists of visitors, if each method is. -/
theorem matches_visitMethods (hview : ∀ s t, Q s t → (view s).Alike (view' t))
    (hturn : ∀ id, Matches Q (inTurn view (fun m => (m.method? id).isSome) (·.onMethod id) vs)
      (inTurn view' (fun m => (m.method? id).isSome) (·.onMethod id) vs')) (id : TypeId) :
    Matches Q (visitMethods view vs id) (visitMethods view' vs' id) := by
  refine matches_get_bind fun s t hst => ?_
  have hlength := congrArg List.length ((hview s t hst).methods id)
  rw [List.length_map, List.length_map] at hlength
  rw [hlength]
  refine matches_countdown (fun n => matches_get_bind fun s t hst => ?_) _ s t hst
  -- the methods at the place may differ, but not their identifiers
  have hplace := congrArg (·[n]?) ((hview s t hst).methods id)
  simp only [List.getElem?_map] at hplace
  cases hx : (membersOf (·.methods) id (view s))[n]? with
  | none =>
    rw [hx, Option.map_none, Option.map_eq_none_iff] at hplace
    rw [hplace]
    exact matches_pure () s t hst
  | some x =>
    rw [hx, Option.map_some, Option.map_eq_some_iff] at hplace
    obtain ⟨y, hy, hid⟩ := hplace
    rw [hy]
    simp only [hid]
    exact hturn x.id s t hst

/-- So are the members that are known by their places. -/
theorem matches_visitPlaces {α : Type} {members : TypeDecl → List α} {id : TypeId}
    (hmembers : ∀ s t, Q s t →
      (membersOf members id (view' t)).length = (membersOf members id (view s)).length)
    {visit : Visitor σ → Nat → Step σ Unit} {visit' : Visitor τ → Nat → Step τ Unit}
    (hturn : ∀ n, Matches Q (inTurn view (fun m => n < (membersOf members id m).length) (visit · n) vs)
      (inTurn view' (fun m => n < (membersOf members id m).length) (visit' · n) vs')) :
    Matches Q (visitPlaces view vs members visit id) (visitPlaces view' vs' members visit' id) := by
  refine matches_get_bind fun s t hst => ?_
  rw [hmembers s t hst]
  exact matches_countdown hturn _ s t hst

/-- So are all types, if each type is. -/
theorem matches_visitTypes (hview : ∀ s t, Q s t → (view s).Alike (view' t))
    (htype : ∀ id, Matches Q (visitType view vs id) (visitType view' vs' id)) :
    Matches Q (visitTypes view vs) (visitTypes view' vs') := by
  refine matches_get_bind fun s t hst => ?_
  have hlength := congrArg List.length (hview s t hst).types
  rw [List.length_map, List.length_map] at hlength
  rw [hlength]
  refine matches_countdown (fun n => matches_get_bind fun s t hst => ?_) _ s t hst
  have hplace := congrArg (·[n]?) (hview s t hst).types
  simp only [List.getElem?_map] at hplace
  cases ht : (view s).types[n]? with
  | none =>
    rw [ht, Option.map_none, Option.map_eq_none_iff] at hplace
    rw [hplace]
    exact matches_pure () s t hst
  | some d =>
    rw [ht, Option.map_some, Option.map_eq_some_iff] at hplace
    obtain ⟨e, he, hid⟩ := hplace
    rw [he]
    simp only [hid]
    exact htype d.id s t hst

end Walk

/-- What one visitor does matches what the other does, at all stations of a walk. -/
structure Visitor.Matches {σ τ : Type} (Q : σ → τ → Prop) (v : Visitor σ) (v' : Visitor τ) : Prop where
  before : Step.Matches Q v.before v'.before
  onModule : Step.Matches Q v.onModule v'.onModule
  onType : ∀ id, Step.Matches Q (v.onType id) (v'.onType id)
  onMethod : ∀ id, Step.Matches Q (v.onMethod id) (v'.onMethod id)
  onField : ∀ id n, Step.Matches Q (v.onField id n) (v'.onField id n)
  onProperty : ∀ id n, Step.Matches Q (v.onProperty id n) (v'.onProperty id n)
  complete : Step.Matches Q v.complete v'.complete

/-- Walks with visitors that match in pairs match. -/
theorem Walk.matches_walk_of_visitors {σ τ : Type} {Q : σ → τ → Prop} {view : σ → Module} {view' : τ → Module}
    {vs : List (Visitor σ)} {vs' : List (Visitor τ)} (hview : ∀ s t, Q s t → (view s).Alike (view' t))
    (hvs : List.Forall₂ (Visitor.Matches Q) vs vs') : Step.Matches Q (walk view vs) (walk view' vs') := by
  have hmethods := matches_visitMethods hview fun id =>
    matches_inTurn (fun s t hst => by rw [(hview s t hst).method? id]) (hvs.imp fun _ _ h => h.onMethod id)
  have hfields (id : TypeId) : Step.Matches Q (visitPlaces view vs (·.fields) (·.onField id) id)
      (visitPlaces view' vs' (·.fields) (·.onField id) id) :=
    matches_visitPlaces (fun s t hst => (hview s t hst).fields id) fun n =>
      matches_inTurn (fun s t hst => by rw [(hview s t hst).fields id]) (hvs.imp fun _ _ h => h.onField id n)
  have hproperties (id : TypeId) : Step.Matches Q (visitPlaces view vs (·.properties) (·.onProperty id) id)
      (visitPlaces view' vs' (·.properties) (·.onProperty id) id) :=
    matches_visitPlaces (fun s t hst => (hview s t hst).properties id) fun n =>
      matches_inTurn (fun s t hst => by rw [(hview s t hst).properties id])
        (hvs.imp fun _ _ h => h.onProperty id n)
  have htypes := matches_visitTypes hview fun id =>
    (Step.matches_forM (hvs.imp fun _ _ h => h.onType id)).bind fun _ =>
      (hmethods id).bind fun _ => (hfields id).bind fun _ => hproperties id
  refine (Step.matches_forM (hvs.imp fun _ _ h => h.before)).bind fun _ => ?_
  refine (Step.matches_forM (hvs.imp fun _ _ h => h.onModule)).bind fun _ => ?_
  exact htypes.bind fun _ => Step.matches_forM (hvs.imp fun _ _ h => h.complete)

/-- All that a visitor does keeps a property of states. -/
structure Visitor.Keeps {σ : Type} (v : Visitor σ) (I : σ → Prop) : Prop where
  before : Step.Keeps I v.before
  onModule : Step.Keeps I v.onModule
  onType : ∀ id, Step.Keeps I (v.onType id)
  onMethod : ∀ id, Step.Keeps I (v.onMethod id)
  onField : ∀ id n, Step.Keeps I (v.onField id n)
  onProperty : ∀ id n, Step.Keeps I (v.onProperty id n)
  complete : Step.Keeps I v.complete

/-- So does a walk. -/
theorem Walk.keeps_walk {σ : Type} {I : σ → Prop} {view : σ → Module} {vs : List (Visitor σ)}
    (hvs : ∀ v ∈ vs, v.Keeps I) : Step.Keeps I (walk view vs) := by
  refine Step.Respects.keeps (matches_walk_of_visitors ?_ (List.forall₂_same.2 fun v hv => ?_))
  · rintro s _ ⟨rfl, -⟩
    exact .refl _
  · have h := hvs v hv
    exact ⟨h.before.respects, h.onModule.respects, fun id => (h.onType id).respects,
      fun id => (h.onMethod id).respects, fun id n => (h.onField id n).respects,
      fun id n => (h.onProperty id n).respects, h.complete.respects⟩

/-- All that a visitor does, but at types, respects the relation. -/
structure Visitor.RespectsMembers {σ : Type} (v : Visitor σ) (Q : σ → σ → Prop) : Prop where
  before : Step.Respects Q v.before
  onModule : Step.Respects Q v.onModule
  onMethod : ∀ id, Step.Respects Q (v.onMethod id)
  onField : ∀ id n, Step.Respects Q (v.onField id n)
  onProperty : ∀ id n, Step.Respects Q (v.onProperty id n)
  complete : Step.Respects Q v.complete

namespace Walk

open Step

variable {σ : Type} {Q : σ → σ → Prop} {view : σ → Module} {vs : List (Visitor σ)} {s t : σ}

private theorem respects_inTurn {isPresent : Module → Bool} {visit : Visitor σ → Step σ Unit}
    (hpresent : ∀ s t, Q s t → isPresent (view t) = isPresent (view s))
    (hvisit : ∀ v ∈ vs, Respects Q (visit v)) : Respects Q (inTurn view isPresent visit vs) :=
  matches_inTurn hpresent (List.forall₂_same.2 hvisit)

private theorem respects_visitMethods (hview : ∀ s t, Q s t → (view s).Alike (view t))
    (hvisit : ∀ v ∈ vs, ∀ id, Respects Q (v.onMethod id)) (id : TypeId) :
    Respects Q (visitMethods view vs id) :=
  matches_visitMethods hview (fun id => respects_inTurn (fun s t hst => (hview s t hst).method? id)
    fun v hv => hvisit v hv id) id

private theorem respects_visitPlaces {α : Type} {members : TypeDecl → List α} {id : TypeId}
    (hmembers : ∀ s t, Q s t →
      (membersOf members id (view t)).length = (membersOf members id (view s)).length)
    {visit : Visitor σ → Nat → Step σ Unit} (hvisit : ∀ v ∈ vs, ∀ n, Respects Q (visit v n)) :
    Respects Q (visitPlaces view vs members visit id) :=
  matches_visitPlaces hmembers fun n =>
    respects_inTurn (fun s t hst => by rw [hmembers s t hst]) fun v hv => hvisit v hv n

theorem lockstep_visitType (hview : ∀ s t, Q s t → (view s).Alike (view t))
    (hvs : ∀ v ∈ vs, v.RespectsMembers Q) {id : TypeId}
    (htype : Lockstep Q (forM vs (·.onType id)) (forM vs (·.onType id)) s t) :
    Lockstep Q (visitType view vs id) (visitType view vs id) s t := by
  have hmethods := respects_visitMethods hview (fun v hv => (hvs v hv).onMethod) id
  have hfields : Respects Q (visitPlaces view vs (·.fields) (·.onField id) id) :=
    respects_visitPlaces (fun s t hst => (hview s t hst).fields id) fun v hv => (hvs v hv).onField id
  have hproperties : Respects Q (visitPlaces view vs (·.properties) (·.onProperty id) id) :=
    respects_visitPlaces (fun s t hst => (hview s t hst).properties id)
      fun v hv => (hvs v hv).onProperty id
  exact htype.bind fun _ s t _ hst =>
    (hmethods.bind fun _ => hfields.bind fun _ => hproperties) s t hst

end Walk

end AdviceWeaving
