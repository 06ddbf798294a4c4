import AdviceWeaving.Proofs.Lockstep
import AdviceWeaving.Proofs.Rosters

/-!
# Watching a visitor

One of the visitors of a walk is watched (`Walk.watching`): it is written down what it is shown, and what the module
was at the time.  The visitors may remove what they are shown and what stands behind it, and nothing else
(`Visitor.Removes`).
-/

namespace AdviceWeaving

/-! ### Steps and what they ensure -/

namespace Step

variable {σ : Type} {x y : Step σ Unit} {s : σ} {P Q Q' E E' : σ → Prop}

/-- The step ends in a state of `Q`, or fails in a state of `E`. -/
def Ensures (x : Step σ Unit) (s : σ) (Q E : σ → Prop) : Prop :=
  (∀ s', Yields x s () s' → Q s') ∧ ∀ failure s', Fails x s failure s' → E s'

theorem Ensures.imp (h : Ensures x s Q E) (hQ : ∀ t, Q t → Q' t) (hE : ∀ t, E t → E' t) : Ensures x s Q' E' :=
  ⟨fun s' hy => hQ s' (h.1 s' hy), fun failure s' hf => hE s' (h.2 failure s' hf)⟩

theorem Ensures.bind {f : Unit → Step σ Unit} (h : Ensures x s P E) (hf : ∀ t, P t → Ensures (f ()) t Q E) :
    Ensures (x >>= f) s Q E := by
  refine ⟨fun s' hy => ?_, fun failure s' hfail => ?_⟩
  · obtain ⟨_, t, hx, hy⟩ := yields_bind.1 hy
    exact (hf t (h.1 t hx)).1 s' hy
  · rcases fails_bind.1 hfail with hx | ⟨_, t, hx, hfail⟩
    · exact h.2 failure s' hx
    · exact (hf t (h.1 t hx)).2 failure s' hfail

theorem ensures_pure (h : Q s) : Ensures (pure ()) s Q E := by
  refine ⟨fun s' hy => ?_, fun failure s' hf => (fails_pure hf).elim⟩
  obtain ⟨-, rfl⟩ := yields_pure.1 hy
  exact h

private theorem ensures_modify {f : σ → σ} (h : Q (f s)) : Ensures (modify f) s Q E := by
  refine ⟨fun s' hy => ?_, fun failure s' hf => (fails_modify hf).elim⟩
  rw [yields_modify.1 hy]
  exact h

theorem ensures_get_bind {f : σ → Step σ Unit} (h : Ensures (f s) s Q E) : Ensures (get >>= f) s Q E :=
  ⟨fun s' hy => h.1 s' (yields_get_bind.1 hy), fun failure s' hf => h.2 failure s' (fails_get_bind.1 hf)⟩

/-- A step on the first part leaves the second one as it is. -/
theorem ensures_onPart {τ : Type} {x : Step σ Unit} {s : σ} {c : τ} {Q : σ → Prop}
    (h : ∀ s', Yields x s () s' → Q s') :
    Ensures (x.onPart Prod.fst fun s t => (s, t.2)) (s, c) (fun t => Q t.1 ∧ t.2 = c) fun t => t.2 = c := by
  refine ⟨fun t hy => ?_, fun failure t hf => ?_⟩
  · have hrun : ((x.run s).1, (x.run s).2, c) = (.ok (), t) := hy
    rcases hx : x.run s with ⟨result, s'⟩
    rw [hx] at hrun
    cases hrun
    exact ⟨h s' hx, rfl⟩
  · have hrun : ((x.run s).1, (x.run s).2, c) = (.error failure, t) := hf
    exact (congrArg (·.2.2) hrun).symm

end Step

/-! ### Watching a visitor -/

/-- That something has been shown, and in what module. -/
structure Sight (κ : Type) where
  key : κ
  module : Module

/-- The member that has been shown, with its type. -/
def Sight.member? {α : Type} (members : TypeDecl → List α) (x : Sight (TypeId × Nat)) : Option (TypeId × α) :=
  (x.module.memberAt? members x.key).map (x.key.1, ·)

/-- All that a visitor has been shown, from the first to the last. -/
@[ext]
structure Sights where
  types : List (Sight TypeId) := []
  methods : List (Sight MethodId) := []
  fields : List (Sight (TypeId × Nat)) := []
  properties : List (Sight (TypeId × Nat)) := []

namespace Sights

instance : Append Sights where
  append c d :=
    { types := c.types ++ d.types
      methods := c.methods ++ d.methods
      fields := c.fields ++ d.fields
      properties := c.properties ++ d.properties }

variable (c d d' : Sights)

@[simp] theorem types_append : (c ++ d).types = c.types ++ d.types := rfl
@[simp] theorem methods_append : (c ++ d).methods = c.methods ++ d.methods := rfl
@[simp] theorem fields_append : (c ++ d).fields = c.fields ++ d.fields := rfl
@[simp] theorem properties_append : (c ++ d).properties = c.properties ++ d.properties := rfl

theorem append_empty : c ++ {} = c := by
  ext1 <;> simp

theorem append_assoc : c ++ d ++ d' = c ++ (d ++ d') := by
  ext1 <;> simp

end Sights

/-- Write something down before a step. -/
def Step.noting {σ : Type} (view : σ → Module) (note : Module → Sights → Sights) (x : Step (σ × Sights) Unit) :
    Step (σ × Sights) Unit := do
  modify fun t => (t.1, note (view t.1) t.2)
  x

namespace Visitor

variable {σ : Type} (view : σ → Module) (v : Visitor σ)

/-- The visitor when another one is watched. -/
def unwatched : Visitor (σ × Sights) :=
  v.onPart Prod.fst fun s t => (s, t.2)

/-- The visitor when it is watched. -/
def watched : Visitor (σ × Sights) :=
  { v.unwatched with
    onType t := (v.unwatched.onType t).noting view fun m c => c ++ { types := [⟨t, m⟩] }
    onMethod id := (v.unwatched.onMethod id).noting view fun m c => c ++ { methods := [⟨id, m⟩] }
    onField t n := (v.unwatched.onField t n).noting view fun m c => c ++ { fields := [⟨(t, n), m⟩] }
    onProperty t n := (v.unwatched.onProperty t n).noting view fun m c => c ++ { properties := [⟨(t, n), m⟩] } }

end Visitor

/-- The visitors of a walk, one of them watched. -/
def Walk.watching {σ : Type} (view : σ → Module) (front : List (Visitor σ)) (v : Visitor σ)
    (behind : List (Visitor σ)) : List (Visitor (σ × Sights)) :=
  front.map (·.unwatched) ++ v.watched view :: behind.map (·.unwatched)

/-! ### Visitors that remove what they are shown -/

/-- The type `t`, or types behind it, have been removed. -/
def RemovesType (t : TypeId) (r r' : List Roster) : Prop :=
  r' = r ∨ ∃ n e, r[n]? = some e ∧ e.id = t ∧ CutFrom n r r'

/-- Members of one kind have been removed from the type `t`, the one at the place `n` or some behind it. -/
def RemovesMember {α : Type} (p : Roster.Part α) (t : TypeId) (n : Nat) (r r' : List Roster) : Prop :=
  r' = r ∨ ∃ front e back l, r = front ++ e :: back ∧ e.id = t ∧ CutFrom n (p.get e) l ∧
    r' = front ++ p.set e l :: back

theorem RemovesMember.exists_cut {α : Type} {p : Roster.Part α} {a b r' : List Roster} {e : Roster} {l : List α}
    {n : Nat} (hd : Distinct (a ++ p.set e l :: b))
    (h : RemovesMember p e.id n (a ++ p.set e l :: b) r') : ∃ l', CutFrom n l l' ∧ r' = a ++ p.set e l' :: b := by
  rcases h with rfl | ⟨a', e', b', l', heq, hid, hcut, rfl⟩
  · exact ⟨l, .refl n l, rfl⟩
  · obtain ⟨rfl, rfl, rfl⟩ := hd.split_inj heq (hid.trans (p.id_set e l).symm)
    rw [p.get_set] at hcut
    exact ⟨l', hcut, by rw [p.set_set]⟩

/-- A method, or methods behind it in the same type, have been removed. -/
def RemovesMethod (id : MethodId) (r r' : List Roster) : Prop :=
  r' = r ∨ ∃ e ∈ r, ∃ n, e.methods[n]? = some id ∧ RemovesMember Roster.methodsPart e.id n r r'

namespace Visitor

variable {σ : Type}

/-- A visitor may remove what it is shown and what stands behind it, and leaves other types and members as they are.
Whatever else it does is left open, and whatever it does when it fails. -/
structure Removes (view : σ → Module) (v : Visitor σ) : Prop where
  before : ∀ s s', Step.Yields v.before s () s' → (view s').rosters = (view s).rosters
  onModule : ∀ s s', Step.Yields v.onModule s () s' → (view s').rosters = (view s).rosters
  onType : ∀ t s s', Distinct (view s).rosters → Step.Yields (v.onType t) s () s' →
    RemovesType t (view s).rosters (view s').rosters
  onMethod : ∀ id s s', Distinct (view s).rosters → Step.Yields (v.onMethod id) s () s' →
    RemovesMethod id (view s).rosters (view s').rosters
  onField : ∀ t n s s', Distinct (view s).rosters → Step.Yields (v.onField t n) s () s' →
    RemovesMember Roster.fieldsPart t n (view s).rosters (view s').rosters
  onProperty : ∀ t n s s', Distinct (view s).rosters → Step.Yields (v.onProperty t n) s () s' →
    RemovesMember Roster.propertiesPart t n (view s).rosters (view s').rosters
  complete : ∀ s s', Step.Yields v.complete s () s' → (view s').rosters = (view s).rosters

/-- At types the visitor removes nothing. -/
def KeepsTypes (view : σ → Module) (v : Visitor σ) : Prop :=
  ∀ t s s', Step.Yields (v.onType t) s () s' → (view s').rosters = (view s).rosters

/-- At fields the visitor removes nothing. -/
def KeepsFields (view : σ → Module) (v : Visitor σ) : Prop :=
  ∀ t n s s', Step.Yields (v.onField t n) s () s' → (view s').rosters = (view s).rosters

/-- At properties the visitor removes nothing. -/
def KeepsProperties (view : σ → Module) (v : Visitor σ) : Prop :=
  ∀ t n s s', Step.Yields (v.onProperty t n) s () s' → (view s').rosters = (view s).rosters

end Visitor

/-! ### A turn -/

namespace Walk

open Step

variable {σ : Type} {view : σ → Module} {front behind : List (Visitor σ)} {v : Visitor σ} {s : σ} {c : Sights}

/-- What is done at one place, by a visitor itself and in a walk in which one is watched. -/
structure IsHook (view : σ → Module) (hook : Visitor σ → Step σ Unit)
    (visit : Visitor (σ × Sights) → Step (σ × Sights) Unit) (note : Module → Sights → Sights) : Prop where
  unwatched : ∀ v, visit v.unwatched = (hook v).onPart Prod.fst fun s t => (s, t.2)
  watched : ∀ v, visit (v.watched view) = ((hook v).onPart Prod.fst fun s t => (s, t.2)).noting view note

variable {hook : Visitor σ → Step σ Unit} {visit : Visitor (σ × Sights) → Step (σ × Sights) Unit}
  {note : Module → Sights → Sights} {isPresent : Module → Bool}

private theorem ensures_inTurn_cons {w : Visitor (σ × Sights)} {ws : List (Visitor (σ × Sights))} {t : σ × Sights}
    {Q E : σ × Sights → Prop}
    (hpresent : isPresent (view t.1) → Ensures (visit w >>= fun _ =>
      inTurn (fun t => view t.1) isPresent visit ws) t Q E) (habsent : isPresent (view t.1) = false → Q t) :
    Ensures (inTurn (fun t => view t.1) isPresent visit (w :: ws)) t Q E := by
  refine ensures_get_bind ?_
  by_cases h : isPresent (view t.1)
  · rw [if_pos h]
    exact hpresent h
  · rw [if_neg h]
    exact ensures_pure (habsent (by simpa using h))

private theorem ensures_unwatched (h : IsHook view hook visit note) {B : σ → Prop}
    (hB : ∀ u ∈ behind, ∀ s s', B s → isPresent (view s) → Yields (hook u) s () s' → B s') (hs : B s) :
    Ensures (inTurn (fun t => view t.1) isPresent visit (behind.map (·.unwatched))) (s, c)
      (fun t => B t.1 ∧ t.2 = c) fun t => t.2 = c := by
  induction behind generalizing s with
  | nil => exact ensures_pure ⟨hs, rfl⟩
  | cons u us ih =>
    refine ensures_inTurn_cons (fun hpresent => ?_) fun _ => ⟨hs, rfl⟩
    rw [h.unwatched]
    refine (ensures_onPart fun s' hy => hB u List.mem_cons_self s s' hs hpresent hy).bind ?_
    rintro ⟨s', c'⟩ ⟨hs', rfl⟩
    exact ih (fun u hu => hB u (List.mem_cons_of_mem _ hu)) hs'

/-- The visitors in front of the watched one lead to states of `A`, and if that which is shown is still there, the
watched one and those behind it go on from such a state as `B` tells. -/
theorem ensures_inTurn (h : IsHook view hook visit note) {A : σ → Prop} {B : σ → σ → Prop}
    (hA : ∀ u ∈ front, ∀ s s', A s → isPresent (view s) → Yields (hook u) s () s' → A s')
    (hv : ∀ s s', A s → isPresent (view s) → Yields (hook v) s () s' → B s s')
    (hB : ∀ u ∈ behind, ∀ s₁ s s', B s₁ s → isPresent (view s) → Yields (hook u) s () s' → B s₁ s')
    (hs : A s) :
    Ensures (inTurn (fun t => view t.1) isPresent visit (watching view front v behind)) (s, c)
      (fun t => (A t.1 ∧ isPresent (view t.1) = false ∧ t.2 = c) ∨
        ∃ s₁, A s₁ ∧ isPresent (view s₁) ∧ B s₁ t.1 ∧ t.2 = note (view s₁) c)
      fun t => t.2 = c ∨ ∃ s₁, A s₁ ∧ isPresent (view s₁) ∧ t.2 = note (view s₁) c := by
  induction front generalizing s with
  | nil =>
    refine ensures_inTurn_cons (fun hpresent => ?_) fun habsent => .inl ⟨hs, habsent, rfl⟩
    rw [h.watched]
    refine Ensures.bind (P := fun t => B s t.1 ∧ t.2 = note (view s) c) ?_ ?_
    · refine (ensures_modify (Q := fun t => t = (s, note (view s) c)) rfl).bind ?_
      rintro _ rfl
      exact (ensures_onPart fun s' hy => hv s s' hs hpresent hy).imp (fun _ ht => ht)
        fun _ ht => .inr ⟨s, hs, hpresent, ht⟩
    · rintro ⟨s', c'⟩ ⟨hs', rfl⟩
      exact (ensures_unwatched h (fun u hu s s' => hB u hu _ s s') hs').imp
        (fun _ ht => .inr ⟨s, hs, hpresent, ht⟩) fun _ ht => .inr ⟨s, hs, hpresent, ht⟩
  | cons u us ih =>
    refine ensures_inTurn_cons (fun hpresent => ?_) fun habsent => .inl ⟨hs, habsent, rfl⟩
    rw [h.unwatched]
    refine ((ensures_onPart fun s' hy => hA u List.mem_cons_self s s' hs hpresent hy).imp (fun _ ht => ht)
      fun _ ht => .inl ht).bind ?_
    rintro ⟨s', c'⟩ ⟨hs', rfl⟩
    exact ih (fun u hu => hA u (List.mem_cons_of_mem _ hu)) hs'

/-- To do something in turn without asking is to ask for nothing. -/
theorem forM_eq_inTurn (view : σ → Module) (ws : List (Visitor (σ × Sights))) :
    ws.forM visit = inTurn (fun t => view t.1) (fun _ => true) visit ws := by
  induction ws with
  | nil => rfl
  | cons w ws ih =>
    show (visit w >>= fun _ => ws.forM visit) = _
    rw [ih]
    rfl

end Walk

end AdviceWeaving
