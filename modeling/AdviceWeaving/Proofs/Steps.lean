import AdviceWeaving.Walk
import AdviceWeaving.Pass

/-!
# Steps that succeed

`Step.Yields` says that a step succeeds on a state, with what result and in what state it ends.  A
step that is put together of others succeeds exactly if these do one after the other
(`Step.yields_bind`), so a successful run of a pass comes apart into successful runs of its steps.
`Step.Fails` says that a step fails, why, and what it leaves: one of the steps that it is put
together of fails, after those before it have succeeded (`Step.fails_bind`).
-/

namespace AdviceWeaving

namespace Step

variable {σ α β : Type}

/-- The step succeeds on the state `s`, with the result `a`, and ends in the state `s'`. -/
def Yields (step : Step σ α) (s : σ) (a : α) (s' : σ) : Prop :=
  step.run s = (.ok a, s')

/-- A step that is known by its run. -/
theorem yields_of_run {step : Step σ α} {s : σ} {a : α} (h : (step.run s).1.toOption = some a) :
    Yields step s a (step.run s).2 := by
  rcases hrun : step.run s with ⟨failure | b, s'⟩ <;> rw [hrun] at h <;> cases h
  exact hrun

theorem run_bind (x : Step σ α) (f : α → Step σ β) (s : σ) :
    (x >>= f).run s = match x.run s with
      | (.ok a, t) => (f a).run t
      | (.error failure, t) => (.error failure, t) := by
  simp only [ExceptT.run, bind, ExceptT.bind, ExceptT.mk, StateT.bind]
  rcases (x s : Except Failure α × σ) with ⟨_ | _, _⟩ <;> rfl

@[simp] theorem yields_pure {a b : α} {s s' : σ} : Yields (pure a) s b s' ↔ b = a ∧ s' = s := by
  constructor
  · intro h; cases h; exact ⟨rfl, rfl⟩
  · rintro ⟨rfl, rfl⟩; rfl

@[simp] theorem yields_throw {failure : Failure} {a : α} {s s' : σ} :
    ¬ Yields (throw failure) s a s' := by
  intro h; cases h

@[simp] theorem yields_bind {x : Step σ α} {f : α → Step σ β} {s s' : σ} {b : β} :
    Yields (x >>= f) s b s' ↔ ∃ a t, Yields x s a t ∧ Yields (f a) t b s' := by
  unfold Yields
  rw [run_bind]
  rcases hx : x.run s with ⟨failure | a, t⟩
  · constructor
    · intro h; cases h
    · rintro ⟨_, _, h, _⟩; cases h
  · constructor
    · intro h; exact ⟨a, t, rfl, h⟩
    · rintro ⟨_, _, h, h'⟩; cases h; exact h'

@[simp] theorem yields_map {x : Step σ α} {f : α → β} {s s' : σ} {b : β} :
    Yields (f <$> x) s b s' ↔ ∃ a, Yields x s a s' ∧ b = f a := by
  rw [← bind_pure_comp, yields_bind]
  simp

@[simp] theorem yields_get {s t s' : σ} : Yields (get : Step σ σ) s t s' ↔ t = s ∧ s' = s := by
  constructor
  · intro h; cases h; exact ⟨rfl, rfl⟩
  · rintro ⟨rfl, rfl⟩; rfl

theorem yields_get_bind {f : σ → Step σ α} {s s' : σ} {a : α} :
    Yields (get >>= f) s a s' ↔ Yields (f s) s a s' := by
  rw [yields_bind]
  constructor
  · rintro ⟨_, _, hget, h⟩
    obtain ⟨rfl, rfl⟩ := yields_get.1 hget
    exact h
  · intro h
    exact ⟨s, s, yields_get.2 ⟨rfl, rfl⟩, h⟩

@[simp] theorem yields_modify {f : σ → σ} {s s' : σ} {u : Unit} :
    Yields (modify f : Step σ Unit) s u s' ↔ s' = f s := by
  constructor
  · intro h; cases h; rfl
  · rintro rfl; rfl

@[simp] theorem yields_forM_nil {f : α → Step σ Unit} {s s' : σ} {u : Unit} :
    Yields (forM ([] : List α) f) s u s' ↔ s' = s := by
  rw [List.forM_nil, yields_pure]
  simp

@[simp] theorem yields_forM_cons {f : α → Step σ Unit} {a : α} {l : List α} {s s' : σ} {u : Unit} :
    Yields (forM (a :: l) f) s u s' ↔ ∃ t, Yields (f a) s () t ∧ Yields (forM l f) t () s' := by
  rw [List.forM_cons, yields_bind]
  constructor
  · rintro ⟨_, t, h⟩; exact ⟨t, h⟩
  · rintro ⟨t, h⟩; exact ⟨(), t, h⟩

/-! ### Steps that fail -/

/-- The step fails on the state `s`, and leaves the state `s'`. -/
def Fails (step : Step σ α) (s : σ) (failure : Failure) (s' : σ) : Prop :=
  step.run s = (.error failure, s')

variable {failure : Failure} {s s' : σ}

@[simp] theorem fails_pure {a : α} : ¬ Fails (pure a) s failure s' := by
  intro h; cases h

@[simp] theorem fails_throw {failure' : Failure} :
    Fails (throw failure' : Step σ α) s failure s' ↔ failure = failure' ∧ s' = s := by
  constructor
  · intro h; cases h; exact ⟨rfl, rfl⟩
  · rintro ⟨rfl, rfl⟩; rfl

@[simp] theorem fails_bind {x : Step σ α} {f : α → Step σ β} :
    Fails (x >>= f) s failure s' ↔
      Fails x s failure s' ∨ ∃ a t, Yields x s a t ∧ Fails (f a) t failure s' := by
  unfold Fails Yields
  rw [run_bind]
  rcases hx : x.run s with ⟨failure' | a, t⟩
  · constructor
    · intro h; cases h; exact .inl rfl
    · rintro (h | ⟨_, _, h, _⟩)
      · cases h; rfl
      · cases h
  · constructor
    · intro h; exact .inr ⟨a, t, rfl, h⟩
    · rintro (h | ⟨_, _, h, h'⟩)
      · cases h
      · cases h; exact h'

@[simp] theorem fails_map {x : Step σ α} {f : α → β} :
    Fails (f <$> x) s failure s' ↔ Fails x s failure s' := by
  rw [← bind_pure_comp, fails_bind]
  simp

@[simp] theorem fails_get : ¬ Fails (get : Step σ σ) s failure s' := by
  intro h; cases h

theorem fails_get_bind {f : σ → Step σ α} :
    Fails (get >>= f) s failure s' ↔ Fails (f s) s failure s' := Iff.rfl

@[simp] theorem fails_modify {f : σ → σ} : ¬ Fails (modify f : Step σ Unit) s failure s' := by
  intro h; cases h

@[simp] theorem fails_forM_nil {f : α → Step σ Unit} :
    ¬ Fails (forM ([] : List α) f) s failure s' := by
  rw [List.forM_nil]
  exact fails_pure

@[simp] theorem fails_forM_cons {f : α → Step σ Unit} {a : α} {l : List α} :
    Fails (forM (a :: l) f) s failure s' ↔ Fails (f a) s failure s' ∨
      ∃ t, Yields (f a) s () t ∧ Fails (forM l f) t failure s' := by
  rw [List.forM_cons, fails_bind]
  refine or_congr Iff.rfl ?_
  constructor
  · rintro ⟨_, t, h⟩; exact ⟨t, h⟩
  · rintro ⟨t, h⟩; exact ⟨(), t, h⟩

/-- If a list of steps fails, one of them does. -/
theorem exists_fails_of_fails_forM {f : α → Step σ Unit} {l : List α} (h : Fails (forM l f) s failure s') :
    ∃ a ∈ l, ∃ t, Fails (f a) t failure s' := by
  induction l generalizing s with
  | nil => exact absurd h fails_forM_nil
  | cons a l ih =>
    rcases fails_forM_cons.1 h with ha | ⟨t, -, hl⟩
    · exact ⟨a, List.mem_cons_self, s, ha⟩
    · obtain ⟨b, hb, t, hf⟩ := ih hl
      exact ⟨b, List.mem_cons_of_mem a hb, t, hf⟩

end Step

namespace Workspace

variable (w : Workspace)

/-- Diagnostics have been added. -/
def reporting (diagnostics : List Diagnostic) : Workspace :=
  { w with pass := { w.pass with diagnostics := w.pass.diagnostics ++ diagnostics } }

/-- The numbers have changed. -/
def counting (f : Tally → Tally) : Workspace :=
  { w with pass := { w.pass with tally := f w.pass.tally } }

@[simp] theorem module_reporting (diagnostics : List Diagnostic) : (w.reporting diagnostics).module = w.module := rfl

@[simp] theorem module_counting (f : Tally → Tally) : (w.counting f).module = w.module := rfl

end Workspace

namespace Weaving

open Step

@[simp] theorem yields_updatePass {f : Pass → Pass} {w w' : Workspace} {u : Unit} :
    Yields (updatePass f) w u w' ↔ w' = { w with pass := f w.pass } := yields_modify

@[simp] theorem yields_updateModule {f : Module → Module} {w w' : Workspace} {u : Unit} :
    Yields (updateModule f) w u w' ↔ w' = { w with module := f w.module } := yields_modify

@[simp] theorem yields_report {diagnostics : List Diagnostic} {w w' : Workspace} {u : Unit} :
    Yields (report diagnostics) w u w' ↔ w' = w.reporting diagnostics := yields_modify

@[simp] theorem yields_tally {f : Tally → Tally} {w w' : Workspace} {u : Unit} :
    Yields (tally f) w u w' ↔ w' = w.counting f := yields_modify

@[simp] theorem yields_expect {α : Type} {failure : Failure} {a? : Option α} {w w' : Workspace}
    {a : α} : Yields (expect failure a?) w a w' ↔ a? = some a ∧ w' = w := by
  cases a? with
  | none => simp [expect]
  | some b => simp [expect, eq_comm]

@[simp] theorem yields_conclude {α : Type} {result : Except Failure α} {w w' : Workspace} {a : α} :
    Yields (conclude result) w a w' ↔ result = .ok a ∧ w' = w := by
  cases result with
  | error failure => simp [conclude]
  | ok b => simp [conclude, eq_comm]

variable {failure : Failure} {w w' : Workspace}

@[simp] theorem fails_updatePass {f : Pass → Pass} : ¬ Fails (updatePass f) w failure w' :=
  fails_modify

@[simp] theorem fails_updateModule {f : Module → Module} : ¬ Fails (updateModule f) w failure w' :=
  fails_modify

@[simp] theorem fails_report {diagnostics : List Diagnostic} :
    ¬ Fails (report diagnostics) w failure w' :=
  fails_modify

@[simp] theorem fails_tally {f : Tally → Tally} : ¬ Fails (tally f) w failure w' :=
  fails_modify

@[simp] theorem fails_expect {α : Type} {failure' : Failure} {a? : Option α} :
    Fails (expect failure' a?) w failure w' ↔ a? = none ∧ failure = failure' ∧ w' = w := by
  cases a? <;> simp [expect]

@[simp] theorem fails_conclude {α : Type} {result : Except Failure α} :
    Fails (conclude result) w failure w' ↔ result = .error failure ∧ w' = w := by
  cases result <;> simp [conclude, eq_comm]

end Weaving

end AdviceWeaving
