import AdviceWeaving.Verification
import Mathlib.Data.List.Basic

/-!
# The flow of a verification

Verification follows control with a list of pending instructions.  What it knows only grows
(`Flow.Grows`), and an instruction becomes pending when it is reached for the first time, so none is
looked at twice (`Flow.Queued`, `Body.head?_flow_ne`) and the rounds run out with the instructions
(`Body.pending_flow`).  When they have, every instruction that was reached has been looked at
(`Flow.Settled`).
-/

namespace AdviceWeaving

namespace Flow

variable {f g : Flow} {depth index : Nat}

/-! ### How a flow grows -/

/-- How many instructions have not been reached. -/
def unreached (f : Flow) : Nat :=
  f.depths.toList.countP (·.isNone)

/-- What is known in the flow `f` is known in `g`, and what is newly reached there is pending. -/
structure Grows (f g : Flow) : Prop where
  size_eq : g.depths.size = f.depths.size
  findings : f.findings <+: g.findings
  depth : ∀ {i d}, f.depth? i = some d → g.depth? i = some d
  pending : ∀ {i}, i ∈ f.pending → i ∈ g.pending
  fresh : ∀ {i d}, g.depth? i = some d → f.depth? i = some d ∨ i ∈ g.pending
  measure : g.pending.length + g.unreached ≤ f.pending.length + f.unreached

private theorem Grows.refl (f : Flow) : f.Grows f where
  size_eq := rfl
  findings := List.prefix_rfl
  depth h := h
  pending h := h
  fresh h := .inl h
  measure := Nat.le_refl _

private theorem Grows.trans {f₁ f₂ f₃ : Flow} (h : f₁.Grows f₂) (h' : f₂.Grows f₃) : f₁.Grows f₃ where
  size_eq := h'.size_eq.trans h.size_eq
  findings := h.findings.trans h'.findings
  depth hd := h'.depth (h.depth hd)
  pending hi := h'.pending (h.pending hi)
  fresh hd := by
    rcases h'.fresh hd with hd | hi
    · exact (h.fresh hd).imp id h'.pending
    · exact .inr hi
  measure := Nat.le_trans h'.measure h.measure

private theorem Grows.findings_eq_nil (h : f.Grows g) (hg : g.findings = []) : f.findings = [] :=
  List.prefix_nil.1 (hg ▸ h.findings)

private theorem grows_note (f : Flow) (index : Nat) (breach : Breach) : f.Grows (f.note index breach) where
  size_eq := rfl
  findings := List.prefix_append _ _
  depth h := h
  pending h := h
  fresh h := .inl h
  measure := Nat.le_refl _

private theorem lt_of_depth? (h : f.depth? index = some depth) : index < f.depths.size := by
  unfold depth? at h
  by_contra hge
  rw [Array.getElem?_eq_none (by omega)] at h
  cases h

theorem depth?_set (f : Flow) (pending : List Nat) (j : Nat) :
    Flow.depth?
        { f with depths := f.depths.setIfInBounds index (some depth), pending := pending } j =
      if index = j ∧ index < f.depths.size then some depth else f.depth? j := by
  simp only [depth?, Array.getElem?_setIfInBounds]
  by_cases hj : index = j
  · subst hj
    by_cases hlt : index < f.depths.size
    · simp [hlt]
    · simp [hlt]
  · simp [hj]

private theorem unreached_set {f : Flow} (depth : Nat) (h : index < f.depths.size)
    (hnone : f.depth? index = none) (pending : List Nat) :
    Flow.unreached
        { f with depths := f.depths.setIfInBounds index (some depth), pending := pending } + 1 =
      f.unreached := by
  have hlt : index < f.depths.toList.length := by simpa using h
  have hget : f.depths.toList[index] = none := by
    simpa [depth?, Array.getElem?_eq_getElem h] using hnone
  have hpos : 0 < f.depths.toList.countP (·.isNone) :=
    List.countP_pos_iff.2 ⟨_, List.getElem_mem _, by rw [hget]; rfl⟩
  simp only [unreached, Array.toList_setIfInBounds]
  rw [List.countP_set hlt, hget]
  exact Nat.sub_add_cancel hpos

/-- To reach an instruction of the body makes it pending, if it was not reached before. -/
private theorem grows_reach (f : Flow) (depth : Nat) (h : index < f.depths.size) :
    f.Grows (f.reach depth index) := by
  unfold reach
  cases hd : f.depth? index with
  | none =>
    show f.Grows
      { f with depths := f.depths.setIfInBounds index (some depth), pending := index :: f.pending }
    refine ⟨by simp, List.prefix_rfl, fun {i d} hi => ?_, fun hi => List.mem_cons_of_mem _ hi,
      fun {i d} hi => ?_, ?_⟩
    · rw [depth?_set, if_neg fun hij => ?_]
      · exact hi
      · rw [hij.1] at hd
        rw [hd] at hi
        cases hi
    · rw [depth?_set] at hi
      split at hi
      · next hij => exact .inr (hij.1 ▸ List.mem_cons_self)
      · exact .inl hi
    · show (index :: f.pending).length + _ ≤ _
      rw [List.length_cons, ← unreached_set depth h hd (index :: f.pending)]
      omega
  | some seen =>
    simp only
    split
    · exact Grows.refl f
    · exact grows_note f index _

private theorem depth?_reach (h : index < f.depths.size) (hfindings : (f.reach depth index).findings = []) :
    (f.reach depth index).depth? index = some depth := by
  unfold reach at hfindings ⊢
  cases hd : f.depth? index with
  | none => exact (depth?_set f _ index).trans (if_pos ⟨rfl, h⟩)
  | some seen =>
    simp only [hd] at hfindings ⊢
    split at hfindings
    · next heq => rw [if_pos heq, hd, heq]
    · simp [note] at hfindings

private theorem grows_foldl_reach (depth : Nat) {js : List Nat} (h : ∀ j ∈ js, j < f.depths.size) :
    f.Grows (js.foldl (·.reach depth) f) := by
  induction js generalizing f with
  | nil => exact Grows.refl f
  | cons j js ih =>
    have hj := grows_reach f depth (h j List.mem_cons_self)
    exact hj.trans (ih fun k hk => hj.size_eq ▸ h k (List.mem_cons_of_mem _ hk))

private theorem depth?_foldl_reach {js : List Nat} (h : ∀ j ∈ js, j < f.depths.size)
    (hfindings : (js.foldl (·.reach depth) f).findings = []) :
    ∀ j ∈ js, (js.foldl (·.reach depth) f).depth? j = some depth := by
  induction js generalizing f with
  | nil => intro j hj; cases hj
  | cons k js ih =>
    have hk := grows_reach f depth (h k List.mem_cons_self)
    have hjs : ∀ j ∈ js, j < (f.reach depth k).depths.size := fun j hj =>
      hk.size_eq ▸ h j (List.mem_cons_of_mem _ hj)
    have hgrows := grows_foldl_reach depth hjs
    intro j hj
    rcases List.mem_cons.1 hj with rfl | hj
    · exact hgrows.depth (depth?_reach (h j List.mem_cons_self) (hgrows.findings_eq_nil hfindings))
    · exact ih hjs hfindings j hj

/-! ### What is pending -/

/-- The instructions `done` have been looked at, and those that are pending have not; all of them
have been reached. -/
structure Queued (f : Flow) (done : List Nat) : Prop where
  nodup : (f.pending ++ done).Nodup
  reached : ∀ i ∈ f.pending ++ done, (f.depth? i).isSome

private theorem Queued.reach {done : List Nat} (h : f.Queued done) (hindex : index < f.depths.size) :
    (f.reach depth index).Queued done := by
  unfold Flow.reach
  cases hd : f.depth? index with
  | none =>
    -- what has not been reached is neither pending nor done
    have hnew : index ∉ f.pending ++ done := fun hin => by
      have := h.reached index hin
      rw [hd] at this
      cases this
    refine ⟨List.nodup_cons.2 ⟨hnew, h.nodup⟩, fun i hi => ?_⟩
    show (Flow.depth? { f with
      depths := f.depths.setIfInBounds index (some depth), pending := index :: f.pending } i).isSome
    rw [depth?_set]
    split
    · rfl
    · next hne =>
      refine h.reached i ((List.mem_cons.1 hi).resolve_left fun heq => ?_)
      exact hne ⟨heq.symm, hindex⟩
  | some seen =>
    simp only
    split
    · exact h
    · exact ⟨h.nodup, h.reached⟩

private theorem Queued.foldl_reach {done js : List Nat} (h : f.Queued done)
    (hjs : ∀ j ∈ js, j < f.depths.size) : (js.foldl (·.reach depth) f).Queued done := by
  induction js generalizing f with
  | nil => exact h
  | cons j js ih =>
    have hj := hjs j List.mem_cons_self
    refine ih (h.reach hj) fun k hk => ?_
    rw [(grows_reach f depth hj).size_eq]
    exact hjs k (List.mem_cons_of_mem _ hk)

end Flow

/-! ### To look at an instruction -/

section

variable {code : List Instruction} {expected index depth fuel : Nat} {f : Flow} {i : Instruction}

private theorem Instruction.lt_of_mem_successors {length next : Nat}
    (h : next ∈ i.successors length index) : next < length := by
  simp only [Instruction.successors, List.mem_append, List.mem_filter, decide_eq_true_eq] at h
  rcases h with h | h
  · split at h
    · next hlt => rw [List.mem_singleton.1 h]; exact hlt.2
    · cases h
  · exact h.2

private theorem Instruction.grows_follow (h : f.depths.size = code.length) :
    f.Grows (i.follow code.length expected f index depth) := by
  unfold follow
  split
  · exact Flow.grows_note f index _
  split
  · split
    · exact Flow.Grows.refl f
    · exact Flow.grows_note f index _
  have hnote : f.Grows
      (if i.fallsThrough ∧ code.length ≤ index + 1 then f.note index .fallsOff else f) := by
    split
    · exact Flow.grows_note f index _
    · exact Flow.Grows.refl f
  refine hnote.trans (Flow.grows_foldl_reach _ fun j hj => ?_)
  rw [hnote.size_eq, h]
  exact lt_of_mem_successors hj

private theorem Flow.Queued.follow {done : List Nat} (h : f.Queued done)
    (hsize : f.depths.size = code.length) :
    (i.follow code.length expected f index depth).Queued done := by
  have hnoted (index : Nat) (breach : Breach) : (f.note index breach).Queued done :=
    ⟨h.nodup, h.reached⟩
  unfold Instruction.follow
  split
  · exact hnoted _ _
  split
  · split
    · exact h
    · exact hnoted _ _
  have hnote :
      (if i.fallsThrough ∧ code.length ≤ index + 1 then f.note index .fallsOff else f).Queued done ∧
        (if i.fallsThrough ∧ code.length ≤ index + 1 then
          f.note index .fallsOff else f).depths.size = code.length := by
    split
    · exact ⟨hnoted _ _, hsize⟩
    · exact ⟨h, hsize⟩
  refine hnote.1.foldl_reach fun j hj => ?_
  rw [hnote.2]
  exact Instruction.lt_of_mem_successors hj

/-- An instruction that is reached with the given depth is safe, if the depths in `At` are those at
the instructions where control goes, as far as it stays in a body of `length` instructions. -/
structure Instruction.Steady (length expected : Nat) (At : Nat → Nat → Prop) (index depth : Nat)
    (i : Instruction) : Prop where
  pops_le : i.stackEffect.pops ≤ depth
  returns : i.isReturn → depth = expected
  stays : i.fallsThrough → index + 1 < length
  continues : ∀ next ∈ i.successors length index,
    At next (depth - i.stackEffect.pops + i.stackEffect.pushes)

private theorem Instruction.Steady.mono {length : Nat} {At At' : Nat → Nat → Prop}
    (h : i.Steady length expected At index depth) (hle : ∀ {j d}, At j d → At' j d) :
    i.Steady length expected At' index depth where
  pops_le := h.pops_le
  returns := h.returns
  stays := h.stays
  continues next hnext := hle (h.continues next hnext)

theorem Instruction.successors_of_isReturn {length : Nat} (h : i.isReturn) :
    i.fallsThrough = false ∧ i.successors length index = [] := by
  cases i with
  | simple op =>
    cases op <;> simp_all [isReturn, fallsThrough, successors, target?]
  | _ => cases h

/-- An instruction that is looked at without a finding is safe. -/
private theorem Instruction.steady_of_follow (hsize : f.depths.size = code.length)
    (hfindings : (i.follow code.length expected f index depth).findings = []) :
    i.Steady code.length expected
      (fun j d => (i.follow code.length expected f index depth).depth? j = some d) index depth := by
  unfold follow at hfindings ⊢
  split at hfindings
  · simp [Flow.note] at hfindings
  next hpops =>
  rw [if_neg hpops]
  split at hfindings
  · next hr =>
    split at hfindings
    · next hdepth =>
      obtain ⟨hfalls, hsuccessors⟩ :
          i.fallsThrough = false ∧ i.successors code.length index = [] := successors_of_isReturn hr
      refine ⟨by omega, fun _ => hdepth, fun h => ?_, fun next hnext => ?_⟩
      · rw [hfalls] at h; cases h
      · rw [hsuccessors] at hnext; cases hnext
    · simp [Flow.note] at hfindings
  next hr =>
  rw [if_neg hr]
  simp only at hfindings ⊢
  have hlt : ∀ {g : Flow}, g.depths.size = code.length → ∀ j ∈ i.successors code.length index,
      j < g.depths.size :=
    fun hg j hj => hg ▸ lt_of_mem_successors hj
  -- nothing is found, so control does not fall off the end
  have hstays : ¬ (i.fallsThrough ∧ code.length ≤ index + 1) := by
    intro hoff
    rw [if_pos hoff] at hfindings
    have := (Flow.grows_foldl_reach _ (hlt (by exact hsize))).findings_eq_nil hfindings
    simp [Flow.note] at this
  rw [if_neg hstays] at hfindings ⊢
  exact ⟨by omega, fun hr' => absurd hr' hr,
    fun hfalls => by_contra fun hge => hstays ⟨hfalls, by omega⟩,
    fun next hnext => Flow.depth?_foldl_reach (hlt hsize) hfindings next hnext⟩

/-! ### To look at all instructions -/

private theorem Flow.followAll_nil (hpending : f.pending = []) :
    Flow.followAll code.toArray expected fuel f = f := by
  cases fuel with
  | zero => rfl
  | succ fuel => simp only [Flow.followAll, hpending]

/-- The flow after the first pending instruction has been looked at. -/
def Flow.advance (code : List Instruction) (expected : Nat) (f : Flow) (index : Nat)
    (pending : List Nat) : Flow :=
  match f.depth? index, code[index]? with
  | some depth, some i => i.follow code.length expected { f with pending } index depth
  | _, _ => { f with pending }

private theorem Flow.followAll_cons {pending : List Nat} (hpending : f.pending = index :: pending) :
    Flow.followAll code.toArray expected (fuel + 1) f =
      Flow.followAll code.toArray expected fuel (f.advance code expected index pending) := by
  have hdepth : Flow.depth? { f with pending := pending } index = f.depth? index := rfl
  simp only [Flow.followAll, hpending, Flow.advance, hdepth, List.getElem?_toArray,
    List.size_toArray]
  cases f.depth? index with
  | none => rfl
  | some depth => cases code[index]? <;> rfl

/-- What holds of a flow holds to the end, if it is kept whenever an instruction is looked at. -/
theorem Flow.followAll_induction {P : Flow → Prop}
    (hadvance : ∀ {f index pending}, P f → f.pending = index :: pending → P (f.advance code expected index pending))
    (h : P f) : P (Flow.followAll code.toArray expected fuel f) := by
  induction fuel generalizing f with
  | zero => exact h
  | succ fuel ih =>
    cases hpending : f.pending with
    | nil => rw [followAll_nil hpending]; exact h
    | cons index pending => rw [followAll_cons hpending]; exact ih (hadvance h hpending)

private theorem Flow.followAll_add (k n : Nat) :
    Flow.followAll code.toArray expected (k + n) f =
      Flow.followAll code.toArray expected n (Flow.followAll code.toArray expected k f) := by
  induction k generalizing f with
  | zero => rw [Nat.zero_add]; rfl
  | succ k ih =>
    cases hpending : f.pending with
    | nil => rw [followAll_nil hpending, followAll_nil hpending, followAll_nil hpending]
    | cons index pending =>
      rw [Nat.succ_add, followAll_cons hpending, followAll_cons hpending, ih]

private theorem Flow.grows_advance (hsize : f.depths.size = code.length) (expected index : Nat)
    (pending : List Nat) :
    ({ f with pending } : Flow).Grows (f.advance code expected index pending) := by
  unfold Flow.advance
  split
  · exact Instruction.grows_follow hsize
  · exact Flow.Grows.refl _

/-- What is known while the control flow is followed is never taken back. -/
theorem Flow.followAll_mono (hsize : f.depths.size = code.length) :
    (Flow.followAll code.toArray expected fuel f).depths.size = code.length ∧
      f.findings <+: (Flow.followAll code.toArray expected fuel f).findings ∧
      ∀ {j d}, f.depth? j = some d →
        (Flow.followAll code.toArray expected fuel f).depth? j = some d := by
  refine followAll_induction (P := fun g => g.depths.size = code.length ∧ f.findings <+: g.findings ∧
    ∀ {j d}, f.depth? j = some d → g.depth? j = some d) ?_ ⟨hsize, List.prefix_rfl, fun h => h⟩
  rintro g index pending ⟨hsize, hfindings, hdepth⟩ -
  have hgrows := g.grows_advance hsize expected index pending
  exact ⟨hgrows.size_eq.trans hsize, hfindings.trans hgrows.findings, fun h => hgrows.depth (hdepth h)⟩

/-- A round takes an instruction from those that are pending or not reached, so nothing is pending
when there have been enough rounds. -/
private theorem Flow.pending_followAll (hsize : f.depths.size = code.length)
    (hfuel : f.pending.length + f.unreached ≤ fuel) :
    (Flow.followAll code.toArray expected fuel f).pending = [] := by
  induction fuel generalizing f with
  | zero => exact List.length_eq_zero_iff.1 (by rw [followAll]; omega)
  | succ fuel ih =>
    cases hpending : f.pending with
    | nil => rw [followAll_nil hpending, hpending]
    | cons index pending =>
      have hgrows := f.grows_advance hsize expected index pending
      rw [followAll_cons hpending]
      refine ih (hgrows.size_eq.trans hsize) ?_
      have hmeasure : _ ≤ pending.length + f.unreached := hgrows.measure
      rw [hpending, List.length_cons] at hfuel
      omega

private theorem Flow.Queued.advance {done pending : List Nat} (h : f.Queued done)
    (hsize : f.depths.size = code.length) (hpending : f.pending = index :: pending) :
    (f.advance code expected index pending).Queued (index :: done) := by
  have hperm : (pending ++ index :: done).Perm (f.pending ++ done) := by
    rw [hpending]
    exact List.perm_middle
  have h' : ({ f with pending } : Flow).Queued (index :: done) :=
    ⟨hperm.nodup_iff.2 h.nodup, fun i hi => h.reached i (hperm.mem_iff.1 hi)⟩
  unfold Flow.advance
  split
  · exact h'.follow hsize
  · exact h'

private theorem Flow.Queued.followAll {done : List Nat} (h : f.Queued done)
    (hsize : f.depths.size = code.length) :
    ∃ done', (Flow.followAll code.toArray expected fuel f).Queued done' ∧ done ⊆ done' := by
  refine (followAll_induction (P := fun g => g.depths.size = code.length ∧ ∃ done', g.Queued done' ∧ done ⊆ done') ?_
    ⟨hsize, done, h, List.Subset.refl _⟩).2
  rintro g index pending ⟨hsize, done', h, hsub⟩ hpending
  exact ⟨(g.grows_advance hsize expected index pending).size_eq.trans hsize, index :: done',
    h.advance hsize hpending, List.Subset.trans hsub (List.subset_cons_self index done')⟩

/-- What holds while the control flow is followed: an instruction that is reached is pending or
safe. -/
structure Flow.Settled (f : Flow) (code : List Instruction) (expected : Nat) : Prop where
  size_eq : f.depths.size = code.length
  settled : ∀ {index depth}, f.depth? index = some depth → index ∈ f.pending ∨
    ∃ i, code[index]? = some i ∧
      i.Steady code.length expected (fun j d => f.depth? j = some d) index depth

/-- To look at a pending instruction leaves the flow settled, if nothing is found. -/
private theorem Flow.Settled.follow (h : f.Settled code expected) {pending : List Nat}
    (hpending : f.pending = index :: pending) (hi : code[index]? = some i)
    (hdepth : f.depth? index = some depth)
    (hfindings : (i.follow code.length expected { f with pending } index depth).findings = []) :
    (i.follow code.length expected { f with pending } index depth).Settled code expected := by
  have hgrows : ({ f with pending } : Flow).Grows
      (i.follow code.length expected { f with pending } index depth) :=
    i.grows_follow h.size_eq
  refine ⟨hgrows.size_eq.trans h.size_eq, fun {j d} hj => ?_⟩
  -- what is known was known before, or is pending now
  rcases hgrows.fresh hj with hold | hj'
  · have hold : f.depth? j = some d := hold
    by_cases hji : j = index
    · subst hji
      obtain rfl : d = depth := Option.some.inj (hold.symm.trans hdepth)
      exact .inr ⟨i, hi, i.steady_of_follow h.size_eq hfindings⟩
    · rcases h.settled hold with hin | ⟨i', hi', hsteady⟩
      · rw [hpending] at hin
        exact .inl (hgrows.pending ((List.mem_cons.1 hin).resolve_left hji))
      · exact .inr ⟨i', hi', hsteady.mono hgrows.depth⟩
  · exact .inl hj'

private theorem Flow.Settled.advance (h : f.Settled code expected) {pending : List Nat}
    (hpending : f.pending = index :: pending)
    (hfindings : (f.advance code expected index pending).findings = []) :
    (f.advance code expected index pending).Settled code expected := by
  unfold Flow.advance at hfindings ⊢
  split at hfindings
  · next depth i hdepth hi => exact h.follow hpending hi hdepth hfindings
  · next hnone =>
    -- an instruction that was reached stands in the code
    have hdepth : f.depth? index = none := by
      cases hdepth : f.depth? index with
      | none => rfl
      | some depth =>
        have hlt : index < code.length := h.size_eq ▸ Flow.lt_of_depth? hdepth
        exact (hnone _ _ hdepth (List.getElem?_eq_getElem hlt)).elim
    refine ⟨h.size_eq, fun {j d} hj => ?_⟩
    have hj : f.depth? j = some d := hj
    refine (h.settled hj).imp_left fun hin => ?_
    rw [hpending] at hin
    refine (List.mem_cons.1 hin).resolve_left fun hji => ?_
    rw [hji, hdepth] at hj
    cases hj

theorem Flow.Settled.followAll (h : f.Settled code expected)
    (hfindings : (Flow.followAll code.toArray expected fuel f).findings = []) :
    (Flow.followAll code.toArray expected fuel f).Settled code expected := by
  -- nothing was found before either
  refine (followAll_induction (P := fun g => g.depths.size = code.length ∧ (g.findings = [] → g.Settled code expected))
    ?_ ⟨h.size_eq, fun _ => h⟩).2 hfindings
  rintro g index pending ⟨hsize, hsettled⟩ hpending
  have hgrows := g.grows_advance hsize expected index pending
  exact ⟨hgrows.size_eq.trans hsize, fun hnil => (hsettled (hgrows.findings_eq_nil hnil)).advance hpending hnil⟩

end

/-! ### The flow of a body -/

section

variable {index : Nat}

theorem Flow.depth?_start {length : Nat} (h : 0 < length) :
    (Flow.start length).depth? index = if index = 0 then some 0 else none := by
  by_cases h0 : index = 0
  · subst h0
    simp [Flow.start, Flow.depth?, h]
  · have h0' : 0 ≠ index := fun h => h0 h.symm
    simp only [Flow.start, Flow.depth?, Array.getElem?_setIfInBounds, if_neg h0', if_neg h0]
    rw [Array.getElem?_replicate]
    split <;> rfl

private theorem Flow.measure_start {length : Nat} (h : 0 < length) :
    (Flow.start length).pending.length + (Flow.start length).unreached = length := by
  have hunreached : (Flow.start length).unreached + 1 =
      Flow.unreached ⟨Array.replicate length none, [], []⟩ :=
    Flow.unreached_set (f := ⟨Array.replicate length none, [], []⟩) 0 (by simpa using h)
      (by simp [Flow.depth?, h]) [0]
  have hnone : Flow.unreached ⟨Array.replicate length none, [], []⟩ = length := by
    simp [Flow.unreached, List.countP_replicate]
  have hlength : (Flow.start length).pending.length = 1 := rfl
  omega

theorem Flow.size_start (length : Nat) : (Flow.start length).depths.size = length := by
  simp [Flow.start]

theorem Flow.settled_start {code : List Instruction} (h : 0 < code.length) (expected : Nat) :
    (Flow.start code.length).Settled code expected where
  size_eq := size_start _
  settled hi := by
    rw [Flow.depth?_start h] at hi
    split at hi
    · next h0 => exact .inl (h0 ▸ List.mem_cons_self)
    · cases hi

private theorem Flow.queued_start {length : Nat} (h : 0 < length) : (Flow.start length).Queued [] where
  nodup := by simp [start]
  reached i hi := by
    have hi : i ∈ [0] := hi
    rw [List.mem_singleton.1 hi, depth?_start h]
    rfl

namespace Body

variable (b : Body) (expected : Nat)

/-- The flow of a body after the given number of rounds. -/
def flow (rounds : Nat) : Flow :=
  Flow.followAll b.code.toArray expected rounds (.start b.code.length)

variable {b expected}

theorem length_pos_of_ne_nil (h : b.code ≠ []) : 0 < b.code.length :=
  List.length_pos_iff.2 h

theorem stackFindings_eq (h : b.code ≠ []) :
    b.stackFindings expected = (b.flow expected b.code.length).findings := by
  unfold stackFindings
  rw [if_neg (by rwa [List.isEmpty_iff])]
  rfl

/-- When there have been as many rounds as there are instructions, all that is pending has been
looked at. -/
theorem pending_flow (h : b.code ≠ []) : (b.flow expected b.code.length).pending = [] :=
  Flow.pending_followAll (Flow.size_start _)
    (Nat.le_of_eq (Flow.measure_start (length_pos_of_ne_nil h)))

/-- Further rounds change nothing. -/
theorem flow_eq (h : b.code ≠ []) {rounds : Nat} (hrounds : b.code.length ≤ rounds) :
    b.flow expected rounds = b.flow expected b.code.length := by
  obtain ⟨n, rfl⟩ := Nat.exists_eq_add_of_le hrounds
  rw [flow, Flow.followAll_add]
  exact Flow.followAll_nil (pending_flow h)

/-- An instruction that is looked at in a round is not looked at in a later one. -/
theorem head?_flow_ne (h : b.code ≠ []) {i k l : Nat} (hkl : k < l)
    (hk : (b.flow expected k).pending.head? = some i) :
    (b.flow expected l).pending.head? ≠ some i := by
  have hpos := length_pos_of_ne_nil h
  have hsize : (b.flow expected k).depths.size = b.code.length :=
    (Flow.followAll_mono (Flow.size_start _)).1
  obtain ⟨done, hqueued, _⟩ : ∃ done, (b.flow expected k).Queued done ∧ [] ⊆ done :=
    (Flow.queued_start hpos).followAll (Flow.size_start _)
  obtain ⟨pending, hpending⟩ := List.head?_eq_some_iff.1 hk
  obtain ⟨n, rfl⟩ := Nat.exists_eq_add_of_lt hkl
  have hflow : b.flow expected (k + n + 1) = Flow.followAll b.code.toArray expected n
      ((b.flow expected k).advance b.code expected i pending) := by
    rw [Nat.add_assoc, flow, Flow.followAll_add]
    exact Flow.followAll_cons hpending
  -- from the round `k` on, the instruction has been looked at
  have hsize' := ((b.flow expected k).grows_advance hsize expected i pending).size_eq.trans hsize
  rw [hflow]
  obtain ⟨done', hqueued', hsub⟩ := (hqueued.advance hsize hpending).followAll hsize'
  intro hl
  obtain ⟨pending', hpending'⟩ := List.head?_eq_some_iff.1 hl
  have hnodup := hqueued'.nodup
  rw [hpending', List.cons_append, List.nodup_cons] at hnodup
  exact hnodup.1 (List.mem_append_right _ (hsub List.mem_cons_self))

end Body

end

end AdviceWeaving
