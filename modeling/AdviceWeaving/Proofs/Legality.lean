import AdviceWeaving.Violation
import Mathlib.Data.List.Pairwise
import Mathlib.Tactic.Tauto

/-!
# What the checks of advice find

The rules of advice, stated without the checks: advice that keeps those which do not concern its target is
`Advice.Legal`, and it `Fits` a target that returns what it takes.  The checks of a marker type pass if and only if all
of its advice is legal and fits all targets.  Otherwise what they find is told by `MarkerType.Reports`: faults of the
advice itself go first, those of the first faulty advice on the first target, and the rules have an order
(`MarkerType.firstViolation?_exact`).
-/

namespace AdviceWeaving

/-! ### The rules -/

/-- The parameter takes the return value of the target. -/
def Binding.TakesReturn (b : Binding) : Prop :=
  b.source = some .targetReturnValue

/-- The rules that a parameter can break by itself. -/
inductive Binding.Faulty (b : Binding) : AdviceRule → Prop
  | unbound (source : b.source = none) : b.Faulty (.unbound b.parameter)
  | nameType (source : b.source = some .targetName) (type : b.type ≠ .string) : b.Faulty (.nameType b.parameter b.type)

namespace Advice

/-- No parameter takes the return value before there is one. -/
def Waits (a : Advice) : Prop :=
  a.timing = .onEntry → ∀ b ∈ a.bindings, ¬ b.TakesReturn

/-- At most one parameter takes the return value. -/
def TakesOnce (a : Advice) : Prop :=
  a.bindings.Pairwise fun b c => ¬ (b.TakesReturn ∧ c.TakesReturn)

/-- Advice that keeps all rules which do not concern its target. -/
structure Legal (a : Advice) : Prop where
  few : a.bindings.length ≤ 2
  bound : ∀ b ∈ a.bindings, b.source ≠ none
  named : ∀ b ∈ a.bindings, b.source = some .targetName → b.type = .string
  waits : a.Waits
  once : a.TakesOnce

/-- What the advice takes is what the target returns. -/
def Fits (a : Advice) (t : Target) : Prop :=
  ∀ b ∈ a.bindings, b.TakesReturn → t.ret ≠ .void ∧ t.ret = b.type

/-- The rule that advice breaks, of those which do not concern its target, and the first one if there are more. -/
inductive Breaks (a : Advice) : AdviceRule → Prop
  | arity (many : 2 < a.bindings.length) : a.Breaks (.arity a.bindings.length)
  | bindingConflict (few : a.bindings.length ≤ 2) (early : ¬ a.Waits) : a.Breaks .bindingConflict
  | parameter {front back : List Binding} {b : Binding} {rule : AdviceRule} (few : a.bindings.length ≤ 2)
      (waits : a.Waits) (split : a.bindings = front ++ b :: back) (first : ∀ c ∈ front, ∀ rule, ¬ c.Faulty rule)
      (faulty : b.Faulty rule) : a.Breaks rule
  | duplicateReturn (few : a.bindings.length ≤ 2) (waits : a.Waits) (fine : ∀ b ∈ a.bindings, ∀ rule, ¬ b.Faulty rule)
      (often : ¬ a.TakesOnce) : a.Breaks .duplicateReturn

end Advice

/-- What the checks of a marker type find on its targets, and on which one. -/
inductive MarkerType.Reports (m : MarkerType) (targets : List Target) : Violation → Target → Prop
  /-- Some advice breaks a rule by itself: the first of this kind is reported against the first target. -/
  | advice {t : Target} {others : List Target} {front back : List Advice} {a : Advice} {rule : AdviceRule}
      (head : targets = t :: others) (split : m.advice = front ++ a :: back) (first : ∀ c ∈ front, c.Legal)
      (breaks : a.Breaks rule) : m.Reports targets ⟨m.name, a.name, rule⟩ t
  /-- All advice is legal by itself: the first target is reported that some of it does not fit, and the first such. -/
  | target {before after : List Target} {t : Target} {front back : List Advice} {a : Advice} {b : Binding}
      (legal : ∀ c ∈ m.advice, c.Legal) (target_split : targets = before ++ t :: after)
      (target_first : ∀ s ∈ before, ∀ c ∈ m.advice, c.Fits s) (split : m.advice = front ++ a :: back)
      (first : ∀ c ∈ front, c.Fits t) (mem : b ∈ a.bindings) (takes : b.TakesReturn)
      (misfit : t.ret = .void ∨ t.ret ≠ b.type) :
      m.Reports targets ⟨m.name, a.name, .returnType t.qualified b.type t.ret⟩ t

/-! ### First finds -/

/-- What a search finds first, and where. -/
private theorem findSome?_map_eq_some_iff {α β γ : Type} {f : α → Option β} {g : α → β → γ} {l : List α} {c : γ} :
    l.findSome? (fun a => (f a).map (g a)) = some c ↔
      ∃ front a back b, l = front ++ a :: back ∧ (∀ a' ∈ front, f a' = none) ∧ f a = some b ∧ c = g a b := by
  simp only [List.findSome?_eq_some_iff, Option.map_eq_none_iff, Option.map_eq_some_iff]
  constructor
  · rintro ⟨front, a, back, hl, ⟨b, hb, rfl⟩, hfront⟩
    exact ⟨front, a, back, b, hl, hfront, hb, rfl⟩
  · rintro ⟨front, a, back, b, hl, hfront, hb, rfl⟩
    exact ⟨front, a, back, hl, ⟨b, hb, rfl⟩, hfront⟩

private theorem ValueType.isVoid_iff {type : ValueType} : type.isVoid ↔ type = .void := by
  cases type <;> simp [isVoid]

theorem ValueType.isVoid_eq_false_iff {type : ValueType} : type.isVoid = false ↔ type ≠ .void := by
  rw [← Bool.not_eq_true, isVoid_iff]

private theorem countP_le_one_iff {α : Type} {p : α → Bool} {l : List α} :
    l.countP p ≤ 1 ↔ l.Pairwise fun a b => ¬ (p a ∧ p b) := by
  induction l with
  | nil => simp
  | cons a l ih =>
    rw [List.pairwise_cons, ← ih]
    cases ha : p a with
    | false => simp [ha]
    | true =>
      have hzero : l.countP p = 0 ↔ ∀ b ∈ l, ¬ p b := List.countP_eq_zero
      simp only [List.countP_cons, ha, if_true, true_and, ← hzero]
      omega

/-! ### One parameter -/

private theorem Binding.brokenRule?_eq_some_iff {b : Binding} {rule : AdviceRule} :
    b.brokenRule? = some rule ↔ b.Faulty rule := by
  constructor
  · unfold brokenRule?
    split
    · next hsource =>
      rintro ⟨⟩
      exact .unbound hsource
    · next hsource =>
      split
      · rintro ⟨⟩
      · next htype =>
        rintro ⟨⟩
        exact .nameType hsource htype
    · rintro ⟨⟩
  · rintro (hsource | ⟨hsource, htype⟩)
    · simp [brokenRule?, hsource]
    · simp [brokenRule?, hsource, htype]

private theorem Binding.brokenRule?_eq_none_iff {b : Binding} : b.brokenRule? = none ↔ ∀ rule, ¬ b.Faulty rule := by
  simp only [Option.eq_none_iff_forall_ne_some, ne_eq, brokenRule?_eq_some_iff]

private theorem findSome?_brokenRule?_eq_some_iff {bindings : List Binding} {rule : AdviceRule} :
    bindings.findSome? (·.brokenRule?) = some rule ↔
      ∃ front b back, bindings = front ++ b :: back ∧ (∀ c ∈ front, ∀ rule, ¬ c.Faulty rule) ∧ b.Faulty rule := by
  simp only [List.findSome?_eq_some_iff, Binding.brokenRule?_eq_some_iff, Binding.brokenRule?_eq_none_iff, and_comm]

private theorem findSome?_brokenRule?_eq_none_iff {bindings : List Binding} :
    bindings.findSome? (·.brokenRule?) = none ↔ ∀ b ∈ bindings, ∀ rule, ¬ b.Faulty rule := by
  simp only [List.findSome?_eq_none_iff, Binding.brokenRule?_eq_none_iff]

/-! ### One advice -/

namespace Advice

variable {a : Advice} {t : Target}

theorem waits_iff : a.Waits ↔ ¬ (a.timing = .onEntry ∧ a.binds .targetReturnValue) := by
  simp only [Waits, binds, List.any_eq_true, not_and, not_exists, Binding.TakesReturn]
  simp

theorem takesOnce_iff : a.TakesOnce ↔ a.bindings.countP (·.source = some .targetReturnValue) ≤ 1 := by
  rw [countP_le_one_iff]
  simp only [decide_eq_true_eq]
  rfl

private theorem brokenRule?_eq_some_iff {rule : AdviceRule} : a.brokenRule? = some rule ↔ a.Breaks rule := by
  constructor
  · unfold brokenRule?
    split
    · next hmany =>
      rintro ⟨⟩
      exact .arity hmany
    next hfew =>
    have hfew := Nat.not_lt.1 hfew
    split
    · next hearly =>
      rintro ⟨⟩
      exact .bindingConflict hfew fun hwaits => waits_iff.1 hwaits hearly
    next hlate =>
    have hwaits := waits_iff.2 hlate
    split
    · next found hfound =>
      rintro ⟨⟩
      obtain ⟨front, b, back, hsplit, hfront, hb⟩ := findSome?_brokenRule?_eq_some_iff.1 hfound
      exact .parameter hfew hwaits hsplit hfront hb
    next hfine =>
    split
    · next hoften =>
      rintro ⟨⟩
      exact .duplicateReturn hfew hwaits (findSome?_brokenRule?_eq_none_iff.1 hfine)
        fun honce => Nat.not_le.2 hoften (takesOnce_iff.1 honce)
    · rintro ⟨⟩
  · intro h
    unfold brokenRule? maxAdviceParams
    cases h with
    | arity hmany => rw [if_pos hmany]
    | bindingConflict hfew hearly =>
      rw [if_neg (Nat.not_lt.2 hfew), if_pos (not_not.1 fun hlate => hearly (waits_iff.2 hlate))]
    | parameter hfew hwaits hsplit hfront hb =>
      have hfound := findSome?_brokenRule?_eq_some_iff.2 ⟨_, _, _, hsplit, hfront, hb⟩
      rw [if_neg (Nat.not_lt.2 hfew), if_neg (waits_iff.1 hwaits), hfound]
    | duplicateReturn hfew hwaits hfine hoften =>
      rw [if_neg (Nat.not_lt.2 hfew), if_neg (waits_iff.1 hwaits), findSome?_brokenRule?_eq_none_iff.2 hfine]
      exact if_pos (Nat.not_le.1 fun hle => hoften (takesOnce_iff.2 hle))

/-- The parameters are bound, and names go to strings, if no parameter is faulty. -/
private theorem forall_not_faulty_iff :
    (∀ b ∈ a.bindings, ∀ rule, ¬ b.Faulty rule) ↔
      (∀ b ∈ a.bindings, b.source ≠ none) ∧ ∀ b ∈ a.bindings, b.source = some .targetName → b.type = .string := by
  constructor
  · intro h
    exact ⟨fun b hb hsource => h b hb _ (.unbound hsource),
      fun b hb hsource => not_not.1 fun htype => h b hb _ (.nameType hsource htype)⟩
  · rintro ⟨hbound, hnamed⟩ b hb rule (hsource | ⟨hsource, htype⟩)
    · exact hbound b hb hsource
    · exact htype (hnamed b hb hsource)

private theorem brokenRule?_eq_none_iff : a.brokenRule? = none ↔ a.Legal := by
  constructor
  · intro h
    have hnot (rule : AdviceRule) : ¬ a.Breaks rule := fun hbreaks => by
      rw [brokenRule?_eq_some_iff.2 hbreaks] at h
      cases h
    have hfew : a.bindings.length ≤ 2 := Nat.not_lt.1 fun hmany => hnot _ (.arity hmany)
    have hwaits : a.Waits := not_not.1 fun hearly => hnot _ (.bindingConflict hfew hearly)
    have hbindings : ∀ b ∈ a.bindings, ∀ rule, ¬ b.Faulty rule := by
      refine findSome?_brokenRule?_eq_none_iff.1 (Option.eq_none_iff_forall_ne_some.2 fun rule hfound => ?_)
      obtain ⟨front, b, back, hsplit, hfront, hb⟩ := findSome?_brokenRule?_eq_some_iff.1 hfound
      exact hnot rule (.parameter hfew hwaits hsplit hfront hb)
    have honce : a.TakesOnce := not_not.1 fun hoften => hnot _ (.duplicateReturn hfew hwaits hbindings hoften)
    obtain ⟨hbound, hnamed⟩ := forall_not_faulty_iff.1 hbindings
    exact ⟨hfew, hbound, hnamed, hwaits, honce⟩
  · intro h
    have hfine := forall_not_faulty_iff.2 ⟨h.bound, h.named⟩
    unfold brokenRule? maxAdviceParams
    rw [if_neg (Nat.not_lt.2 h.few), if_neg (waits_iff.1 h.waits), findSome?_brokenRule?_eq_none_iff.2 hfine]
    exact if_neg (Nat.not_lt.2 (takesOnce_iff.1 h.once))

private theorem Legal.not_breaks (h : a.Legal) (rule : AdviceRule) : ¬ a.Breaks rule := fun hbreaks => by
  rw [← brokenRule?_eq_some_iff, brokenRule?_eq_none_iff.2 h] at hbreaks
  cases hbreaks

/-- The parameter that takes the return value is the only one. -/
private theorem Legal.find?_eq_some_iff (h : a.Legal) {b : Binding} :
    a.bindings.find? (·.source = some .targetReturnValue) = some b ↔ b ∈ a.bindings ∧ b.TakesReturn := by
  constructor
  · intro hb
    exact ⟨List.mem_of_find?_eq_some hb, by simpa [Binding.TakesReturn] using List.find?_some hb⟩
  · rintro ⟨hb, htakes⟩
    cases hfind : a.bindings.find? (·.source = some .targetReturnValue) with
    | none => exact absurd htakes (by simpa [Binding.TakesReturn] using List.find?_eq_none.1 hfind b hb)
    | some c =>
      have hc : c.TakesReturn := by simpa [Binding.TakesReturn] using List.find?_some hfind
      have : Std.Symm fun b c : Binding => ¬ (b.TakesReturn ∧ c.TakesReturn) := ⟨fun _ _ h hcb => h hcb.symm⟩
      by_contra hne
      exact h.once.forall hb (List.mem_of_find?_eq_some hfind) (fun heq => hne (heq ▸ rfl)) ⟨htakes, hc⟩

private theorem Legal.brokenPairRule?_eq_some_iff (h : a.Legal) {rule : AdviceRule} :
    a.brokenPairRule? t.qualified t.ret = some rule ↔
      ∃ b ∈ a.bindings, b.TakesReturn ∧ (t.ret = .void ∨ t.ret ≠ b.type) ∧
        rule = .returnType t.qualified b.type t.ret := by
  unfold brokenPairRule?
  cases hfind : a.bindings.find? (·.source = some .targetReturnValue) with
  | none =>
    simp only [reduceCtorEq, false_iff]
    rintro ⟨b, hb, htakes, -⟩
    rw [h.find?_eq_some_iff.2 ⟨hb, htakes⟩] at hfind
    cases hfind
  | some b =>
    have hb : ∀ c, c ∈ a.bindings ∧ c.TakesReturn ↔ c = b := fun c => by
      rw [← h.find?_eq_some_iff, hfind, Option.some.injEq, eq_comm]
    simp only [Option.ite_none_right_eq_some, Option.some.injEq, ValueType.isVoid_iff, ← and_assoc, hb]
    simp only [and_assoc, exists_eq_left, eq_comm (a := rule)]

private theorem Legal.brokenPairRule?_eq_none_iff (h : a.Legal) :
    a.brokenPairRule? t.qualified t.ret = none ↔ a.Fits t := by
  simp only [Option.eq_none_iff_forall_ne_some, ne_eq, h.brokenPairRule?_eq_some_iff]
  constructor
  · intro hnone b hb htakes
    by_contra hmisfit
    exact hnone _ ⟨b, hb, htakes, by tauto, rfl⟩
  · rintro hfits rule ⟨b, hb, htakes, hmisfit, -⟩
    obtain ⟨hret, htype⟩ := hfits b hb htakes
    exact hmisfit.elim hret (· htype)

end Advice

/-! ### A marker type -/

namespace MarkerType

variable {m : MarkerType} {t : Target} {targets : List Target} {v : Violation}

/-- What the rules find that do not concern the target. -/
private theorem findSome?_rule_eq_some_iff :
    (m.advice.findSome? fun a => a.brokenRule?.map (a.violation m.name)) = some v ↔
      ∃ front a back rule, m.advice = front ++ a :: back ∧ (∀ c ∈ front, c.Legal) ∧ a.Breaks rule ∧
        v = ⟨m.name, a.name, rule⟩ := by
  simp only [findSome?_map_eq_some_iff, Advice.brokenRule?_eq_none_iff, Advice.brokenRule?_eq_some_iff,
    Advice.violation]

/-- What the rule finds that concerns the target. -/
private theorem findSome?_pairRule_eq_some_iff (legal : ∀ a ∈ m.advice, a.Legal) :
    (m.advice.findSome? fun a => (a.brokenPairRule? t.qualified t.ret).map (a.violation m.name)) = some v ↔
      ∃ front a back, m.advice = front ++ a :: back ∧ (∀ c ∈ front, c.Fits t) ∧
        ∃ b ∈ a.bindings, b.TakesReturn ∧ (t.ret = .void ∨ t.ret ≠ b.type) ∧
          v = ⟨m.name, a.name, .returnType t.qualified b.type t.ret⟩ := by
  rw [findSome?_map_eq_some_iff]
  constructor
  · rintro ⟨front, a, back, rule, hsplit, hfront, hrule, rfl⟩
    have hlegal : ∀ c ∈ front ++ a :: back, c.Legal := hsplit ▸ legal
    obtain ⟨b, hb, htakes, hmisfit, rfl⟩ := (hlegal a (by simp)).brokenPairRule?_eq_some_iff.1 hrule
    refine ⟨front, a, back, hsplit, fun c hc => ?_, b, hb, htakes, hmisfit, rfl⟩
    exact (hlegal c (List.mem_append_left _ hc)).brokenPairRule?_eq_none_iff.1 (hfront c hc)
  · rintro ⟨front, a, back, hsplit, hfront, b, hb, htakes, hmisfit, rfl⟩
    have hlegal : ∀ c ∈ front ++ a :: back, c.Legal := hsplit ▸ legal
    refine ⟨front, a, back, _, hsplit, fun c hc => ?_,
      (hlegal a (by simp)).brokenPairRule?_eq_some_iff.2 ⟨b, hb, htakes, hmisfit, rfl⟩, rfl⟩
    exact (hlegal c (List.mem_append_left _ hc)).brokenPairRule?_eq_none_iff.2 (hfront c hc)

private theorem findSome?_rule_eq_none_iff :
    (m.advice.findSome? fun a => a.brokenRule?.map (a.violation m.name)) = none ↔ ∀ a ∈ m.advice, a.Legal := by
  simp only [List.findSome?_eq_none_iff, Option.map_eq_none_iff, Advice.brokenRule?_eq_none_iff]

theorem violationOn?_eq_none_iff : m.violationOn? t = none ↔ ∀ a ∈ m.advice, a.Legal ∧ a.Fits t := by
  rw [violationOn?, Option.or_eq_none_iff, findSome?_rule_eq_none_iff, List.findSome?_eq_none_iff]
  simp only [Option.map_eq_none_iff]
  constructor
  · rintro ⟨hlegal, hpair⟩ a ha
    exact ⟨hlegal a ha, (hlegal a ha).brokenPairRule?_eq_none_iff.1 (hpair a ha)⟩
  · intro h
    exact ⟨fun a ha => (h a ha).1, fun a ha => (h a ha).1.brokenPairRule?_eq_none_iff.2 (h a ha).2⟩

theorem firstViolation?_eq_none_iff_legal_and_fits :
    m.firstViolation? targets = none ↔ ∀ t ∈ targets, ∀ a ∈ m.advice, a.Legal ∧ a.Fits t := by
  simp only [firstViolation?, List.findSome?_eq_none_iff, Option.map_eq_none_iff, violationOn?_eq_none_iff]

/-- What the checks find, and on which target, if they find something. -/
private theorem firstViolation?_eq_some_iff : m.firstViolation? targets = some (v, t) ↔ m.Reports targets v t := by
  rw [firstViolation?, findSome?_map_eq_some_iff]
  constructor
  · rintro ⟨before, t, after, v, htargets, hbefore, hv, ⟨⟩⟩
    rcases Option.or_eq_some_iff.1 hv with hrule | ⟨hnone, hpair⟩
    · obtain ⟨front, a, back, rule, hsplit, hfront, hbreaks, rfl⟩ := findSome?_rule_eq_some_iff.1 hrule
      cases before with
      | nil => exact .advice htargets hsplit hfront hbreaks
      | cons s before =>
        -- the advice would have been reported against this target
        have hlegal : a.Legal := (violationOn?_eq_none_iff.1 (hbefore s List.mem_cons_self) a (by simp [hsplit])).1
        exact absurd hbreaks (hlegal.not_breaks rule)
    · have hlegal := findSome?_rule_eq_none_iff.1 hnone
      obtain ⟨front, a, back, hsplit, hfront, b, hb, htakes, hmisfit, rfl⟩ :=
        (findSome?_pairRule_eq_some_iff hlegal).1 hpair
      exact .target hlegal htargets (fun s hs c hc => (violationOn?_eq_none_iff.1 (hbefore s hs) c hc).2) hsplit
        hfront hb htakes hmisfit
  · rintro (⟨htargets, hsplit, hfront, hbreaks⟩ |
      ⟨hlegal, htargets, hbefore, hsplit, hfront, hb, htakes, hmisfit⟩)
    · refine ⟨[], t, _, _, htargets, by simp, ?_, rfl⟩
      exact Option.or_eq_some_iff.2 (.inl (findSome?_rule_eq_some_iff.2 ⟨_, _, _, _, hsplit, hfront, hbreaks, rfl⟩))
    · refine ⟨_, t, _, _, htargets, fun s hs => ?_, ?_, rfl⟩
      · exact violationOn?_eq_none_iff.2 fun c hc => ⟨hlegal c hc, hbefore s hs c hc⟩
      · refine Option.or_eq_some_iff.2 (.inr ⟨findSome?_rule_eq_none_iff.2 hlegal, ?_⟩)
        exact (findSome?_pairRule_eq_some_iff hlegal).2 ⟨_, _, _, hsplit, hfront, _, hb, htakes, hmisfit, rfl⟩

/-- The checks of a marker type accept exactly the advice that is legal and fits all targets, and otherwise they find
what there is to report first. -/
theorem firstViolation?_exact (m : MarkerType) {targets : List Target} (nonempty : targets ≠ []) :
    (m.firstViolation? targets = none ↔
      (∀ a ∈ m.advice, a.Legal) ∧ ∀ t ∈ targets, ∀ a ∈ m.advice, a.Fits t) ∧
    ∀ v t, m.firstViolation? targets = some (v, t) ↔ m.Reports targets v t := by
  refine ⟨?_, fun v t => firstViolation?_eq_some_iff⟩
  rw [firstViolation?_eq_none_iff_legal_and_fits]
  constructor
  · intro h
    obtain ⟨t, ht⟩ := List.exists_mem_of_ne_nil targets nonempty
    exact ⟨fun a ha => (h t ht a ha).1, fun t ht a ha => (h t ht a ha).2⟩
  · rintro ⟨hlegal, hfits⟩ t ht a ha
    exact ⟨hlegal a ha, hfits t ht a ha⟩

end MarkerType

/-! ### A sample -/

namespace Sample

def auditing : MarkerType where
  owner := ⟨0⟩
  name := "Audit"
  advice :=
    [{ name := "Begin", method := ⟨0⟩, timing := .onEntry, ret := .void, isStatic := true
       bindings := [⟨.string, "n", some .targetName⟩], call := ⟨"Audit", "Begin", false, [.string], .void⟩ },
      { name := "End", method := ⟨1⟩, timing := .onExit, ret := .void, isStatic := true
        bindings := [⟨.string, "n", some .targetName⟩, ⟨.int32, "v", some .targetReturnValue⟩]
        call := ⟨"Audit", "End", false, [.string, .int32], .void⟩ }]

def counting : Target :=
  ⟨⟨2⟩, "C", "Count", false, .int32⟩

def resetting : Target :=
  ⟨⟨3⟩, "C", "Reset", false, .void⟩

end Sample

/-- The advice of the sample is legal, and fits the first target but not the second. -/
theorem MarkerType.firstViolation?_exact_sample :
    (∀ a ∈ Sample.auditing.advice, a.Legal ∧ a.Fits Sample.counting) ∧
      Sample.auditing.Reports [Sample.counting, Sample.resetting]
        ⟨"Audit", "End", .returnType "C::Reset" .int32 .void⟩ Sample.resetting := by
  have hnone : Sample.auditing.firstViolation? [Sample.counting] = none := by decide +kernel
  obtain ⟨hlegal, hfits⟩ := (firstViolation?_exact Sample.auditing (List.cons_ne_nil _ _)).1.1 hnone
  refine ⟨fun a ha => ⟨hlegal a ha, hfits _ List.mem_cons_self a ha⟩, ?_⟩
  exact ((firstViolation?_exact Sample.auditing (List.cons_ne_nil _ _)).2 _ _).1 (by decide +kernel)

end AdviceWeaving
