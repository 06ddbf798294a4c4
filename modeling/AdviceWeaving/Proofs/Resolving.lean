import AdviceWeaving.Proofs.Derived
import AdviceWeaving.Proofs.Numbering
import AdviceWeaving.Proofs.Paths
import AdviceWeaving.Proofs.RoundTrip
import Mathlib.Data.List.Induction

/-!
# What lines resolve to

The lines of a body resolve unless one of them repeats a label (`FirstRepeat`) or stands for nothing
(`FirstFault`).  A repeated label counts first, wherever it stands; of the lines that stand for nothing the first
counts.  What a line stands for is told by the labels of all lines, not by the search for them: a branch leads to
the index of the only line with its label (`IsLabelled`, `Line.Means`).  `resolve_exact` says that `resolve` does just
this, and that the branches of every body that is read from text lead into it.
-/

namespace AdviceWeaving

/-! ### The first that fails -/

/-- A place in a list with one more element in front: before that element, or in the list. -/
private theorem exists_place_cons_iff {α : Type} {P : List α → α → Prop} {a : α} {l : List α} :
    (∃ front x back, a :: l = front ++ x :: back ∧ P front x) ↔
      P [] a ∨ ∃ front x back, l = front ++ x :: back ∧ P (a :: front) x := by
  constructor
  · rintro ⟨_ | ⟨b, front⟩, x, back, hsplit, h⟩
    · cases hsplit
      exact .inl h
    · cases hsplit
      exact .inr ⟨front, x, back, rfl, h⟩
  · rintro (h | ⟨front, x, back, rfl, h⟩)
    · exact ⟨[], a, l, rfl, h⟩
    · exact ⟨a :: front, x, back, rfl, h⟩

private theorem mapM_eq_error_iff {ε α β : Type} {f : α → Except ε β} {xs : List α} {e : ε} :
    xs.mapM f = .error e ↔
      ∃ front x back, xs = front ++ x :: back ∧ (∀ y ∈ front, ∀ e', f y ≠ .error e') ∧ f x = .error e := by
  induction xs with
  | nil => simp [pure, Except.pure]
  | cons x xs ih =>
    rw [exists_place_cons_iff, List.mapM_cons]
    cases hx : f x with
    | error e' => simp [bind, Except.bind, hx]
    | ok y =>
      have htail : (do let ys ← xs.mapM f; pure (y :: ys)) = .error e ↔ xs.mapM f = .error e := by
        cases xs.mapM f <;> simp [bind, Except.bind, pure, Except.pure]
      simpa [bind, Except.bind, hx] using htail.trans ih

/-! ### Labels -/

/-- The labels of lines, in order. -/
def lineLabels (lines : List Line) : List String :=
  lines.filterMap (·.label)

/-- The label is that of the first line that has the label of a line before it. -/
def FirstRepeat (lines : List Line) (label : String) : Prop :=
  ∃ front line back, lines = front ++ line :: back ∧
    line.label = some label ∧ label ∈ lineLabels front ∧ (lineLabels front).Nodup

/-- The line at the index has the label, and no other line has. -/
def IsLabelled (lines : List Line) (label : String) (index : Nat) : Prop :=
  ∀ k, (lines[k]?.bind (·.label)) = some label ↔ k = index

private theorem IsLabelled.lt_length {lines : List Line} {label : String} {index : Nat}
    (h : IsLabelled lines label index) : index < lines.length := by
  by_contra hlt
  have hline := (h index).2 rfl
  rw [List.getElem?_eq_none (Nat.le_of_not_lt hlt)] at hline
  cases hline

/-- The search, with labels that were seen before the lines. -/
private theorem repeatedLabel?_eq_some_iff {seen : List String} {lines : List Line} {label : String} :
    repeatedLabel? seen lines = some label ↔
      ∃ front line back, lines = front ++ line :: back ∧ line.label = some label ∧
        (label ∈ seen ∨ label ∈ lineLabels front) ∧ (lineLabels front).Nodup ∧
        ∀ l ∈ lineLabels front, l ∉ seen := by
  induction lines generalizing seen with
  | nil => simp [repeatedLabel?]
  | cons line lines ih =>
    rw [exists_place_cons_iff]
    obtain ⟨_ | own, _, _⟩ := line
    · simp [repeatedLabel?, ih, lineLabels]
    · rw [repeatedLabel?]
      by_cases hseen : own ∈ seen
      · -- no place behind this line is the first
        simp only [hseen, if_true, lineLabels, List.filterMap_cons, List.mem_cons, forall_eq_or_imp]
        grind
      · rw [if_neg hseen, ih]
        simp only [lineLabels, List.filterMap_cons, List.mem_cons, forall_eq_or_imp]
        grind

private theorem repeatedLabel?_nil_eq_some_iff {lines : List Line} {label : String} :
    repeatedLabel? [] lines = some label ↔ FirstRepeat lines label := by
  simp [repeatedLabel?_eq_some_iff, FirstRepeat]

private theorem repeatedLabel?_nil_eq_none_iff {lines : List Line} :
    repeatedLabel? [] lines = none ↔ ∀ label, ¬ FirstRepeat lines label := by
  simp only [Option.eq_none_iff_forall_ne_some, ne_eq, repeatedLabel?_nil_eq_some_iff]

/-- The labels of lines are distinct unless one is repeated. -/
private theorem nodup_lineLabels {lines : List Line} (h : ∀ label, ¬ FirstRepeat lines label) :
    (lineLabels lines).Nodup := by
  have hfront : ∀ front back, lines = front ++ back → (lineLabels front).Nodup := by
    intro front
    induction front using List.reverseRecOn with
    | nil => exact fun _ _ => List.nodup_nil
    | append_singleton front line ih =>
      intro back hsplit
      have hsplit : lines = front ++ line :: back := by simpa using hsplit
      have hnodup := ih _ hsplit
      cases hlabel : line.label with
      | none => simpa [lineLabels, hlabel] using hnodup
      | some label =>
        have hnew : label ∉ lineLabels front := fun hmem => h label ⟨front, line, back, hsplit, hlabel, hmem, hnodup⟩
        have hlabels : lineLabels (front ++ [line]) = lineLabels front ++ [label] := by simp [lineLabels, hlabel]
        rw [hlabels]
        simpa [List.nodup_append, hnodup] using fun l hl => ne_of_mem_of_not_mem hl hnew
  exact hfront lines [] (by simp)

/-- Of lines with distinct labels, the first that is found with a label is the only one. -/
private theorem lineIndex?_eq_some_iff {lines : List Line} (hnodup : (lineLabels lines).Nodup) {label : String}
    {index : Nat} :
    lineIndex? lines label = some index ↔ IsLabelled lines label index := by
  have hunique : ∀ i j : Nat, (lines[i]?.bind (·.label)) = some label →
      (lines[j]?.bind (·.label)) = some label → i = j := by
    intro i j hi hj
    obtain ⟨line, hline, hlabel⟩ := Option.bind_eq_some_iff.1 hi
    obtain ⟨line', hline', hlabel'⟩ := Option.bind_eq_some_iff.1 hj
    obtain ⟨hilt, rfl⟩ := List.getElem?_eq_some_iff.1 hline
    obtain ⟨hjlt, rfl⟩ := List.getElem?_eq_some_iff.1 hline'
    have hpairs := List.pairwise_iff_getElem.1 (List.pairwise_filterMap.1 hnodup)
    obtain h | h | h := Nat.lt_trichotomy i j
    · exact absurd rfl (hpairs i j hilt hjlt h label hlabel label hlabel')
    · exact h
    · exact absurd rfl (hpairs j i hjlt hilt h label hlabel' label hlabel)
  rw [lineIndex?, List.findIdx?_eq_some_iff_getElem]
  constructor
  · rintro ⟨hlt, hlabel, -⟩ k
    have hline : (lines[index]?.bind (·.label)) = some label := by simpa [List.getElem?_eq_getElem hlt] using hlabel
    exact ⟨fun hk => hunique k index hk hline, fun hk => hk ▸ hline⟩
  · intro h
    have hlt := h.lt_length
    refine ⟨hlt, by simpa [List.getElem?_eq_getElem hlt] using (h index).2 rfl, fun j hj hlabel => ?_⟩
    have hjlt : j < lines.length := Nat.lt_trans hj hlt
    exact Nat.ne_of_lt hj ((h j).1 (by simpa [List.getElem?_eq_getElem hjlt] using hlabel))

private theorem lineIndex?_eq_none_iff {lines : List Line} {label : String} :
    lineIndex? lines label = none ↔ label ∉ lineLabels lines := by
  simp [lineIndex?, lineLabels]

/-! ### What a line stands for -/

/-- The operand that a line has, in a body of the given lines.  A branch counts its lines in 64 bits. -/
inductive WrittenOperand.Means (lines : List Line) : WrittenOperand → Operand → Prop
  | complete (o : Operand) : Means lines (.complete o) o
  | line {label : String} {index : Nat} (only : IsLabelled lines label index) :
      Means lines (.line label) (.label (UInt64.ofNat index))

/-- The line stands for the instruction with its mnemonic and its operand, in a body of the given lines. -/
structure Line.Means (lines : List Line) (line : Line) (i : Instruction) : Prop where
  mnemonic_eq : i.mnemonic = line.mnemonic
  operand : line.operand.Means lines i.operand

/-- Why a line stands for nothing, in a body of the given lines. -/
inductive Line.Faulty (lines : List Line) (line : Line) : LabelFault → Prop
  | unknown {label : String} (operand : line.operand = .line label) (absent : label ∉ lineLabels lines) :
      Faulty lines line (.unknown label)
  | unfit {o : Operand} (operand : line.operand.Means lines o)
      (unfit : ∀ kind, operandKind? line.mnemonic = some kind → ¬ kind.Admits o) :
      Faulty lines line (.unfit line.mnemonic o)

/-- The fault is that of the first line that stands for nothing. -/
def FirstFault (lines : List Line) (fault : LabelFault) : Prop :=
  ∃ front line back, lines = front ++ line :: back ∧
    (∀ l ∈ front, ∀ f, ¬ l.Faulty lines f) ∧ line.Faulty lines fault

section

variable {lines : List Line} (hnodup : (lineLabels lines).Nodup)

include hnodup

private theorem WrittenOperand.resolve_eq_ok_iff {w : WrittenOperand} {o : Operand} :
    w.resolve (lineIndex? lines) = .ok o ↔ w.Means lines o := by
  cases w with
  | complete o' =>
    constructor
    · intro h
      cases h
      exact .complete o
    · rintro ⟨⟩
      rfl
  | line label =>
    rw [resolve]
    constructor
    · intro h
      split at h
      next hindex =>
        cases h
        exact .line ((lineIndex?_eq_some_iff hnodup).1 hindex)
      · cases h
    · rintro (_ | honly)
      rw [(lineIndex?_eq_some_iff hnodup).2 honly]

private theorem Line.resolve_eq_ok_iff_means {line : Line} {i : Instruction} :
    line.resolve (lineIndex? lines) = .ok i ↔ line.Means lines i := by
  simp only [resolve_eq_ok_iff, WrittenOperand.resolve_eq_ok_iff hnodup, Instruction.build_eq_some_iff]
  constructor
  · rintro ⟨_, ho, hm, rfl⟩
    exact ⟨hm, ho⟩
  · rintro ⟨hm, ho⟩
    exact ⟨_, ho, hm, rfl⟩

private theorem Line.resolve_eq_error_iff_faulty {line : Line} {fault : LabelFault} :
    line.resolve (lineIndex? lines) = .error fault ↔ line.Faulty lines fault := by
  have hunknown : line.operand.resolve (lineIndex? lines) = .error fault ↔
      ∃ label, line.operand = .line label ∧ label ∉ lineLabels lines ∧ fault = .unknown label := by
    cases hw : line.operand with
    | complete o => simp [WrittenOperand.resolve]
    | line label =>
      rw [WrittenOperand.resolve]
      cases hindex : lineIndex? lines label with
      | some index => simp [← lineIndex?_eq_none_iff, hindex]
      | none => simp [← lineIndex?_eq_none_iff, hindex, eq_comm]
  rw [resolve_eq_error_iff, hunknown]
  simp only [WrittenOperand.resolve_eq_ok_iff hnodup, Instruction.build_eq_none_iff]
  constructor
  · rintro (⟨label, hlabel, habsent, rfl⟩ | ⟨o, ho, hunfit, rfl⟩)
    · exact .unknown hlabel habsent
    · exact .unfit ho hunfit
  · rintro (⟨hlabel, habsent⟩ | ⟨ho, hunfit⟩)
    · exact .inl ⟨_, hlabel, habsent, rfl⟩
    · exact .inr ⟨_, ho, hunfit, rfl⟩

end

/-- A line whose operand is not a target itself stands for one only with the index of a line. -/
private theorem Line.Means.target_lt {lines : List Line} {line : Line} {i : Instruction} (h : line.Means lines i)
    (hline : ∀ target, line.operand ≠ .complete (.label target)) :
    ∀ target, i.target? = some target → target.toNat < lines.length := by
  intro target htarget
  obtain ⟨op, rfl⟩ : ∃ op, i = .branch op target := by
    cases i with
    | branch op target' => exact ⟨op, by rw [Option.some.inj htarget]⟩
    | _ => cases htarget
  have hoperand : line.operand.Means lines (.label target) := h.operand
  generalize hw : line.operand = w at hoperand
  cases hoperand with
  | complete => exact (hline target hw).elim
  | line honly => exact Nat.lt_of_le_of_lt (Nat.mod_le _ _) honly.lt_length

/-! ### Bodies that are read -/

/-- Lines that resolve have distinct labels, and each of them stands for the instruction at its place. -/
private theorem resolve_eq_ok_iff {lines : List Line} {code : List Instruction} :
    resolve lines = .ok code ↔
      (∀ label, ¬ FirstRepeat lines label) ∧ List.Forall₂ (fun line i => line.Means lines i) lines code := by
  rw [resolve]
  cases hrepeated : repeatedLabel? [] lines with
  | some label =>
    have hfirst : FirstRepeat lines label := repeatedLabel?_nil_eq_some_iff.1 hrepeated
    exact iff_of_false (by simp) fun h => h.1 label hfirst
  | none =>
    have hnone : ∀ label, ¬ FirstRepeat lines label := repeatedLabel?_nil_eq_none_iff.1 hrepeated
    simp only [mapM_eq_ok_iff, Line.resolve_eq_ok_iff_means (nodup_lineLabels hnone)]
    exact ⟨fun h => ⟨hnone, h⟩, And.right⟩

private theorem resolve_eq_error_iff {lines : List Line} {fault : LabelFault} :
    resolve lines = .error fault ↔
      (∃ label, FirstRepeat lines label ∧ fault = .duplicate label) ∨
        (∀ label, ¬ FirstRepeat lines label) ∧ FirstFault lines fault := by
  rw [resolve]
  cases hrepeated : repeatedLabel? [] lines with
  | some label =>
    have hfirst : ∀ l, FirstRepeat lines l ↔ label = l := fun l => by
      rw [← repeatedLabel?_nil_eq_some_iff, hrepeated, Option.some.injEq]
    simp [hfirst, eq_comm]
  | none =>
    have hnone : ∀ label, ¬ FirstRepeat lines label := repeatedLabel?_nil_eq_none_iff.1 hrepeated
    simp [mapM_eq_error_iff, ne_eq, Line.resolve_eq_error_iff_faulty (nodup_lineLabels hnone), hnone, FirstFault]

/-- What a tree of an operand stands for is never a target itself. -/
private theorem OperandTree.value_ne_label {kind : OperandKind} (d : OperandTree kind) (target : UInt64) :
    d.value ≠ .complete (.label target) := by
  cases d <;> nofun

/-- What a tree of a body stands for branches only into itself. -/
private theorem BodyTree.targetsInRange_of_value {d : BodyTree} {b : Body} (h : d.value = some b) :
    b.TargetsInRange := by
  obtain ⟨code, hcode, rfl⟩ := Option.map_eq_some_iff.1 h
  have hresolve : resolve (d.lines.map (·.value)) = .ok code := by
    cases hr : resolve (d.lines.map (·.value)) with
    | error fault => rw [hr] at hcode; cases hcode
    | ok code' => rw [hr] at hcode; cases hcode; rfl
  obtain ⟨-, hmeans⟩ := resolve_eq_ok_iff.1 hresolve
  intro i hi target htarget
  obtain ⟨line, hline, hmean⟩ := exists_of_forall₂ hmeans i hi
  obtain ⟨l, -, rfl⟩ := List.mem_map.1 hline
  have hlt := hmean.target_lt l.operand.value_ne_label target htarget
  exact hmeans.length_eq ▸ hlt

private theorem MemberTree.targetsInRange_of_value {d : MemberTree} {x : Method} (h : d.value = some (.method x)) :
    x.TargetsInRange := by
  obtain ⟨attributes, _ | _ | ⟨access, isStatic, name, params, ret, body⟩⟩ := d
  · cases h
  · cases h
  · obtain ⟨body', hbody, hx⟩ := Option.map_eq_some_iff.1 h
    cases hx
    rintro b (rfl : body' = some b)
    cases body with
    | none => cases hbody
    | some d =>
      obtain ⟨b', hb', heq⟩ := Option.map_eq_some_iff.1 hbody
      cases heq
      exact d.targetsInRange_of_value hb'

private theorem exists_of_mapM_eq_some {α β : Type} {f : α → Option β} {xs : List α} {ys : List β}
    (h : xs.mapM f = some ys) :
    ∀ y ∈ ys, ∃ x ∈ xs, f x = some y := by
  induction xs generalizing ys with
  | nil =>
    cases h
    nofun
  | cons x xs ih =>
    rw [List.mapM_cons] at h
    obtain ⟨y, hy, h⟩ := Option.bind_eq_some_iff.1 h
    obtain ⟨ys', hys', h⟩ := Option.bind_eq_some_iff.1 h
    cases h
    exact List.forall_mem_cons.2 ⟨⟨x, by simp, hy⟩, fun z hz =>
      let ⟨x', hx', hz'⟩ := ih hys' z hz
      ⟨x', List.mem_cons_of_mem x hx', hz'⟩⟩

private theorem TypeTree.targetsInRange_of_value {d : TypeTree} {t : TypeDecl} (h : d.value = some t) :
    t.TargetsInRange := by
  obtain ⟨members, hmembers, rfl⟩ := Option.map_eq_some_iff.1 h
  intro x hx
  obtain ⟨a, ha, hax⟩ := List.mem_filterMap.1 hx
  obtain ⟨member, -, hmember⟩ := exists_of_mapM_eq_some hmembers a ha
  cases a <;> cases hax
  exact member.targetsInRange_of_value hmember

namespace Module

/-- Numbering leaves the bodies as they are. -/
private theorem targetsInRange_assignIds {m : Module} : m.assignIds.TargetsInRange ↔ m.TargetsInRange := by
  have hwithout (m : Module) : m.TargetsInRange ↔ ∀ t ∈ m.types.map (·.withoutId), t.TargetsInRange := by
    simp [TargetsInRange, TypeDecl.TargetsInRange, Method.TargetsInRange, TypeDecl.withoutId, Method.withoutId]
  rw [hwithout, withoutId_assignIds, ← hwithout]

/-- Whatever text a module is read from, its bodies branch only into themselves. -/
private theorem targetsInRange_of_parse {source : String} {m : Module} (h : (parse source).module? = some m) :
    m.TargetsInRange := by
  simp only [parse] at h
  cases hread : Rule.module (lex source).tokens with
  | error fault =>
    rw [hread] at h
    cases h
  | ok found =>
    rw [hread] at h
    cases h
    obtain ⟨-, -, d, -, hvalue⟩ := Rule.takes_module (lex source).tokens found.1 found.2.val (by rw [hread]; rfl)
    obtain ⟨types, htypes, hm⟩ := Option.map_eq_some_iff.1 hvalue
    rw [← hm, ofTypes, targetsInRange_assignIds]
    intro t ht
    obtain ⟨tree, -, htree⟩ := exists_of_mapM_eq_some htypes t ht
    exact tree.targetsInRange_of_value htree

/-- A branch is in range if it leads into its body. -/
private theorem keeps_branchRange_iff {m : Module} : m.verify.certificate.keeps .branchRange ↔ m.TargetsInRange := by
  rw [keeps_verify_iff]
  have hmethod (x : Method) : x.Keeps .branchRange ↔ x.TargetsInRange := by
    cases hbody : x.body with
    | none => simp [Method.Keeps, Method.findings, Method.TargetsInRange, hbody]
    | some b =>
      rw [Method.keeps_iff hbody]
      simp [Instruction.InBounds, Method.TargetsInRange, Body.TargetsInRange, hbody]
  simp only [hmethod, TargetsInRange, TypeDecl.TargetsInRange]
  constructor
  · intro h t ht x hx
    exact h (t, x) (mem_methods.2 ⟨ht, hx⟩)
  · intro h p hp
    obtain ⟨ht, hx⟩ := mem_methods.1 hp
    exact h p.1 ht p.2 hx

end Module

/-- Labels resolve exactly.  A label that is repeated is what lines fail with, and it is that of the first line that
repeats one.  If none is, lines fail with the fault of the first line whose label is absent or whose operand does not
fit its mnemonic.  Otherwise they give one instruction for each line, in order: that with the mnemonic and the operand of
the line, and for a branch the one to the index of the only line with its label.  So every body that is read from text
branches only into itself, and verification finds no branch out of range. -/
theorem resolve_exact :
    (∀ lines label, resolve lines = .error (.duplicate label) ↔ FirstRepeat lines label) ∧
    (∀ lines, (∀ label, ¬ FirstRepeat lines label) →
      (∀ fault, resolve lines = .error fault ↔ FirstFault lines fault) ∧
      ((∀ fault, ¬ FirstFault lines fault) → ∃ code, resolve lines = .ok code)) ∧
    (∀ lines code, resolve lines = .ok code →
      List.Forall₂ (fun line i => line.Means lines i) lines code ∧
      (lines.length ≤ UInt64.size → ∀ (k : Nat) line label, lines[k]? = some line → line.operand = .line label →
        ∃ op target, code[k]? = some (.branch op target) ∧ (Instruction.branch op target).mnemonic = line.mnemonic ∧
          IsLabelled lines label target.toNat)) ∧
    (∀ source m, (parse source).module? = some m →
      m.verify.certificate.keeps .branchRange ∧ ∀ t ∈ m.types, ∀ x ∈ t.methods, x.Keeps .branchRange) := by
  refine ⟨fun lines label => ?_, fun lines hnone => ⟨fun fault => ?_, fun hfault => ?_⟩, fun lines code hcode => ?_,
    fun source m hparse => ?_⟩
  · have hother : ¬ FirstFault lines (.duplicate label) := by
      rintro ⟨_, _, _, _, _, hfault⟩
      cases hfault
    simp [resolve_eq_error_iff, hother]
  · simp [resolve_eq_error_iff, hnone]
  · cases hresolve : resolve lines with
    | ok code => exact ⟨code, rfl⟩
    | error fault =>
      obtain ⟨label, hlabel, -⟩ | ⟨-, hfirst⟩ := resolve_eq_error_iff.1 hresolve
      · exact absurd hlabel (hnone label)
      · exact absurd hfirst (hfault fault)
  · obtain ⟨hnone, hmeans⟩ := resolve_eq_ok_iff.1 hcode
    refine ⟨hmeans, fun hlength k line label hline hjump => ?_⟩
    obtain ⟨hk, rfl⟩ := List.getElem?_eq_some_iff.1 hline
    have hk' : k < code.length := hmeans.length_eq ▸ hk
    have hmean : lines[k].Means lines code[k] := hmeans.get hk hk'
    rw [List.getElem?_eq_getElem hk']
    generalize code[k] = i at hmean ⊢
    obtain ⟨hmnemonic, hoperand⟩ := hmean
    rw [hjump] at hoperand
    generalize ho : i.operand = o at hoperand
    cases hoperand with
    | @line _ index honly =>
    cases i <;> cases ho
    have hindex : (UInt64.ofNat index).toNat = index :=
      UInt64.toNat_ofNat_of_lt' (Nat.lt_of_lt_of_le honly.lt_length hlength)
    exact ⟨_, _, rfl, hmnemonic, hindex.symm ▸ honly⟩
  · have hkeeps := Module.keeps_branchRange_iff.2 (Module.targetsInRange_of_parse hparse)
    exact ⟨hkeeps, fun t ht x hx => (m.keeps_verify_iff _).1 hkeeps (t, x) (Module.mem_methods.2 ⟨ht, hx⟩)⟩

/-- A branch forward leads to the line that has its label; without that line, it is at fault. -/
theorem resolve_exact_forward :
    (resolve [⟨none, "br", .line "end"⟩, ⟨some "end", "ret", .complete .absent⟩] = .ok [.branch .br 1, .simple .ret] ∧
      ∃ op target, [Instruction.branch .br 1, .simple .ret][0]? = some (.branch op target) ∧
        (Instruction.branch op target).mnemonic = "br" ∧
        IsLabelled [⟨none, "br", .line "end"⟩, ⟨some "end", "ret", .complete .absent⟩] "end" target.toNat) ∧
    ((∀ label, ¬ FirstRepeat [⟨none, "br", .line "end"⟩] label) ∧
      resolve [⟨none, "br", .line "end"⟩] = .error (.unknown "end")) ∧
    ((parse "module demo").module? = some { name := "demo" } ∧
      ({ name := "demo" } : Module).verify.certificate.keeps .branchRange) := by
  have hresolve : resolve [⟨none, "br", .line "end"⟩, ⟨some "end", "ret", .complete .absent⟩] =
      .ok [.branch .br 1, .simple .ret] := by decide
  have hnone : ∀ label, ¬ FirstRepeat [⟨none, "br", .line "end"⟩] label := fun label h => by
    cases (resolve_exact.1 _ label).2 h
  have hfault : FirstFault [⟨none, "br", .line "end"⟩] (.unknown "end") :=
    ⟨[], _, [], rfl, nofun, .unknown rfl (by decide)⟩
  have hparse : (parse "module demo").module? = some { name := "demo" } := by decide +kernel
  exact ⟨⟨hresolve, (resolve_exact.2.2.1 _ _ hresolve).2 (by decide) 0 _ _ rfl rfl⟩,
    ⟨hnone, ((resolve_exact.2.1 _ hnone).1 _).2 hfault⟩,
    hparse, (resolve_exact.2.2.2 _ _ hparse).1⟩

end AdviceWeaving
