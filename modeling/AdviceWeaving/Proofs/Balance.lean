import AdviceWeaving.Proofs.Depths
import AdviceWeaving.Proofs.Splicing

/-!
# Balance

Straight code turns one stack depth into another (`depthAfter`).  If the code on entry and the code
on exit of a wrapping give back the depth that they are entered with, then the depths of a body can
be carried over to the wrapped body (`Depths.wrap`), and a body that is accepted stays accepted
(`Body.Verifies.wrap`).
-/

namespace AdviceWeaving

/-! ### Straight code -/

/-- The depth behind straight code that is entered with the given depth; there is none if the code
takes what is not there. -/
def depthAfter (depth : Nat) : List Instruction → Option Nat
  | [] => some depth
  | i :: code =>
    if i.stackEffect.pops ≤ depth then
      depthAfter (depth - i.stackEffect.pops + i.stackEffect.pushes) code
    else none

theorem depthAfter_append (depth : Nat) (a b : List Instruction) :
    depthAfter depth (a ++ b) = (depthAfter depth a).bind (depthAfter · b) := by
  induction a generalizing depth with
  | nil => rfl
  | cons i a ih =>
    simp only [List.cons_append, depthAfter]
    split
    · exact ih _
    · rfl

/-- More values below do not matter. -/
theorem depthAfter_add {depth depth' : Nat} {code : List Instruction}
    (h : depthAfter depth code = some depth') (n : Nat) :
    depthAfter (depth + n) code = some (depth' + n) := by
  induction code generalizing depth with
  | nil => cases h; rfl
  | cons i code ih =>
    simp only [depthAfter] at h ⊢
    split at h
    · next hpops =>
      rw [if_pos (by omega)]
      have hdepth : depth + n - i.stackEffect.pops + i.stackEffect.pushes =
          depth - i.stackEffect.pops + i.stackEffect.pushes + n := by omega
      rw [hdepth]
      exact ih h
    · cases h

/-- What is known of the depth inside straight code. -/
private theorem exists_depthAfter_take {depth depth' k : Nat} {code : List Instruction}
    (h : depthAfter depth code = some depth') (hk : k < code.length) :
    ∃ d i, depthAfter depth (code.take k) = some d ∧ code[k]? = some i ∧ i.stackEffect.pops ≤ d ∧
      depthAfter depth (code.take (k + 1)) =
        some (d - i.stackEffect.pops + i.stackEffect.pushes) := by
  induction code generalizing depth k with
  | nil => cases hk
  | cons j code ih =>
    simp only [depthAfter] at h
    split at h
    · next hpops =>
      cases k with
      | zero => exact ⟨depth, j, rfl, rfl, hpops, by simp [depthAfter, hpops]⟩
      | succ k =>
        obtain ⟨d, i, hd, hi, hle, hnext⟩ := ih h (by simpa using hk)
        exact ⟨d, i, by simpa [depthAfter, hpops] using hd, by simpa using hi, hle,
          by simpa [depthAfter, hpops] using hnext⟩
    · cases h

theorem Instruction.stackEffect_mapTarget (f : UInt64 → UInt64) (i : Instruction) :
    (i.mapTarget f).stackEffect = i.stackEffect := by
  cases i with
  | branch op target => cases op <;> rfl
  | _ => rfl

theorem Instruction.fallsThrough_mapTarget (f : UInt64 → UInt64) (i : Instruction) :
    (i.mapTarget f).fallsThrough = i.fallsThrough := by
  cases i with
  | branch op target => cases op <;> rfl
  | _ => rfl

theorem Instruction.fallsThrough_of_isPlain {i : Instruction} (h : i.isPlain) : i.fallsThrough := by
  have htarget := target?_of_isPlain h
  have hreturn := isReturn_of_isPlain h
  cases i with
  | branch op target => cases htarget
  | simple op =>
    cases op with
    | ret => cases hreturn
    | _ => rfl
  | _ => rfl

theorem Instruction.nexts_of_isPlain {i : Instruction} (h : i.isPlain) (index : Nat) :
    i.nexts index = [index + 1] := by
  rw [nexts, if_pos (fallsThrough_of_isPlain h), target?_of_isPlain h]
  rfl

/-! ### Depths in a wrapping -/

namespace Wrapping

variable {w : Wrapping} {code : List Instruction} {expected : Nat} {At : Nat → Nat → Prop}

/-- The depths in a wrapped body: those along the code on entry, and those along the block of every
instruction that is reached, which is entered with the depth of that instruction. -/
inductive DepthAt (w : Wrapping) (code : List Instruction) (At : Nat → Nat → Prop) :
    Nat → Nat → Prop
  | entry {k depth : Nat} (hk : k < w.entry.length)
      (hdepth : depthAfter 0 (w.entry.take k) = some depth) :
      DepthAt w code At k depth
  | block {index d k depth : Nat} {i : Instruction} (hat : At index d) (hi : code[index]? = some i)
      (hk : k < (w.block code i).length)
      (hdepth : depthAfter d ((w.block code i).take k) = some depth) :
      DepthAt w code At (w.place code index + k) depth

private theorem DepthAt.place {index d : Nat} (h : Depths code expected At) (hat : At index d) :
    w.DepthAt code At (w.place code index) d := by
  obtain ⟨i, hi, _⟩ := h.balanced hat
  exact .block (k := 0) hat hi (block_length_pos i) rfl

private theorem DepthAt.start (h : Depths code expected At) : w.DepthAt code At 0 0 := by
  cases hlength : w.entry.length with
  | zero =>
    have hstart : w.DepthAt code At (w.place code 0) 0 := .place h h.start
    rwa [place_zero, hlength] at hstart
  | succ n => exact .entry (by omega) rfl

private theorem DepthAt.unique (h : Depths code expected At) {index a b : Nat}
    (ha : w.DepthAt code At index a) (hb : w.DepthAt code At index b) : a = b := by
  -- the code on entry ends where the first block starts
  have hdisjoint {k i : Nat} (hk : k < w.entry.length) {l : Nat} : k ≠ w.place code i + l := by
    simp only [Wrapping.place]
    omega
  cases ha with
  | entry hk hdepth =>
    generalize hindex : index = index' at hb
    cases hb with
    | entry _ hdepth' => subst hindex; exact Option.some.inj (hdepth.symm.trans hdepth')
    | block => exact (hdisjoint hk hindex).elim
  | @block i d k _ ins hat hi hk hdepth =>
    generalize hindex : w.place code i + k = index' at hb
    cases hb with
    | entry hk' _ => exact (hdisjoint hk' hindex.symm).elim
    | block hat' hi' hk' hdepth' =>
      obtain ⟨rfl, rfl⟩ := place_add_inj hi hi' hk hk' hindex
      obtain rfl := Option.some.inj (hi.symm.trans hi')
      obtain rfl := h.unique hat hat'
      exact Option.some.inj (hdepth.symm.trans hdepth')

/-- The depth along a plain instruction of the wrapping leads on to the next instruction. -/
private theorem balanced_of_isPlain {i : Instruction} (hi : i.isPlain) {index depth : Nat}
    (hpops : i.stackEffect.pops ≤ depth)
    (hnext : w.DepthAt code At (index + 1) (depth - i.stackEffect.pops + i.stackEffect.pushes)) :
    i.Balanced expected (w.DepthAt code At) index depth where
  pops_le := hpops
  returns hr := by rw [Instruction.isReturn_of_isPlain hi] at hr; cases hr
  continues _ next hmem := by
    rw [Instruction.nexts_of_isPlain hi, List.mem_singleton] at hmem
    exact hmem ▸ hnext

/-- The code on entry leads to the first block. -/
private theorem balanced_entry (h : Depths code expected At) (hentry : depthAfter 0 w.entry = some 0)
    (hplain : Plain w.entry) {k depth : Nat} (hk : k < w.entry.length)
    (hdepth : depthAfter 0 (w.entry.take k) = some depth) :
    ∃ i, (w.code code)[k]? = some i ∧ i.Balanced expected (w.DepthAt code At) k depth := by
  obtain ⟨d, i, hd, hi, hpops, hnext⟩ := exists_depthAfter_take hentry hk
  obtain rfl := Option.some.inj (hdepth.symm.trans hd)
  have hiplain := hplain i (List.mem_of_getElem? hi)
  refine ⟨i, (code_entry hk).trans hi, balanced_of_isPlain hiplain hpops ?_⟩
  by_cases hlast : k + 1 < w.entry.length
  · exact .entry hlast hnext
  · have hend : k + 1 = w.place code 0 := by rw [place_zero]; omega
    rw [List.take_of_length_le (by omega), hentry] at hnext
    rw [hend, ← Option.some.inj hnext]
    exact DepthAt.place h h.start

/-- An instruction that is no `ret` leads to the places of the instructions it led to. -/
private theorem balanced_mapTarget (h : Depths code expected At) (hfits : w.Fits code)
    {index depth : Nat} {i : Instruction} (hi : code[index]? = some i) (hr : i.isReturn = false)
    (hbalanced : i.Balanced expected At index depth) :
    (i.mapTarget fun target => UInt64.ofNat (w.place code target.toNat)).Balanced expected
      (w.DepthAt code At) (w.place code index) depth := by
  refine ⟨?_, fun hr' => by simp [hr] at hr', fun _ next hnext => ?_⟩
  · rw [Instruction.stackEffect_mapTarget]
    exact hbalanced.pops_le
  · rw [Instruction.stackEffect_mapTarget]
    have hcontinues := hbalanced.continues hr
    simp only [Instruction.nexts, Instruction.fallsThrough_mapTarget, Instruction.target?_mapTarget,
      List.mem_append, Option.mem_toList] at hnext hcontinues
    rcases hnext with hnext | hnext
    · split at hnext
      · next hfalls =>
        rw [List.mem_singleton.1 hnext, ← place_succ_of_not_isReturn hi hr]
        exact DepthAt.place h (hcontinues _ (.inl (by simp [hfalls])))
      · cases hnext
    · obtain ⟨moved, hmoved, rfl⟩ := Option.map_eq_some_iff.1 hnext
      obtain ⟨target, ht, rfl⟩ := Option.map_eq_some_iff.1 hmoved
      rw [UInt64.toNat_ofNat_of_lt' (hfits i (List.mem_of_getElem? hi) target ht)]
      exact DepthAt.place h (hcontinues _ (.inr (by rw [ht]; rfl)))

/-- The code on exit leads to its `ret`, with the depth that the `ret` expects. -/
private theorem balanced_exit (hexit : depthAfter expected w.exit = some expected)
    (hplain : Plain w.exit) {index k depth : Nat} {i : Instruction} (hat : At index expected)
    (hi : code[index]? = some i) (hr : i.isReturn) (hpops : i.stackEffect.pops ≤ expected)
    (hk : k < (w.block code i).length)
    (hdepth : depthAfter expected ((w.block code i).take k) = some depth) :
    ∃ j, (w.code code)[w.place code index + k]? = some j ∧
      j.Balanced expected (w.DepthAt code At) (w.place code index + k) depth := by
  have hstands := code_block hi hk
  rw [block_of_isReturn hr] at hk hdepth hstands
  rw [List.length_append, List.length_singleton] at hk
  -- the code on exit goes on, or the `ret` is next
  by_cases hlast : k < w.exit.length
  · obtain ⟨d, j, hd, hj, hpops', hnext⟩ := exists_depthAfter_take hexit hlast
    rw [List.take_append_of_le_length (by omega)] at hdepth
    obtain rfl := Option.some.inj (hdepth.symm.trans hd)
    rw [List.getElem?_append_left hlast] at hstands
    have hjplain := hplain j (List.mem_of_getElem? hj)
    refine ⟨j, hstands.trans hj, balanced_of_isPlain hjplain hpops' ?_⟩
    refine .block hat hi (k := k + 1) ?_ ?_
    · rw [block_of_isReturn hr, List.length_append, List.length_singleton]
      omega
    · rw [block_of_isReturn hr, List.take_append_of_le_length (by omega), hnext]
  · obtain rfl : k = w.exit.length := by omega
    rw [List.take_left, hexit] at hdepth
    obtain rfl : expected = depth := Option.some.inj hdepth
    refine ⟨i, by rw [hstands]; simp, hpops, fun _ => rfl, fun hr' => ?_⟩
    rw [hr] at hr'
    cases hr'

private theorem DepthAt.balanced (h : Depths code expected At) (hentry : depthAfter 0 w.entry = some 0)
    (hexit : depthAfter expected w.exit = some expected) (hplain : Plain w.entry)
    (hplain' : Plain w.exit) (hfits : w.Fits code) {index depth : Nat}
    (hat : w.DepthAt code At index depth) :
    ∃ i, (w.code code)[index]? = some i ∧ i.Balanced expected (w.DepthAt code At) index depth := by
  cases hat with
  | entry hk hdepth => exact balanced_entry h hentry hplain hk hdepth
  | @block index d k _ i hat hi hk hdepth =>
    obtain ⟨i', hi', hbalanced⟩ := h.balanced hat
    obtain rfl := Option.some.inj (hi.symm.trans hi')
    cases hr : i.isReturn with
    | false =>
      have hstands := code_block hi hk
      rw [block_of_not_isReturn hr] at hk hdepth hstands
      obtain rfl : k = 0 := by simpa using hk
      obtain rfl : d = depth := Option.some.inj hdepth
      exact ⟨_, hstands, balanced_mapTarget h hfits hi hr hbalanced⟩
    | true =>
      obtain rfl : d = expected := hbalanced.returns hr
      exact balanced_exit hexit hplain' hat hi hr hbalanced.pops_le hk hdepth

end Wrapping

/-- Depths of a body carry over to a wrapping whose code gives back the depth that it is entered
with. -/
theorem Depths.wrap {w : Wrapping} {code : List Instruction} {expected : Nat}
    {At : Nat → Nat → Prop} (h : Depths code expected At) (hentry : depthAfter 0 w.entry = some 0)
    (hexit : depthAfter expected w.exit = some expected) (hplain : Plain w.entry)
    (hplain' : Plain w.exit) (hfits : w.Fits code) :
    Depths (w.code code) expected (w.DepthAt code At) where
  start := .start h
  unique := Wrapping.DepthAt.unique h
  balanced := Wrapping.DepthAt.balanced h hentry hexit hplain hplain' hfits

/-! ### Accepted bodies -/

/-- The operands of a sequence are in range in every body of `locals` locals and `args`
arguments. -/
def InRange (locals args : Nat) (code : List Instruction) : Prop :=
  ∀ i ∈ code, ∀ length, i.breach? length locals args = none

theorem InRange.append {locals args : Nat} {a b : List Instruction} (ha : InRange locals args a)
    (hb : InRange locals args b) : InRange locals args (a ++ b) := by
  intro i hi
  rcases List.mem_append.1 hi with hi | hi
  · exact ha i hi
  · exact hb i hi

theorem InRange.flatMap {α : Type} {locals args : Nat} {l : List α} {f : α → List Instruction}
    (h : ∀ x ∈ l, InRange locals args (f x)) : InRange locals args (l.flatMap f) := by
  intro i hi
  obtain ⟨x, hx, hi⟩ := List.mem_flatMap.1 hi
  exact h x hx i hi

/-- An operand in range stays there while the body grows. -/
private theorem Instruction.breach?_mapTarget {i : Instruction} {f : UInt64 → UInt64}
    {length length' locals locals' args : Nat} (h : i.breach? length locals args = none)
    (hlocals : locals ≤ locals')
    (htarget : ∀ target, i.target? = some target → (f target).toNat < length') :
    (i.mapTarget f).breach? length' locals' args = none := by
  cases i with
  | branch op target =>
    have := htarget target rfl
    simp only [mapTarget, breach?]
    rw [if_neg (by omega)]
  | slot op index =>
    cases op <;> simp only [mapTarget, breach?, ite_eq_right_iff, reduceCtorEq, imp_false,
      Nat.not_le] at h ⊢ <;> omega
  | _ => rfl

/-- An accepted body stays accepted in a wrapping that gives back the depth that it is entered with,
and whose operands are in range. -/
theorem Body.Verifies.wrap {w : Wrapping} {base body : Body} {args expected cursor : Nat}
    {slot? : Option UInt16} (h : base.Verifies args expected)
    (haround : w.Around base body cursor slot?)
    (hentry : depthAfter 0 w.entry = some 0) (hexit : depthAfter expected w.exit = some expected)
    (hoperands : InRange body.locals.size args (w.entry ++ w.exit)) : body.Verifies args expected := by
  have htargets : ∀ i ∈ base.code, ∀ target, i.target? = some target →
      target.toNat < base.code.length :=
    fun i hi target ht => Instruction.target_lt_of_breach? (h.operands i hi) ht
  have hcode := haround.code_eq
  obtain ⟨At, hdepths⟩ := h.depths
  refine ⟨fun j hj => ?_, w.DepthAt base.code At, hcode ▸
    hdepths.wrap hentry hexit haround.entry_plain haround.exit_plain haround.fits⟩
  -- an instruction of the wrapped body is of the wrapping, or of the body with its target moved
  rw [hcode, Wrapping.code, List.mem_append, List.mem_flatMap] at hj
  rcases hj with hj | ⟨i, hi, hj⟩
  · exact hoperands j (List.mem_append_left _ hj) _
  have hold : (i.mapTarget fun target => UInt64.ofNat
      (w.place base.code target.toNat)).breach? body.code.length body.locals.size args = none := by
    refine Instruction.breach?_mapTarget (h.operands i hi) ?_ fun target ht => ?_
    · rw [haround.locals_eq, Array.size_append]
      omega
    · have hlt := htargets i hi target ht
      have hmono : w.place base.code target.toNat + _ ≤ w.place base.code base.code.length :=
        Wrapping.place_mono (Nat.le_of_lt hlt)
      rw [haround.toNat_place hi ht, haround.length_eq]
      omega
  cases hr : i.isReturn with
  | true =>
    rw [Wrapping.block_of_isReturn hr, List.mem_append, List.mem_singleton] at hj
    rcases hj with hj | rfl
    · exact hoperands j (List.mem_append_right _ hj) _
    · rwa [Instruction.mapTarget_of_target?_eq_none (Instruction.target?_of_isReturn hr)] at hold
  | false =>
    rw [Wrapping.block_of_not_isReturn hr, List.mem_singleton] at hj
    exact hj ▸ hold

end AdviceWeaving
