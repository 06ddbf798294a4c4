import AdviceWeaving.Proofs.Overflow
import Mathlib.Data.List.Basic

/-!
# Code around a body

A pass surrounds a body with code: some runs on entry, and some in front of every `ret`.
`Wrapping.code` gives the instructions of a body in such a wrapping at one stroke, with every branch
target moved to its new place (`Wrapping.place`).  In general the targets move in some way
(`Wrapping.codeWith`), and a wrapping around a wrapping is one wrapping (`Wrapping.codeWith_within`);
a target goes to its place as long as that is a 64-bit word (`Wrapping.Tracks`).
-/

namespace AdviceWeaving

/-! ### Wrappings -/

/-- The code that stands around a body: what runs on entry, what runs in front of every `ret`, and
the type of the local that the latter needs. -/
structure Wrapping where
  entry : List Instruction := []
  exit : List Instruction := []
  slot? : Option ValueType := none
  deriving DecidableEq, Inhabited

/-- How many of the instructions below an index are a `ret`. -/
def returnsBelow (code : List Instruction) (index : Nat) : Nat :=
  (code.take index).countP (·.isReturn)

/-- An instruction that neither jumps nor returns. -/
def Instruction.isPlain (i : Instruction) : Bool :=
  i.target?.isNone && !i.isReturn

/-- All instructions of a sequence are plain. -/
def Plain (code : List Instruction) : Prop :=
  ∀ i ∈ code, i.isPlain

namespace Wrapping

/-- Where control that went to an index of `code` goes in the wrapping: behind the code on entry,
and in front of the code on exit if a `ret` stands there. -/
def place (w : Wrapping) (code : List Instruction) (index : Nat) : Nat :=
  index + w.entry.length + w.exit.length * returnsBelow code index

/-- What stands in the wrapping for an instruction of `code`. -/
def block (w : Wrapping) (code : List Instruction) (i : Instruction) : List Instruction :=
  if i.isReturn then w.exit ++ [i]
  else [i.mapTarget fun target => UInt64.ofNat (w.place code target.toNat)]

/-- The instructions of a body in the wrapping. -/
def code (w : Wrapping) (code : List Instruction) : List Instruction :=
  w.entry ++ code.flatMap (w.block code)

/-- What stands in the wrapping for an instruction, if targets move as `move` tells. -/
def blockWith (w : Wrapping) (move : UInt64 → UInt64) (i : Instruction) : List Instruction :=
  if i.isReturn then w.exit ++ [i] else [i.mapTarget move]

/-- The instructions of a body in the wrapping, if targets move as `move` tells. -/
def codeWith (w : Wrapping) (move : UInt64 → UInt64) (code : List Instruction) : List Instruction :=
  w.entry ++ code.flatMap (w.blockWith move)

/-- A target moves to its place, as long as that is a 64-bit word. -/
def Tracks (w : Wrapping) (code : List Instruction) (move : UInt64 → UInt64) : Prop :=
  ∀ target, w.place code target.toNat < UInt64.size → (move target).toNat = w.place code target.toNat

/-- The places of all branch targets of `code` are 64-bit words. -/
def Fits (w : Wrapping) (code : List Instruction) : Prop :=
  ∀ i ∈ code, ∀ target, i.target? = some target → w.place code target.toNat < UInt64.size

/-- The wrapping `outer` around the wrapping `w`. -/
def within (w outer : Wrapping) : Wrapping where
  entry := outer.entry ++ w.entry
  exit := w.exit ++ outer.exit
  slot? := w.slot?.or outer.slot?

end Wrapping

/-! ### Instructions under a change of targets -/

@[simp] theorem Instruction.isReturn_mapTarget (f : UInt64 → UInt64) (i : Instruction) :
    (i.mapTarget f).isReturn = i.isReturn := by
  cases i <;> rfl

@[simp] theorem Instruction.target?_mapTarget (f : UInt64 → UInt64) (i : Instruction) :
    (i.mapTarget f).target? = i.target?.map f := by
  cases i <;> rfl

theorem Instruction.mapTarget_mapTarget (f g : UInt64 → UInt64) (i : Instruction) :
    (i.mapTarget f).mapTarget g = i.mapTarget fun target => g (f target) := by
  cases i <;> rfl

/-- Only the value at the target of an instruction matters for its change. -/
theorem Instruction.mapTarget_congr {f g : UInt64 → UInt64} {i : Instruction}
    (h : ∀ target, i.target? = some target → f target = g target) :
    i.mapTarget f = i.mapTarget g := by
  cases i with
  | branch op target => exact congrArg (Instruction.branch op) (h target rfl)
  | _ => rfl

theorem Instruction.mapTarget_of_target?_eq_none {f : UInt64 → UInt64} {i : Instruction}
    (h : i.target? = none) : i.mapTarget f = i := by
  cases i with
  | branch op target => cases h
  | _ => rfl

/-- Code without branches stays as it is. -/
theorem map_mapTarget_of_no_target {f : UInt64 → UInt64} {code : List Instruction}
    (h : ∀ i ∈ code, i.target? = none) : code.map (·.mapTarget f) = code :=
  (List.map_congr_left fun i hi => Instruction.mapTarget_of_target?_eq_none (h i hi)).trans (List.map_id' code)

theorem Instruction.target?_of_isReturn {i : Instruction} (h : i.isReturn) : i.target? = none := by
  cases i with
  | branch op target => cases h
  | _ => rfl

theorem Instruction.target?_of_isPlain {i : Instruction} (h : i.isPlain) : i.target? = none := by
  unfold Instruction.isPlain at h
  simp at h
  exact h.1

theorem Instruction.isReturn_of_isPlain {i : Instruction} (h : i.isPlain) : i.isReturn = false := by
  unfold Instruction.isPlain at h
  simp at h
  exact h.2

theorem Plain.append {a b : List Instruction} (ha : Plain a) (hb : Plain b) : Plain (a ++ b) := by
  intro i hi
  rcases List.mem_append.1 hi with hi | hi
  · exact ha i hi
  · exact hb i hi

theorem Plain.map_mapTarget {seq : List Instruction} (h : Plain seq) (f : UInt64 → UInt64) :
    seq.map (·.mapTarget f) = seq :=
  map_mapTarget_of_no_target fun i hi => Instruction.target?_of_isPlain (h i hi)

theorem Plain.countP_isReturn {seq : List Instruction} (h : Plain seq) :
    seq.countP (·.isReturn) = 0 := by
  rw [List.countP_eq_zero]
  intro i hi
  simp [Instruction.isReturn_of_isPlain (h i hi)]

/-! ### Where the blocks of a wrapping stand -/

namespace Wrapping

variable {w : Wrapping} {code : List Instruction} {move : UInt64 → UInt64}

theorem blockWith_of_isReturn {i : Instruction} (h : i.isReturn) : w.blockWith move i = w.exit ++ [i] := by
  unfold blockWith; rw [if_pos h]

theorem blockWith_of_not_isReturn {i : Instruction} (h : i.isReturn = false) :
    w.blockWith move i = [i.mapTarget move] := by
  unfold blockWith; rw [if_neg (by simp [h])]

theorem block_of_isReturn {i : Instruction} (h : i.isReturn) : w.block code i = w.exit ++ [i] :=
  blockWith_of_isReturn h

theorem block_of_not_isReturn {i : Instruction} (h : i.isReturn = false) :
    w.block code i = [i.mapTarget fun target => UInt64.ofNat (w.place code target.toNat)] :=
  blockWith_of_not_isReturn h

private theorem length_flatMap_blockWith (part : List Instruction) :
    (part.flatMap (w.blockWith move)).length = part.length + w.exit.length * part.countP
    (·.isReturn) := by
  induction part with
  | nil => rfl
  | cons i part ih =>
    rw [List.flatMap_cons, List.length_append, ih, List.countP_cons, List.length_cons]
    cases h : i.isReturn
    · rw [blockWith_of_not_isReturn h]; simp; omega
    · rw [blockWith_of_isReturn h]; simp [Nat.mul_add]; omega

theorem countP_flatMap_blockWith (hexit : Plain w.exit) (part : List Instruction) :
    (part.flatMap (w.blockWith move)).countP (·.isReturn) = part.countP (·.isReturn) := by
  induction part with
  | nil => rfl
  | cons i part ih =>
    rw [List.flatMap_cons, List.countP_append, ih, List.countP_cons, Nat.add_comm]
    cases h : i.isReturn
    · rw [blockWith_of_not_isReturn h]; simp [h]
    · rw [blockWith_of_isReturn h, List.countP_append, hexit.countP_isReturn]; simp [h]

/-- The wrapped code up to the place of an index is the wrapped code up to the index. -/
private theorem take_place {index : Nat} (h : index ≤ code.length) :
    (w.codeWith move code).take (w.place code index) = w.entry ++ (code.take index).flatMap
    (w.blockWith move) := by
  have hsplit : w.codeWith move code = (w.entry ++ (code.take index).flatMap (w.blockWith move)) ++
      (code.drop index).flatMap (w.blockWith move) := by
    rw [List.append_assoc, ← List.flatMap_append, List.take_append_drop]; rfl
  have hlength : (w.entry ++ (code.take index).flatMap (w.blockWith move)).length =
      w.place code index := by
    rw [List.length_append, length_flatMap_blockWith, List.length_take, Nat.min_eq_left h, place,
      returnsBelow]
    omega
  rw [hsplit, ← hlength, List.take_left]

private theorem drop_place {index : Nat} (h : index ≤ code.length) :
    (w.codeWith move code).drop (w.place code index) = (code.drop index).flatMap
    (w.blockWith move) := by
  have hsplit : w.codeWith move code = (w.codeWith move code).take (w.place code index) ++
      (code.drop index).flatMap (w.blockWith move) := by
    rw [take_place h, List.append_assoc, ← List.flatMap_append, List.take_append_drop]; rfl
  have := (List.take_append_drop (w.place code index) (w.codeWith move code)).trans hsplit
  exact List.append_cancel_left this

theorem length_codeWith : (w.codeWith move code).length = w.place code code.length := by
  rw [codeWith, List.length_append, length_flatMap_blockWith, place, returnsBelow, List.take_length]
  omega

theorem place_mono {a b : Nat} (h : a ≤ b) : w.place code a + (b - a) ≤ w.place code b := by
  have hcount : returnsBelow code a ≤ returnsBelow code b :=
    (List.take_sublist_take_left h).countP_le
  have := Nat.mul_le_mul_left w.exit.length hcount
  unfold place
  omega

/-- As many `ret` instructions stand below an index as below its place. -/
private theorem returnsBelow_place (hentry : Plain w.entry) (hexit : Plain w.exit) (index : Nat) :
    returnsBelow (w.codeWith move code) (w.place code index) = returnsBelow code index := by
  rcases Nat.le_total index code.length with h | h
  · rw [returnsBelow, take_place h, List.countP_append, hentry.countP_isReturn,
      countP_flatMap_blockWith hexit, Nat.zero_add, returnsBelow]
  · have hplace : (w.codeWith move code).length ≤ w.place code index := by
      have hmono : w.place code code.length + _ ≤ w.place code index := place_mono h
      rw [length_codeWith]
      omega
    rw [returnsBelow, returnsBelow, List.take_of_length_le h, List.take_of_length_le hplace,
      codeWith, List.countP_append, hentry.countP_isReturn, countP_flatMap_blockWith hexit,
      Nat.zero_add]

/-! ### What stands at a place -/

theorem place_zero : w.place code 0 = w.entry.length := by
  simp [place, returnsBelow]

theorem codeWith_entry {k : Nat} (h : k < w.entry.length) :
    (w.codeWith move code)[k]? = w.entry[k]? := by
  rw [codeWith, List.getElem?_append_left h]

theorem code_entry {k : Nat} (h : k < w.entry.length) : (w.code code)[k]? = w.entry[k]? :=
  codeWith_entry h

/-- The block of an instruction stands at its place. -/
theorem codeWith_block {index k : Nat} {i : Instruction} (h : code[index]? = some i)
    (hk : k < (w.blockWith move i).length) :
    (w.codeWith move code)[w.place code index + k]? = (w.blockWith move i)[k]? := by
  obtain ⟨hlt, rfl⟩ := List.getElem?_eq_some_iff.1 h
  rw [← List.getElem?_drop, drop_place (Nat.le_of_lt hlt), List.drop_eq_getElem_cons hlt,
    List.flatMap_cons, List.getElem?_append_left hk]

theorem code_block {index k : Nat} {i : Instruction} (h : code[index]? = some i)
    (hk : k < (w.block code i).length) :
    (w.code code)[w.place code index + k]? = (w.block code i)[k]? :=
  codeWith_block h hk

/-- An instruction other than a `ret` stands at its place, with its target moved. -/
theorem codeWith_of_not_isReturn {move : UInt64 → UInt64} {index : Nat} {i : Instruction}
    (hi : code[index]? = some i) (hr : i.isReturn = false) :
    (w.codeWith move code)[w.place code index]? = some (i.mapTarget move) := by
  have hblock : (w.codeWith move code)[w.place code index + 0]? = (w.blockWith move i)[0]? :=
    codeWith_block hi (by simp [blockWith_of_not_isReturn hr])
  rwa [Nat.add_zero, blockWith_of_not_isReturn hr] at hblock

theorem code_of_not_isReturn {index : Nat} {i : Instruction} (hi : code[index]? = some i) (hr : i.isReturn = false) :
    (w.code code)[w.place code index]? =
      some (i.mapTarget fun target => UInt64.ofNat (w.place code target.toNat)) :=
  codeWith_of_not_isReturn hi hr

private theorem place_add_length_blockWith {index : Nat} {i : Instruction} (h : code[index]? = some i) :
    w.place code (index + 1) = w.place code index + (w.blockWith move i).length := by
  have hreturns : returnsBelow code (index + 1) = returnsBelow code index + if i.isReturn then 1
      else 0 := by
    rw [returnsBelow, List.take_add_one, h, List.countP_append, returnsBelow]
    simp [List.countP_cons]
  cases hr : i.isReturn
  · rw [place, hreturns, blockWith_of_not_isReturn hr, place]
    simp [hr]
    omega
  · rw [place, hreturns, blockWith_of_isReturn hr, place]
    simp [hr, Nat.mul_add]
    omega

private theorem place_succ {index : Nat} {i : Instruction} (h : code[index]? = some i) :
    w.place code (index + 1) = w.place code index + (w.block code i).length :=
  place_add_length_blockWith h

theorem place_succ_of_not_isReturn {index : Nat} {i : Instruction} (hi : code[index]? = some i)
    (hr : i.isReturn = false) : w.place code (index + 1) = w.place code index + 1 := by
  rw [place_succ hi, block_of_not_isReturn hr, List.length_singleton]

theorem block_length_pos (i : Instruction) : 0 < (w.block code i).length := by
  cases hr : i.isReturn
  · rw [block_of_not_isReturn hr]; simp
  · rw [block_of_isReturn hr]; simp

/-- The blocks of different instructions do not overlap. -/
theorem place_add_inj {a b k l : Nat} {i j : Instruction} (ha : code[a]? = some i)
    (hb : code[b]? = some j) (hk : k < (w.block code i).length) (hl : l < (w.block code j).length)
    (h : w.place code a + k = w.place code b + l) : a = b ∧ k = l := by
  have hsucca := place_succ (w := w) ha
  have hsuccb := place_succ (w := w) hb
  -- a block ends where the next one starts
  rcases Nat.lt_trichotomy a b with hab | rfl | hab
  · have : w.place code (a + 1) + (b - (a + 1)) ≤ w.place code b := place_mono hab
    omega
  · exact ⟨rfl, by omega⟩
  · have : w.place code (b + 1) + (a - (b + 1)) ≤ w.place code a := place_mono hab
    omega

/-- Targets that fit move to their places. -/
theorem Tracks.codeWith_eq (h : w.Tracks code move) (hfits : w.Fits code) :
    w.codeWith move code = w.code code := by
  have hblock : ∀ i ∈ code, w.blockWith move i = w.block code i := by
    intro i hi
    cases hr : i.isReturn
    · rw [blockWith_of_not_isReturn hr, block_of_not_isReturn hr]
      congr 1
      apply Instruction.mapTarget_congr
      intro target ht
      have hlt := hfits i hi target ht
      rw [← UInt64.toNat_inj, h target hlt, UInt64.toNat_ofNat_of_lt' hlt]
    · rw [blockWith_of_isReturn hr, block_of_isReturn hr]
  rw [codeWith, List.flatMap_congr hblock]
  rfl

/-! ### Wrappings within wrappings -/

/-- Plain code stays as it is when targets move, and in a wrapping that puts nothing in front of it. -/
private theorem flatMap_blockWith_of_plain {part : List Instruction} (h : Plain part) :
    part.flatMap (w.blockWith move) = part := by
  induction part with
  | nil => rfl
  | cons i part ih =>
    have hi := h i List.mem_cons_self
    rw [List.flatMap_cons, ih fun j hj => h j (List.mem_cons_of_mem i hj),
      blockWith_of_not_isReturn (Instruction.isReturn_of_isPlain hi),
      Instruction.mapTarget_of_target?_eq_none (Instruction.target?_of_isPlain hi)]
    rfl

theorem place_within {outer : Wrapping} (hentry : Plain w.entry) (hexit : Plain w.exit)
    (index : Nat) :
    outer.place (w.codeWith move code) (w.place code index) = (w.within outer).place code index := by
  rw [place, returnsBelow_place hentry hexit]
  simp only [place, within, List.length_append, Nat.add_mul]
  omega

/-- To wrap wrapped code is to wrap it at once. -/
theorem codeWith_within {outer : Wrapping} (hentry : Plain w.entry) (hexit : Plain w.exit)
    (further : UInt64 → UInt64) :
    outer.codeWith further (w.codeWith move code) =
      (w.within outer).codeWith (fun target => further (move target)) code := by
  have hblock : ∀ i ∈ code, (w.blockWith move i).flatMap (outer.blockWith further) =
      (w.within outer).blockWith (fun target => further (move target)) i := by
    intro i _
    -- a target moves twice; a `ret` gets the code on exit of `w`, and in front of it nothing else
    cases h : i.isReturn
    · rw [blockWith_of_not_isReturn h, blockWith_of_not_isReturn h, List.flatMap_singleton,
        blockWith_of_not_isReturn (by simpa using h), Instruction.mapTarget_mapTarget]
    · rw [blockWith_of_isReturn h, blockWith_of_isReturn h, List.flatMap_append,
        flatMap_blockWith_of_plain hexit, List.flatMap_singleton, blockWith_of_isReturn h]
      simp [within]
  rw [codeWith, codeWith, List.flatMap_append, flatMap_blockWith_of_plain hentry,
    List.flatMap_assoc, codeWith, within, List.append_assoc]
  congr 2
  exact List.flatMap_congr hblock

theorem Tracks.within {outer : Wrapping} {further : UInt64 → UInt64} (h : w.Tracks code move)
    (hfurther : outer.Tracks (w.codeWith move code) further) (hentry : Plain w.entry)
    (hexit : Plain w.exit) : (w.within outer).Tracks code fun target => further (move target) := by
  intro target hlt
  have hplace : outer.place (w.codeWith move code) (w.place code target.toNat) =
      (w.within outer).place code target.toNat := place_within hentry hexit _
  have hle : w.place code target.toNat ≤
      outer.place (w.codeWith move code) (w.place code target.toNat) := by
    simp only [place]
    omega
  rw [← hplace] at hlt ⊢
  have hmoved := h target (Nat.lt_of_le_of_lt hle hlt)
  rw [← hmoved] at hlt ⊢
  exact hfurther _ hlt

end Wrapping

end AdviceWeaving
