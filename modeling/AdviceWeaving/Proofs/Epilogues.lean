import AdviceWeaving.Proofs.Wrapping
import Mathlib.Data.List.Induction

/-!
# Copies in front of every `ret`

`Body.spliceAtExits` puts a copy of a sequence in front of every `ret`, from the last to the first, so what is put in
moves once more with each copy in front of it.  `exitLayout` gives the outcome at one stroke.  The copies fit just if
every target does at the place where it is in the end (`Body.spliceAtExits?_eq_some_iff`).
-/

namespace AdviceWeaving

/-! ### The `ret` instructions of a body -/

private theorem exits_append_singleton (code : List Instruction) (i : Instruction) :
    ((code ++ [i]).zipIdx.filter (·.1.isReturn)).map (·.2) =
      (code.zipIdx.filter (·.1.isReturn)).map (·.2) ++
        if i.isReturn then [code.length] else [] := by
  rw [List.zipIdx_append, List.filter_append, List.map_append]
  cases h : i.isReturn <;> simp [h]

private theorem foldl_zipIdx_fst {α β : Type} (f : β → α → β) (l : List α) (n : Nat) (b : β) :
    (l.zipIdx n).foldl (fun b p => f b p.1) b = l.foldl f b := by
  induction l generalizing n b with
  | nil => rfl
  | cons a l ih => exact ih (n + 1) (f b a)

private theorem foldlM_zipIdx_fst {α β : Type} (f : β → α → Option β) (l : List α) (n : Nat) (b : β) :
    (l.zipIdx n).foldlM (fun b p => f b p.1) b = l.foldlM f b := by
  induction l generalizing n b with
  | nil => rfl
  | cons a l ih => simp [List.zipIdx_cons, ih]

private theorem exits_map_mapTarget (code : List Instruction) (f : UInt64 → UInt64) :
    ((code.map (·.mapTarget f)).zipIdx.filter (·.1.isReturn)).map (·.2) =
      (code.zipIdx.filter (·.1.isReturn)).map (·.2) := by
  rw [List.zipIdx_map, List.filter_map, List.map_map]
  simp [Function.comp_def]

private theorem returnsBelow_append_singleton (code : List Instruction) (i : Instruction)
    (index : Nat) :
    returnsBelow (code ++ [i]) index =
      returnsBelow code index + if i.isReturn ∧ code.length < index then 1 else 0 := by
  rw [returnsBelow, List.take_append, List.countP_append, returnsBelow]
  by_cases h : code.length < index
  · obtain ⟨n, hn⟩ : ∃ n, index - code.length = n + 1 := ⟨index - code.length - 1, by omega⟩
    cases hi : i.isReturn <;> simp [h, hn, hi]
  · rw [show index - code.length = 0 by omega]
    simp [h]

private theorem returnsBelow_of_length_le {code : List Instruction} {index : Nat}
    (h : code.length ≤ index) : returnsBelow code index = code.countP (·.isReturn) := by
  rw [returnsBelow, List.take_of_length_le h]

/-- Where the stretch of the instruction at an index starts, if `n` instructions come in front of every `ret`. -/
def epilogueAt (n : Nat) (code : List Instruction) (index : Nat) : Nat :=
  index + n * returnsBelow code index

private theorem epilogueAt_append_other {n : Nat} {code : List Instruction} {i : Instruction}
    (hi : i.isReturn = false) : epilogueAt n (code ++ [i]) = epilogueAt n code := by
  funext index
  rw [epilogueAt, returnsBelow_append_singleton]
  simp [hi, epilogueAt]

private theorem epilogueAt_append_return {n : Nat} {code : List Instruction} {i : Instruction} (hi : i.isReturn)
    (index : Nat) :
    epilogueAt n (code ++ [i]) index = epilogueAt n code index + if code.length < index then n else 0 := by
  rw [epilogueAt, returnsBelow_append_singleton, epilogueAt]
  split <;> simp_all [Nat.mul_add] <;> omega

private theorem epilogueAt_map_mapTarget (n : Nat) (code : List Instruction) (f : UInt64 → UInt64) :
    epilogueAt n (code.map (·.mapTarget f)) = epilogueAt n code := by
  funext index
  simp [epilogueAt, returnsBelow, ← List.map_take, List.countP_map, Function.comp_def]

/-- Behind the last `ret` there are as many of them wherever one stands. -/
private theorem epilogueAt_add_of_length_le {n : Nat} {code : List Instruction} {index : Nat}
    (h : code.length ≤ index) (k : Nat) : epilogueAt n code (index + k) = epilogueAt n code index + k := by
  rw [epilogueAt, epilogueAt, returnsBelow_of_length_le (Nat.le_add_right_of_le h), returnsBelow_of_length_le h]
  omega

/-- The last splice comes first; the others move what it has moved. -/
private theorem epilogueAt_moved {n : Nat} {front : List Instruction} {i : Instruction} (hi : i.isReturn)
    {target : UInt64} (hfits : Landing.inserted.destination front.length n target.toNat < UInt64.size) :
    epilogueAt n front (Body.moved front.length n .inserted target).toNat =
      epilogueAt n (front ++ [i]) target.toNat := by
  rw [epilogueAt_append_return hi]
  by_cases h : front.length < target.toNat
  · rw [Landing.destination, if_pos (Or.inl h)] at hfits
    rw [Body.moved, if_pos (Or.inl h), if_pos h, toNat_add_ofNat hfits,
      epilogueAt_add_of_length_le (Nat.le_of_lt h)]
  · rw [Body.moved, if_neg (by simp [h]), if_neg h, Nat.add_zero]

private theorem destination_le_epilogueAt {n : Nat} {front : List Instruction} {i : Instruction} (hi : i.isReturn)
    (target : Nat) :
    Landing.inserted.destination front.length n target ≤ epilogueAt n (front ++ [i]) target := by
  rw [epilogueAt_append_return hi, epilogueAt, Landing.destination]
  by_cases h : front.length < target
  · rw [if_pos (Or.inl h), if_pos h]
    omega
  · rw [if_neg (by simp [h]), if_neg h]
    omega

/-! ### Where everything goes -/

/-- Where a target goes when a sequence of `n` instructions is put in front of every `ret` of
`front`, from the last to the first. -/
def Body.pushed (n : Nat) (front : List Instruction) (target : UInt64) : UInt64 :=
  ((front.zipIdx.filter (·.1.isReturn)).map (·.2)).reverse.foldl
    (fun target pos => Body.moved pos n .inserted target) target

private theorem pushed_append_return {n : Nat} {front : List Instruction} {i : Instruction}
    (hi : i.isReturn) (target : UInt64) :
    Body.pushed n (front ++ [i]) target =
      Body.pushed n front (Body.moved front.length n .inserted target) := by
  rw [Body.pushed, exits_append_singleton, if_pos hi, List.reverse_append, List.reverse_singleton,
    List.singleton_append, List.foldl_cons]
  rfl

private theorem pushed_append_other {n : Nat} {front : List Instruction} {i : Instruction}
    (hi : i.isReturn = false) : Body.pushed n (front ++ [i]) = Body.pushed n front := by
  funext target
  rw [Body.pushed, exits_append_singleton, if_neg (by simp [hi]), List.append_nil]
  rfl

private theorem pushed_map_mapTarget (n : Nat) (front : List Instruction) (f : UInt64 → UInt64) :
    Body.pushed n (front.map (·.mapTarget f)) = Body.pushed n front := by
  funext target
  rw [Body.pushed, exits_map_mapTarget]
  rfl

/-- A target that is pushed goes to its place in a wrapping with code on exit. -/
theorem Wrapping.tracks_exits (seq code : List Instruction) :
    ({ exit := seq } : Wrapping).Tracks code (Body.pushed seq.length code) := by
  intro target hlt
  simp only [place, List.length_nil, Nat.add_zero] at hlt ⊢
  change epilogueAt seq.length code target.toNat < UInt64.size at hlt
  change _ = epilogueAt seq.length code target.toNat
  -- induction on the code from its end: the splice in front of the last `ret` comes first
  induction code using List.reverseRecOn generalizing target with
  | nil => simp [Body.pushed, epilogueAt, returnsBelow]
  | append_singleton front i ih =>
    cases hi : i.isReturn with
    | false =>
      rw [epilogueAt_append_other hi] at hlt ⊢
      rw [pushed_append_other hi]
      exact ih target hlt
    | true =>
      have hmoved := epilogueAt_moved hi (Nat.lt_of_le_of_lt (destination_le_epilogueAt hi _) hlt)
      rw [← hmoved] at hlt ⊢
      rw [pushed_append_return hi]
      exact ih _ hlt

/-- The code with a copy of `seq` in front of every `ret`.  The targets of the code move as `move` tells, and those of
the copy in front of the `ret` at an index as `lead` tells. -/
def exitLayout (seq : List Instruction) (move : UInt64 → UInt64) (lead : Nat → UInt64 → UInt64)
    (code : List Instruction) : List Instruction :=
  code.zipIdx.flatMap fun p =>
    if p.1.isReturn then seq.map (·.mapTarget (lead p.2)) ++ [p.1] else [p.1.mapTarget move]

section

variable {seq : List Instruction} {move : UInt64 → UInt64} {lead lead' : Nat → UInt64 → UInt64}

private theorem exitLayout_append_singleton (front : List Instruction) (i : Instruction) :
    exitLayout seq move lead (front ++ [i]) = exitLayout seq move lead front ++
      if i.isReturn then seq.map (·.mapTarget (lead front.length)) ++ [i] else [i.mapTarget move] := by
  simp [exitLayout, List.zipIdx_append]

private theorem exitLayout_congr {code : List Instruction} (h : ∀ index < code.length, lead index = lead' index) :
    exitLayout seq move lead code = exitLayout seq move lead' code := by
  refine List.flatMap_congr fun p hp => ?_
  rw [h p.2 (by simpa using List.snd_lt_of_mem_zipIdx hp)]

private theorem exitLayout_map_mapTarget (code : List Instruction) (f : UInt64 → UInt64) :
    exitLayout seq move lead (code.map (·.mapTarget f)) =
      exitLayout seq (fun target => move (f target)) lead code := by
  rw [exitLayout, List.zipIdx_map, List.flatMap_map]
  refine List.flatMap_congr fun p _ => ?_
  cases hp : p.1.isReturn
  · simp [hp, Instruction.mapTarget_mapTarget]
  · simp [hp, Instruction.mapTarget_of_target?_eq_none (Instruction.target?_of_isReturn hp)]

/-- Copies without branches are all the same. -/
private theorem exitLayout_of_plain (hseq : Plain seq) (code : List Instruction) :
    exitLayout seq move lead code = ({ exit := seq } : Wrapping).codeWith move code := by
  have hfst : code.zipIdx.flatMap (fun p => ({ exit := seq } : Wrapping).blockWith move p.1) =
      code.flatMap (({ exit := seq } : Wrapping).blockWith move) := by
    conv_rhs => rw [← List.zipIdx_map_fst 0 code, List.flatMap_map]
  rw [Wrapping.codeWith, List.nil_append, ← hfst]
  refine List.flatMap_congr fun p _ => ?_
  rw [hseq.map_mapTarget]
  rfl

end

/-- The code behind a splice in front of a `ret`. -/
private theorem splice_code_of_isReturn (seq : List Instruction) {b : Body} {front back : List Instruction}
    {i : Instruction} (hi : i.isReturn) (hb : b.code = front ++ [i] ++ back) :
    (b.splice front.length seq .inserted).code =
      front.map (·.mapTarget (Body.moved front.length seq.length .inserted)) ++
        (seq.map (·.mapTarget (· + UInt64.ofNat front.length)) ++
          i :: back.map (·.mapTarget (Body.moved front.length seq.length .inserted))) := by
  let moved := Body.moved front.length seq.length .inserted
  have hmap : b.code.map (·.mapTarget moved) =
      front.map (·.mapTarget moved) ++ i :: back.map (·.mapTarget moved) := by
    rw [hb]
    simp [Instruction.mapTarget_of_target?_eq_none (Instruction.target?_of_isReturn hi)]
  have hlength : (front.map (·.mapTarget moved)).length = front.length := List.length_map _
  have hle : front.length ≤ b.code.length := by simp [hb]
  simp only [Body.splice, Nat.min_eq_left hle]
  rw [hmap, List.take_left' hlength, List.drop_left' hlength, List.append_assoc]

/-- The splices at the places of the `ret` instructions of `front`, from the last to the first, in a body that goes on
with `back`.  A copy moves with every splice that comes after it, so with those in front of it. -/
private theorem foldl_splice_exits (seq : List Instruction) (b : Body) (front back : List Instruction)
    (hb : b.code = front ++ back) :
    ((front.zipIdx.filter (·.1.isReturn)).map (·.2)).reverse.foldl
        (fun b pos => b.splice pos seq .inserted) b =
      { b with
        code := exitLayout seq (Body.pushed seq.length front)
          (fun index target => Body.pushed seq.length (front.take index) (target + UInt64.ofNat index)) front ++
        back.map (·.mapTarget (Body.pushed seq.length front)) } := by
  -- induction on the length of `front`, from its end
  obtain ⟨n, hn⟩ : ∃ n, front.length = n := ⟨_, rfl⟩
  induction n generalizing b front back with
  | zero =>
    obtain rfl := List.length_eq_zero_iff.1 hn
    have hback : back.map (·.mapTarget (Body.pushed seq.length [])) = back := by
      refine (List.map_congr_left fun i _ => ?_).trans (List.map_id' back)
      cases i <;> rfl
    rw [hback]
    simp [← hb, exitLayout]
  | succ n ih =>
    -- the last instruction of `front` comes first: what is behind it never moves again
    obtain ⟨front, i, rfl⟩ : ∃ front' i, front = front' ++ [i] :=
      ⟨_, _, (List.dropLast_append_getLast (List.ne_nil_of_length_eq_add_one hn)).symm⟩
    have hn' : front.length = n := by simpa using hn
    have htake : ∀ index < front.length, (fun target => Body.pushed seq.length ((front ++ [i]).take index)
        (target + UInt64.ofNat index)) =
        fun target => Body.pushed seq.length (front.take index) (target + UInt64.ofNat index) := by
      intro index hindex
      rw [List.take_append_of_le_length (Nat.le_of_lt hindex)]
    rw [exits_append_singleton, exitLayout_append_singleton, exitLayout_congr htake]
    cases hi : i.isReturn with
    | false =>
      rw [pushed_append_other hi]
      simp only [Bool.false_eq_true, if_false, List.append_nil]
      rw [ih b front (i :: back) (by simpa using hb) hn']
      simp
    | true =>
      let moved := Body.moved front.length seq.length .inserted
      have hpushed : Body.pushed seq.length (front ++ [i]) =
          fun target => Body.pushed seq.length front (moved target) :=
        funext fun target => pushed_append_return hi target
      have hback : (back.map (·.mapTarget moved)).map (·.mapTarget (Body.pushed seq.length front)) =
          back.map (·.mapTarget (Body.pushed seq.length (front ++ [i]))) := by
        rw [List.map_map, hpushed]
        exact List.map_congr_left fun j _ => j.mapTarget_mapTarget _ _
      have hcopy : (seq.map (·.mapTarget (· + UInt64.ofNat front.length))).map
            (·.mapTarget (Body.pushed seq.length front)) =
          seq.map (·.mapTarget fun target => Body.pushed seq.length ((front ++ [i]).take front.length)
            (target + UInt64.ofNat front.length)) := by
        rw [List.map_map, List.take_left]
        exact List.map_congr_left fun j _ => j.mapTarget_mapTarget _ _
      simp only [if_true, List.reverse_append, List.reverse_singleton, List.singleton_append,
        List.foldl_cons]
      rw [← exits_map_mapTarget front moved, ih _ _ _ (splice_code_of_isReturn seq hi hb)
        (by simpa using hn'), pushed_map_mapTarget, exitLayout_map_mapTarget, List.map_append, hcopy,
        List.map_cons, hback, ← hpushed,
        Instruction.mapTarget_of_target?_eq_none (Instruction.target?_of_isReturn hi)]
      simp only [← List.map_take, pushed_map_mapTarget]
      simp [Body.splice]

/-- The splices of `spliceAtExits`, one after the other. -/
private theorem spliceAtExits_eq_foldl (b : Body) (seq : List Instruction) :
    (b.spliceAtExits fun _ => seq).1 =
      b.exits.reverse.foldl (fun b pos => b.splice pos seq .inserted) b :=
  foldl_zipIdx_fst (fun (b : Body) pos => b.splice pos seq .inserted) _ 0 b

/-- A sequence in front of every `ret` of a body; the jumps to a `ret` run it first. -/
theorem Body.spliceAtExits_eq_exitLayout (b : Body) (seq : List Instruction) :
    (b.spliceAtExits fun _ => seq).1 =
      { b with
        code := exitLayout seq (pushed seq.length b.code)
          (fun index target => pushed seq.length (b.code.take index) (target + UInt64.ofNat index)) b.code } := by
  rw [spliceAtExits_eq_foldl, Body.exits, foldl_splice_exits seq b b.code [] (by simp), List.map_nil,
    List.append_nil]

/-- A plain sequence in front of every `ret` of a body. -/
theorem Body.spliceAtExits_eq (b : Body) {seq : List Instruction} (hseq : Plain seq) :
    (b.spliceAtExits fun _ => seq).1 =
      { b with code := ({ exit := seq } : Wrapping).codeWith (pushed seq.length b.code) b.code } := by
  rw [spliceAtExits_eq_exitLayout, exitLayout_of_plain hseq]

/-- Splices in front of every `ret` keep what each of them keeps. -/
theorem Body.spliceAtExits_induction {P : Body → Prop} {seq : List Instruction}
    (hsplice : ∀ b pos, P b → P (b.splice pos seq .inserted)) {b : Body} (hb : P b) :
    P (b.spliceAtExits fun _ => seq).1 := by
  rw [spliceAtExits_eq_foldl]
  generalize b.exits.reverse = ps
  induction ps generalizing b with
  | nil => exact hb
  | cons p ps ih => exact ih (hsplice b p hb)

/-! ### Copies that fit -/

/-- All branch targets of the code satisfy `P`. -/
def EachTarget (P : UInt64 → Prop) (code : List Instruction) : Prop :=
  ∀ i ∈ code, ∀ target ∈ i.target?, P target

section

variable {P Q R : UInt64 → Prop} {a b : List Instruction} {i : Instruction}

private theorem eachTarget_append : EachTarget P (a ++ b) ↔ EachTarget P a ∧ EachTarget P b :=
  List.forall_mem_append

private theorem eachTarget_cons_of_isReturn (hi : i.isReturn) : EachTarget P (i :: a) ↔ EachTarget P a := by
  simp [EachTarget, Instruction.target?_of_isReturn hi]

private theorem eachTarget_map_mapTarget (f : UInt64 → UInt64) :
    EachTarget P (a.map (·.mapTarget f)) ↔ EachTarget (fun target => P (f target)) a := by
  simp [EachTarget]

private theorem eachTarget_and (h : ∀ target, P target ↔ Q target ∧ R target) :
    EachTarget P a ↔ EachTarget Q a ∧ EachTarget R a := by
  simp only [EachTarget, h, imp_and, forall_and]

end

/-- The copies of `seq` in front of every `ret` of `front` move no target past the largest 64-bit word, in a body that
goes on with `back`. -/
structure CopiesFit (seq front back : List Instruction) : Prop where
  code : EachTarget (fun target => epilogueAt seq.length front target.toNat < UInt64.size) (front ++ back)
  copies : ∀ index i, front[index]? = some i → i.isReturn →
    EachTarget (fun target => target.toNat + epilogueAt seq.length front index < UInt64.size) seq

section

variable {seq front back : List Instruction} {i : Instruction}

/-- What holds of every `ret` holds of the last, and of those in front of it. -/
private theorem forall_return_append_singleton {P : Nat → Prop} :
    (∀ index j, (front ++ [i])[index]? = some j → j.isReturn → P index) ↔
      (∀ index j, front[index]? = some j → j.isReturn → P index) ∧ (i.isReturn → P front.length) := by
  constructor
  · intro h
    refine ⟨fun index j hj => h index j ?_, h front.length i (by simp)⟩
    rw [List.getElem?_append_left (List.getElem?_eq_some_iff.1 hj).1, hj]
  · rintro ⟨hfront, hi⟩ index j hj hr
    rcases Nat.lt_trichotomy index front.length with h | rfl | h
    · exact hfront index j (by rwa [List.getElem?_append_left h] at hj) hr
    · obtain rfl : i = j := by simpa using hj
      exact hi hr
    · rw [List.getElem?_eq_none (by simp; omega)] at hj
      cases hj

private theorem forall_return_map_mapTarget {P : Nat → Prop} {f : UInt64 → UInt64} :
    (∀ index j, (front.map (·.mapTarget f))[index]? = some j → j.isReturn → P index) ↔
      ∀ index j, front[index]? = some j → j.isReturn → P index := by
  constructor
  · exact fun h index j hj hr => h index (j.mapTarget f) (by rw [List.getElem?_map, hj]; rfl) (by simpa using hr)
  · intro h index j hj hr
    rw [List.getElem?_map] at hj
    obtain ⟨j, hfront, rfl⟩ := Option.map_eq_some_iff.1 hj
    exact h index j hfront (by simpa using hr)

private theorem copiesFit_append_other (hi : i.isReturn = false) :
    CopiesFit seq (front ++ [i]) back ↔ CopiesFit seq front (i :: back) := by
  have hcopies := @forall_return_append_singleton front i fun index =>
    EachTarget (fun target => target.toNat + epilogueAt seq.length front index < UInt64.size) seq
  rw [and_iff_left (by simp [hi])] at hcopies
  constructor
  · rintro ⟨hcode, h⟩
    rw [epilogueAt_append_other hi] at hcode h
    exact ⟨by simpa using hcode, hcopies.1 h⟩
  · rintro ⟨hcode, h⟩
    refine ⟨?_, ?_⟩ <;> rw [epilogueAt_append_other hi]
    · simpa using hcode
    · exact hcopies.2 h

/-- A target fits at its last place just if it fits at each place on the way. -/
private theorem epilogueAt_append_return_lt_iff (hi : i.isReturn) (n : Nat) (target : UInt64) :
    epilogueAt n (front ++ [i]) target.toNat < UInt64.size ↔
      Landing.inserted.destination front.length n target.toNat < UInt64.size ∧
        epilogueAt n front (Body.moved front.length n .inserted target).toNat < UInt64.size := by
  constructor
  · intro h
    have hdestination := Nat.lt_of_le_of_lt (destination_le_epilogueAt hi _) h
    exact ⟨hdestination, by rwa [epilogueAt_moved hi hdestination]⟩
  · rintro ⟨hdestination, h⟩
    rwa [epilogueAt_moved hi hdestination] at h

/-- A target of a copy counts from the place of its `ret`. -/
private theorem add_epilogueAt_lt_iff (n : Nat) (target : UInt64) :
    target.toNat + epilogueAt n front front.length < UInt64.size ↔
      target.toNat + front.length < UInt64.size ∧
        epilogueAt n front (target + UInt64.ofNat front.length).toNat < UInt64.size := by
  have hplace : epilogueAt n front (target.toNat + front.length) = target.toNat + epilogueAt n front front.length := by
    rw [Nat.add_comm, epilogueAt_add_of_length_le (Nat.le_refl _), Nat.add_comm]
  have hle : front.length ≤ epilogueAt n front front.length := Nat.le_add_right _ _
  constructor
  · intro h
    have hsum : target.toNat + front.length < UInt64.size := by omega
    exact ⟨hsum, by rwa [toNat_add_ofNat hsum, hplace]⟩
  · rintro ⟨hsum, h⟩
    rwa [toNat_add_ofNat hsum, hplace] at h

private theorem eachTarget_spliced {P : UInt64 → Prop} (hi : i.isReturn) (f g : UInt64 → UInt64) :
    EachTarget P (front.map (·.mapTarget f) ++ (seq.map (·.mapTarget g) ++ i :: back.map (·.mapTarget f))) ↔
      EachTarget (fun target => P (f target)) front ∧ EachTarget (fun target => P (g target)) seq ∧
        EachTarget (fun target => P (f target)) back := by
  rw [eachTarget_append, eachTarget_append, eachTarget_cons_of_isReturn hi, eachTarget_map_mapTarget,
    eachTarget_map_mapTarget, eachTarget_map_mapTarget]

/-- The copies fit just if the last one does, and then those in front of it in the body that it leaves. -/
private theorem copiesFit_append_return (hi : i.isReturn) {b : Body} (hb : b.code = front ++ [i] ++ back) :
    CopiesFit seq (front ++ [i]) back ↔ b.SpliceFits front.length seq .inserted ∧
      CopiesFit seq (front.map (·.mapTarget (Body.moved front.length seq.length .inserted)))
        (seq.map (·.mapTarget (· + UInt64.ofNat front.length)) ++
          i :: back.map (·.mapTarget (Body.moved front.length seq.length .inserted))) := by
  have hpos : min front.length b.code.length = front.length := Nat.min_eq_left (by simp [hb])
  have hplace {index : Nat} (h : index ≤ front.length) :
      epilogueAt seq.length (front ++ [i]) index = epilogueAt seq.length front index := by
    rw [epilogueAt_append_return hi, if_neg (by omega), Nat.add_zero]
  have hfits : b.SpliceFits front.length seq .inserted ↔
      EachTarget (fun target => Landing.inserted.destination front.length seq.length target.toNat < UInt64.size)
        b.code ∧
      EachTarget (fun target => target.toNat + front.length < UInt64.size) seq :=
    ⟨fun ⟨hcode, hseq⟩ => ⟨hpos ▸ hcode, hpos ▸ hseq⟩, fun ⟨hcode, hseq⟩ => ⟨hpos.symm ▸ hcode, hpos.symm ▸ hseq⟩⟩
  have hbody (P : UInt64 → Prop) : EachTarget P b.code ↔ EachTarget P front ∧ EachTarget P back := by
    rw [hb, List.append_assoc, eachTarget_append, List.singleton_append, eachTarget_cons_of_isReturn hi]
  have hcode : EachTarget (fun target => epilogueAt seq.length (front ++ [i]) target.toNat < UInt64.size) b.code ↔ _ :=
    eachTarget_and (epilogueAt_append_return_lt_iff hi seq.length)
  have hcopy : EachTarget (fun target => target.toNat + epilogueAt seq.length front front.length < UInt64.size) seq ↔
      _ :=
    eachTarget_and (add_epilogueAt_lt_iff seq.length)
  constructor
  · rintro ⟨hall, hcopies⟩
    obtain ⟨hdestination, hmoved⟩ := hcode.1 (hb ▸ hall)
    obtain ⟨hcopies, hlast⟩ := forall_return_append_singleton.1 hcopies
    rw [hplace (Nat.le_refl _)] at hlast
    obtain ⟨hinserted, hfirst⟩ := hcopy.1 (hlast hi)
    refine ⟨hfits.2 ⟨hdestination, hinserted⟩, ?_, ?_⟩ <;> rw [epilogueAt_map_mapTarget]
    · exact (eachTarget_spliced hi _ _).2 ⟨((hbody _).1 hmoved).1, hfirst, ((hbody _).1 hmoved).2⟩
    · refine forall_return_map_mapTarget.2 fun index j hj hr => ?_
      have hindex := (List.getElem?_eq_some_iff.1 hj).1
      exact hplace (Nat.le_of_lt hindex) ▸ hcopies index j hj hr
  · rintro ⟨hsplice, hall, hcopies⟩
    obtain ⟨hdestination, hinserted⟩ := hfits.1 hsplice
    rw [epilogueAt_map_mapTarget] at hall hcopies
    obtain ⟨hfront, hfirst, hback⟩ := (eachTarget_spliced hi _ _).1 hall
    refine ⟨hb ▸ hcode.2 ⟨hdestination, (hbody _).2 ⟨hfront, hback⟩⟩,
      forall_return_append_singleton.2 ⟨?_, fun _ => ?_⟩⟩
    · intro index j hj hr
      have hindex := (List.getElem?_eq_some_iff.1 hj).1
      exact hplace (Nat.le_of_lt hindex) ▸ forall_return_map_mapTarget.1 hcopies index j hj hr
    · rw [hplace (Nat.le_refl _)]
      exact hcopy.2 ⟨hinserted, hfirst⟩

/-- The splices at the places of the `ret` instructions of `front`, from the last to the first, succeed just if all
copies fit; and then they are those in which targets wrap around. -/
private theorem foldlM_splice?_exits (seq : List Instruction) (b b' : Body) (front back : List Instruction)
    (hb : b.code = front ++ back) :
    ((front.zipIdx.filter (·.1.isReturn)).map (·.2)).reverse.foldlM
        (fun b pos => b.splice? pos seq .inserted) b = some b' ↔
      CopiesFit seq front back ∧
        b' = ((front.zipIdx.filter (·.1.isReturn)).map (·.2)).reverse.foldl
          (fun b pos => b.splice pos seq .inserted) b := by
  obtain ⟨n, hn⟩ : ∃ n, front.length = n := ⟨_, rfl⟩
  induction n generalizing b front back with
  | zero =>
    obtain rfl := List.length_eq_zero_iff.1 hn
    have hfit : CopiesFit seq [] back :=
      ⟨fun j _ target _ => by simp [epilogueAt, returnsBelow, target.toNat_lt], fun _ _ h => by simp at h⟩
    simp [hfit, pure, eq_comm]
  | succ n ih =>
    obtain ⟨front, i, rfl⟩ : ∃ front' i, front = front' ++ [i] :=
      ⟨_, _, (List.dropLast_append_getLast (List.ne_nil_of_length_eq_add_one hn)).symm⟩
    have hn' : front.length = n := by simpa using hn
    rw [exits_append_singleton]
    cases hi : i.isReturn with
    | false =>
      simp only [Bool.false_eq_true, if_false, List.append_nil]
      rw [ih b front (i :: back) (by simpa using hb) hn', copiesFit_append_other hi]
    | true =>
      simp only [if_true, List.reverse_append, List.reverse_singleton, List.singleton_append, List.foldlM_cons,
        List.foldl_cons, bind, Option.bind_eq_some_iff, Body.splice?_eq_some_iff]
      have hrest := ih (b.splice front.length seq .inserted) _ _ (splice_code_of_isReturn seq hi hb)
        (by simpa using hn')
      rw [exits_map_mapTarget] at hrest
      rw [copiesFit_append_return hi hb, and_assoc, ← hrest]
      constructor
      · rintro ⟨_, ⟨hfits, rfl⟩, hrest⟩
        exact ⟨hfits, hrest⟩
      · rintro ⟨hfits, hrest⟩
        exact ⟨_, ⟨hfits, rfl⟩, hrest⟩

end

namespace Body

/-- No branch target passes the largest 64-bit word when it is moved. -/
structure ExitsFit (b : Body) (seq : List Instruction) : Prop where
  code : ∀ i ∈ b.code, ∀ target ∈ i.target?, epilogueAt seq.length b.code target.toNat < UInt64.size
  copies : ∀ index i, b.code[index]? = some i → i.isReturn → ∀ j ∈ seq, ∀ target ∈ j.target?,
    target.toNat + epilogueAt seq.length b.code index < UInt64.size

/-- There is a result just if all copies fit, and then it is the one that there is if targets wrap around. -/
theorem spliceAtExits?_eq_some_iff {b : Body} {seq : List Instruction} {r : Body × Nat} :
    (b.spliceAtExits? fun _ => seq) = some r ↔ b.ExitsFit seq ∧ r = b.spliceAtExits fun _ => seq := by
  have hfits : b.ExitsFit seq ↔ CopiesFit seq b.code [] := by
    constructor
    · rintro ⟨hcode, hcopies⟩
      exact ⟨by rwa [List.append_nil], hcopies⟩
    · rintro ⟨hcode, hcopies⟩
      rw [List.append_nil] at hcode
      exact ⟨hcode, hcopies⟩
  have hfold : (b.spliceAtExits? fun _ => seq) =
      (b.exits.reverse.foldlM (fun (b : Body) pos => b.splice? pos seq .inserted) b).bind fun b' =>
        some (b', b.exits.length) :=
    congrArg (Option.bind · _) (foldlM_zipIdx_fst (fun (b : Body) pos => b.splice? pos seq .inserted) _ 0 b)
  rw [hfold, Option.bind_eq_some_iff, hfits]
  simp only [exits, foldlM_splice?_exits seq b _ b.code [] (List.append_nil b.code).symm, Option.some.injEq]
  constructor
  · rintro ⟨_, ⟨hfit, rfl⟩, rfl⟩
    exact ⟨hfit, Prod.ext (spliceAtExits_eq_foldl b seq).symm rfl⟩
  · rintro ⟨hfit, rfl⟩
    exact ⟨_, ⟨hfit, rfl⟩, Prod.ext (spliceAtExits_eq_foldl b seq).symm rfl⟩

theorem spliceAtExits?_eq_none_iff {b : Body} {seq : List Instruction} :
    (b.spliceAtExits? fun _ => seq) = none ↔ ¬ b.ExitsFit seq := by
  rw [← not_iff_not, not_not, ← Ne, Option.ne_none_iff_exists']
  simp [spliceAtExits?_eq_some_iff]

end Body

end AdviceWeaving
