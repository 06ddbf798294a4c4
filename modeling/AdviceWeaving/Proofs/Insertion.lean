import AdviceWeaving.Proofs.Epilogues

/-!
# A splice at any index

What a splice of any sequence does to any body, told in natural numbers: where each instruction is found afterwards
and where its branch leads (`Body.Spliced`).  A jump leads to the instruction that it led to before, but for a jump to
the index of the splice, which may be made to run the new sequence first.  There is a splice as long as no target
passes the largest 64-bit word (`Body.splice_law`).
-/

namespace AdviceWeaving

/-! ### Instructions whose branches lead elsewhere -/

/-- Both are one instruction, but that a branch that led to an index leads to its `place`. -/
inductive Instruction.Relocates (place : Nat → Nat) : Instruction → Instruction → Prop
  | branch (op : BranchOp) {target target' : UInt64} (h : target'.toNat = place target.toNat) :
      Relocates place (.branch op target) (.branch op target')
  | other {i : Instruction} (h : i.target? = none) : Relocates place i i

theorem Instruction.relocates_mapTarget {place : Nat → Nat} {f : UInt64 → UInt64} {i : Instruction}
    (h : ∀ target ∈ i.target?, (f target).toNat = place target.toNat) :
    i.Relocates place (i.mapTarget f) := by
  cases i with
  | branch op target => exact .branch op (h target rfl)
  | _ => exact .other rfl

/-! ### What a splice does -/

/-- A jump that leads past two sequences leads past both of them at once. -/
private theorem Landing.destination_destination (pos n n' target : Nat) :
    Landing.displaced.destination (pos + n) n' (Landing.displaced.destination pos n target) =
      Landing.displaced.destination pos (n + n') target := by
  simp only [Landing.destination, and_true]
  split <;> split <;> omega

namespace Body

/-- Where an instruction is found after `n` instructions have been put in at index `pos`. -/
def shifted (pos n index : Nat) : Nat :=
  if index < pos then index else index + n

/-- The body `b'` is `b` with `seq` put in at index `pos`. -/
structure Spliced (b : Body) (pos : Nat) (seq : List Instruction) (landing : Landing) (b' : Body) : Prop where
  length_eq : b'.code.length = b.code.length + seq.length
  /-- Where the instructions of the body are, and where their branches lead. -/
  code : ∀ index i, b.code[index]? = some i →
    ∃ i', b'.code[shifted pos seq.length index]? = some i' ∧
      i.Relocates (landing.destination pos seq.length) i'
  /-- Where the new instructions are; their targets count from the start of the sequence. -/
  inserted : ∀ index i, seq[index]? = some i →
    ∃ i', b'.code[pos + index]? = some i' ∧ i.Relocates (· + pos) i'
  locals_eq : b'.locals = b.locals
  initLocals_eq : b'.initLocals = b.initLocals
  /-- A jump leads to the place of the instruction that it led to, unless it led to `pos` and is to run the new
  sequence; only then it leads to the first of the new instructions. -/
  jumps : ∀ index op target, b.code[index]? = some (.branch op target) →
    ∃ target', b'.code[shifted pos seq.length index]? = some (.branch op target') ∧
      (¬ (target.toNat = pos ∧ landing = .inserted) →
        target'.toNat = shifted pos seq.length target.toNat) ∧
      (target'.toNat = pos ↔ target.toNat = pos ∧ landing = .inserted)

/-! ### Where things are -/

variable {b : Body} {pos n : Nat} {seq : List Instruction} {landing : Landing}

private theorem toNat_moved {target : UInt64} (h : landing.destination pos n target.toNat < UInt64.size) :
    (moved pos n landing target).toNat = landing.destination pos n target.toNat := by
  unfold Landing.destination at h ⊢
  unfold moved
  split
  · next hmoves =>
    rw [if_pos hmoves] at h
    exact toNat_add_ofNat h
  · rfl

private theorem destination_of_not_inserted {target : Nat} (h : ¬ (target = pos ∧ landing = .inserted)) :
    landing.destination pos n target = shifted pos n target := by
  unfold Landing.destination shifted
  cases landing with
  | displaced =>
    simp only [and_true]
    split <;> split <;> omega
  | inserted =>
    simp only [and_true, reduceCtorEq, and_false, or_false] at h ⊢
    split <;> split <;> omega

private theorem destination_eq_pos_iff (hn : 0 < n) {target : Nat} :
    landing.destination pos n target = pos ↔ target = pos ∧ landing = .inserted := by
  constructor
  · intro h
    by_contra hother
    rw [destination_of_not_inserted hother] at h
    unfold shifted at h
    split at h <;> omega
  · rintro ⟨rfl, rfl⟩
    simp [Landing.destination]

private theorem length_splice (b : Body) (pos : Nat) (seq : List Instruction) (landing : Landing) :
    (b.splice pos seq landing).code.length = b.code.length + seq.length := by
  simp only [splice, List.length_append, List.length_take, List.length_drop, List.length_map]
  omega

/-- The front of the body, the sequence, and the rest. -/
private theorem splice_eq (h : pos ≤ b.code.length) (seq : List Instruction) (landing : Landing) :
    b.splice pos seq landing =
      { b with
        code := (b.code.take pos).map (·.mapTarget (moved pos seq.length landing)) ++
          seq.map (·.mapTarget (· + UInt64.ofNat pos)) ++
          (b.code.drop pos).map (·.mapTarget (moved pos seq.length landing)) } := by
  simp only [splice, Nat.min_eq_left h, List.map_take, List.map_drop]

private theorem splice_code_shifted (h : pos ≤ b.code.length) (index : Nat) :
    (b.splice pos seq landing).code[shifted pos seq.length index]? =
      b.code[index]?.map (·.mapTarget (moved pos seq.length landing)) := by
  have hfront : ((b.code.take pos).map (·.mapTarget (moved pos seq.length landing))).length = pos := by
    rw [List.length_map, List.length_take, Nat.min_eq_left h]
  rw [splice_eq h, List.append_assoc]
  unfold shifted
  split
  · next hlt =>
    rw [List.getElem?_append_left (by omega), List.getElem?_map, List.getElem?_take_of_lt hlt]
  · next hge =>
    rw [List.getElem?_append_right (by omega), List.getElem?_append_right (by simp; omega),
      List.getElem?_map, List.getElem?_drop, hfront, List.length_map]
    congr 2
    omega

private theorem splice_code_inserted (h : pos ≤ b.code.length) {index : Nat} (hindex : index < seq.length) :
    (b.splice pos seq landing).code[pos + index]? =
      seq[index]?.map (·.mapTarget (· + UInt64.ofNat pos)) := by
  have hfront : ((b.code.take pos).map (·.mapTarget (moved pos seq.length landing))).length = pos := by
    rw [List.length_map, List.length_take, Nat.min_eq_left h]
  rw [splice_eq h, List.append_assoc, List.getElem?_append_right (by omega),
    List.getElem?_append_left (by simp; omega), hfront, Nat.add_sub_cancel_left, List.getElem?_map]

/-- An index behind the end stands for the end. -/
private theorem splice_min (b : Body) (pos : Nat) (seq : List Instruction) (landing : Landing) :
    b.splice (min pos b.code.length) seq landing = b.splice pos seq landing := by
  simp only [splice, Nat.min_assoc, Nat.min_self]

/-- The instructions of a splice without branches. -/
private theorem mem_splice_code (h : pos ≤ b.code.length) (hseq : ∀ i ∈ seq, i.target? = none) {i : Instruction} :
    i ∈ (b.splice pos seq landing).code ↔
      (∃ j ∈ b.code, i = j.mapTarget (moved pos seq.length landing)) ∨ i ∈ seq := by
  rw [splice_eq h, map_mapTarget_of_no_target hseq]
  have hmem (j : Instruction) : j ∈ b.code ↔ j ∈ b.code.take pos ∨ j ∈ b.code.drop pos := by
    rw [← List.mem_append, List.take_append_drop]
  simp only [List.mem_append, List.mem_map, hmem, or_and_right, exists_or, eq_comm (a := i), or_right_comm]

/-! ### Two splices -/

/-- A target that has been moved once moves on as if the two sequences were one. -/
private theorem moved_moved {target : UInt64} {n' : Nat}
    (h : Landing.displaced.destination pos n target.toNat < UInt64.size) :
    moved (pos + n) n' .displaced (moved pos n .displaced target) = moved pos (n + n') .displaced target := by
  have htarget := toNat_moved h
  by_cases hmoves : pos < target.toNat ∨ target.toNat = pos
  · have hto : (moved pos n .displaced target).toNat = target.toNat + n := by
      rw [htarget, Landing.destination, if_pos (by simpa using hmoves)]
    rw [moved, if_pos (by simp; omega), moved, if_pos (by simpa using hmoves), moved,
      if_pos (by simpa using hmoves), UInt64.add_assoc, ← UInt64.ofNat_add]
  · have hstays : moved pos n .displaced target = target := by
      rw [moved, if_neg (by simpa using hmoves)]
    rw [hstays, moved, if_neg (by simp; omega), moved, if_neg (by simpa using hmoves)]

/-- A splice behind a splice is one splice, if no branches are put in. -/
private theorem splice_splice (h : pos ≤ b.code.length) {further : List Instruction}
    (hseq : ∀ i ∈ seq, i.target? = none) (hfurther : ∀ i ∈ further, i.target? = none)
    (hfits : ∀ i ∈ b.code, ∀ target ∈ i.target?,
      Landing.displaced.destination pos seq.length target.toNat < UInt64.size) :
    (b.splice pos seq .displaced).splice (pos + seq.length) further .displaced =
      b.splice pos (seq ++ further) .displaced := by
  have hmoved {code : List Instruction} (hcode : ∀ i ∈ code, i ∈ b.code) :
      (code.map (·.mapTarget (moved pos seq.length .displaced))).map
          (·.mapTarget (moved (pos + seq.length) further.length .displaced)) =
        code.map (·.mapTarget (moved pos (seq ++ further).length .displaced)) := by
    rw [List.map_map]
    refine List.map_congr_left fun i hi => ?_
    refine (i.mapTarget_mapTarget _ _).trans (Instruction.mapTarget_congr fun target htarget => ?_)
    rw [List.length_append]
    exact moved_moved (hfits i (hcode i hi) target htarget)
  -- the second splice comes right behind the first sequence
  have hfront : ((b.code.take pos).map (·.mapTarget (moved pos seq.length .displaced)) ++ seq).length =
      pos + seq.length := by
    rw [List.length_append, List.length_map, List.length_take, Nat.min_eq_left h]
  have hle : pos + seq.length ≤ (b.splice pos seq .displaced).code.length := by
    rw [length_splice]
    omega
  rw [splice_eq hle, splice_eq h, splice_eq h]
  simp only [map_mapTarget_of_no_target hseq, map_mapTarget_of_no_target hfurther,
    map_mapTarget_of_no_target (List.forall_mem_append.2 ⟨hseq, hfurther⟩)]
  rw [List.take_left' hfront, List.drop_left' hfront, List.map_append,
    hmoved fun i hi => List.mem_of_mem_take hi, hmoved fun i hi => List.mem_of_mem_drop hi,
    map_mapTarget_of_no_target hseq]
  simp only [List.append_assoc]

/-- The second of two splices fits just if both fit as one. -/
private theorem spliceFits_splice {further : List Instruction} (hseq : ∀ i ∈ seq, i.target? = none)
    (hfurther : ∀ i ∈ further, i.target? = none) (fits : b.SpliceFits pos seq .displaced) :
    (b.splice (min pos b.code.length) seq .displaced).SpliceFits (min pos b.code.length + seq.length) further
        .displaced ↔
      b.SpliceFits pos (seq ++ further) .displaced := by
  have hle : min pos b.code.length ≤ b.code.length := Nat.min_le_right _ _
  have hpos : min (min pos b.code.length + seq.length) (b.splice (min pos b.code.length) seq .displaced).code.length =
      min pos b.code.length + seq.length := by
    rw [length_splice]
    omega
  have hmoved {i : Instruction} (hi : i ∈ b.code) :
      (∀ target ∈ (i.mapTarget (moved (min pos b.code.length) seq.length .displaced)).target?,
        Landing.displaced.destination (min pos b.code.length + seq.length) further.length target.toNat <
          UInt64.size) ↔
      ∀ target ∈ i.target?, Landing.displaced.destination (min pos b.code.length) (seq ++ further).length
        target.toNat < UInt64.size := by
    rw [Instruction.target?_mapTarget]
    cases htarget : i.target? with
    | none => simp
    | some target =>
      simp [toNat_moved (fits.code i hi target htarget), Landing.destination_destination, List.length_append]
  constructor
  · rintro ⟨hcode, -⟩
    refine ⟨fun i hi => (hmoved hi).1 ?_, fun i hi target htarget => ?_⟩
    · rw [hpos] at hcode
      exact hcode _ ((mem_splice_code hle hseq).2 (.inl ⟨i, hi, rfl⟩))
    · rw [List.forall_mem_append.2 ⟨hseq, hfurther⟩ i hi] at htarget
      cases htarget
  · rintro ⟨hcode, -⟩
    refine ⟨fun i hi => ?_, fun i hi target htarget => ?_⟩
    · rw [hpos]
      obtain ⟨j, hj, rfl⟩ | hi := (mem_splice_code hle hseq).1 hi
      · exact (hmoved hj).2 (hcode j hj)
      · simp [hseq i hi]
    · rw [hfurther i hi] at htarget
      cases htarget

/-! ### The law -/

/-- A splice that fits puts its sequence in. -/
private theorem spliced (nonempty : seq ≠ []) (fits : b.SpliceFits pos seq landing) :
    b.Spliced (min pos b.code.length) seq landing (b.splice pos seq landing) := by
  have hle : min pos b.code.length ≤ b.code.length := Nat.min_le_right _ _
  have hold {index : Nat} {i : Instruction} (hi : b.code[index]? = some i) :
      ∃ i', (b.splice pos seq landing).code[shifted (min pos b.code.length) seq.length index]? = some i' ∧
        i.Relocates (landing.destination (min pos b.code.length) seq.length) i' := by
    refine ⟨_, by rw [← splice_min, splice_code_shifted hle, hi]; rfl, ?_⟩
    exact Instruction.relocates_mapTarget fun target htarget =>
      toNat_moved (fits.code i (List.mem_of_getElem? hi) target htarget)
  refine ⟨length_splice b pos seq landing, fun _ _ => hold, fun index i hi => ?_, rfl, rfl, ?_⟩
  · have hindex := (List.getElem?_eq_some_iff.1 hi).1
    refine ⟨_, by rw [← splice_min, splice_code_inserted hle hindex, hi]; rfl, ?_⟩
    exact Instruction.relocates_mapTarget fun target htarget =>
      toNat_add_ofNat (fits.inserted i (List.mem_of_getElem? hi) target htarget)
  · intro index op target hi
    obtain ⟨_, hcode, hrelocates⟩ := hold hi
    cases hrelocates with
    | other hnone => cases hnone
    | @branch _ _ target' htarget =>
      refine ⟨target', hcode, fun hother => htarget.trans (destination_of_not_inserted hother), ?_⟩
      rw [htarget]
      exact destination_eq_pos_iff (List.length_pos_iff.2 nonempty)

/-- What a splice does to a body.  An index behind the end stands for the end.  And two splices, one behind the
other, are one splice if neither sequence holds a branch and the jumps to them stay behind them. -/
theorem splice_law (b : Body) (pos : Nat) (seq : List Instruction) (landing : Landing) (nonempty : seq ≠ [])
    (fits : b.SpliceFits pos seq landing) :
    (∃ b', b.splice? pos seq landing = some b' ∧ b.Spliced (min pos b.code.length) seq landing b') ∧
      (landing = .displaced → ∀ further, (∀ i ∈ seq ++ further, i.target? = none) →
        ((b.splice? pos seq .displaced).bind fun b' =>
            b'.splice? (min pos b.code.length + seq.length) further .displaced) =
          b.splice? pos (seq ++ further) .displaced) := by
  refine ⟨⟨_, splice?_eq_some_iff.2 ⟨fits, rfl⟩, spliced nonempty fits⟩, ?_⟩
  rintro rfl further hnone
  obtain ⟨hseq, hfurther⟩ := List.forall_mem_append.1 hnone
  rw [splice?_eq_some_iff.2 ⟨fits, rfl⟩, Option.bind_some]
  refine Option.ext fun b' => ?_
  rw [splice?_eq_some_iff, splice?_eq_some_iff, ← splice_min b pos seq, ← splice_min b pos (seq ++ further),
    splice_splice (Nat.min_le_right _ _) hseq hfurther fits.code, spliceFits_splice hseq hfurther fits]

/-- A loop of four instructions. -/
def sampleLoop : Body :=
  .ofCode [.ldcI4 1, .branch .brtrue 1, .branch .br 2, .simple .ret]

/-- Code that jumps over an instruction of its own is put into the loop, at an index to which a branch leads: that
branch runs it, and its own branch leads behind it. -/
theorem splice_law_loop :
    sampleLoop.SpliceFits 2 [.ldcI4 0, .branch .brtrue 3, .simple .nop] .inserted ∧
      ∃ b', sampleLoop.splice? 2 [.ldcI4 0, .branch .brtrue 3, .simple .nop] .inserted = some b' ∧
        (∃ target, b'.code[5]? = some (.branch .br target) ∧ target.toNat = 2) ∧
        ∃ target, b'.code[3]? = some (.branch .brtrue target) ∧ target.toNat = 5 := by
  have fits : sampleLoop.SpliceFits 2 [.ldcI4 0, .branch .brtrue 3, .simple .nop] .inserted :=
    ⟨by simp [sampleLoop, ofCode, Instruction.target?, Landing.destination, UInt64.size],
      by simp [sampleLoop, ofCode, Instruction.target?, UInt64.size]⟩
  obtain ⟨⟨b', hb', hspliced⟩, -⟩ :=
    splice_law sampleLoop 2 [.ldcI4 0, .branch .brtrue 3, .simple .nop] .inserted (by simp) fits
  obtain ⟨target, hcode, -, hiff⟩ := hspliced.jumps 2 .br 2 rfl
  refine ⟨fits, b', hb', ⟨target, hcode, hiff.2 (by decide)⟩, ?_⟩
  obtain ⟨_, hcode', hrelocates⟩ := hspliced.inserted 1 (.branch .brtrue 3) rfl
  cases hrelocates with
  | other hnone => cases hnone
  | branch _ htarget => exact ⟨_, hcode', htarget⟩

end Body

end AdviceWeaving
