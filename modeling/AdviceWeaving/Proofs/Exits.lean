import AdviceWeaving.Proofs.Insertion

/-!
# Splices in front of every `ret`

What it does to any body to put any sequence in front of every `ret`, told in natural numbers like the law of a single
splice: every instruction begins a stretch of the new code, which starts at `epilogueAt` and is one instruction long,
or as long as a copy and its `ret` (`Body.Instrumented`).  The copies may hold branches and `ret` instructions of their
own; these are not instrumented.  A jump leads to the start of a stretch, so a jump to a `ret` runs its copy first, and
no jump of the body leads into a copy or behind it (`Body.spliceAtExits_law`).
-/

namespace AdviceWeaving

/-! ### Where the stretches start -/

section

variable {n : Nat} {seq code : List Instruction} {move : UInt64 → UInt64} {lead : Nat → UInt64 → UInt64}

private theorem returnsBelow_succ {index : Nat} {i : Instruction} (h : code[index]? = some i) :
    returnsBelow code (index + 1) = returnsBelow code index + i.isReturn.toNat := by
  rw [returnsBelow, List.take_add_one, h, List.countP_append, returnsBelow]
  cases hi : i.isReturn <;> simp [hi]

private theorem epilogueAt_succ {index : Nat} {i : Instruction} (h : code[index]? = some i) :
    epilogueAt n code (index + 1) = epilogueAt n code index + 1 + n * i.isReturn.toNat := by
  rw [epilogueAt, epilogueAt, returnsBelow_succ h, Nat.mul_add]
  omega

private theorem epilogueAt_add_le (n : Nat) (code : List Instruction) {a b : Nat} (h : a ≤ b) :
    epilogueAt n code a + (b - a) ≤ epilogueAt n code b := by
  have hcount : returnsBelow code a ≤ returnsBelow code b := (List.take_sublist_take_left h).countP_le
  have := Nat.mul_le_mul_left n hcount
  unfold epilogueAt
  omega

/-- No two stretches overlap. -/
private theorem epilogueAt_inj {a b k : Nat} (ha : epilogueAt n code a ≤ k) (ha' : k < epilogueAt n code (a + 1))
    (hb : epilogueAt n code b ≤ k) (hb' : k < epilogueAt n code (b + 1)) : a = b := by
  rcases Nat.lt_trichotomy a b with h | h | h
  · have := epilogueAt_add_le n code (show a + 1 ≤ b from h)
    omega
  · exact h
  · have := epilogueAt_add_le n code (show b + 1 ≤ a from h)
    omega

/-- The stretches of the indices below a bound leave nothing out. -/
private theorem exists_epilogueAt {length k : Nat} (h : k < epilogueAt n code length) :
    ∃ index < length, epilogueAt n code index ≤ k ∧ k < epilogueAt n code (index + 1) := by
  induction length with
  | zero => simp [epilogueAt, returnsBelow] at h
  | succ length ih =>
    by_cases hk : k < epilogueAt n code length
    · obtain ⟨index, hindex, hstretch⟩ := ih hk
      exact ⟨index, Nat.lt_succ_of_lt hindex, hstretch⟩
    · exact ⟨length, Nat.lt_succ_self _, by omega, h⟩

/-! ### The stretches -/

private theorem length_exitLayout : (exitLayout seq move lead code).length =
    epilogueAt seq.length code code.length := by
  -- the indices in the list of places start anywhere
  have hlength (code : List Instruction) (start : Nat) :
      ((code.zipIdx start).flatMap fun p =>
        if p.1.isReturn then seq.map (·.mapTarget (lead p.2)) ++ [p.1] else [p.1.mapTarget move]).length =
      code.length + seq.length * code.countP (·.isReturn) := by
    induction code generalizing start with
    | nil => rfl
    | cons i code ih =>
      rw [List.zipIdx_cons, List.flatMap_cons, List.length_append, ih, List.countP_cons, List.length_cons]
      cases i.isReturn
      · simp
        omega
      · simp [Nat.mul_add]
        omega
  rw [exitLayout, hlength, epilogueAt, returnsBelow, List.take_length]

/-- What stands in the stretch of an instruction. -/
private theorem exitLayout_stretch (seq : List Instruction) (move : UInt64 → UInt64) (lead : Nat → UInt64 → UInt64)
    {index : Nat} {i : Instruction} (h : code[index]? = some i) (k : Nat) (hk : k < 1 + seq.length * i.isReturn.toNat) :
    (exitLayout seq move lead code)[epilogueAt seq.length code index + k]? =
      (if i.isReturn then seq.map (·.mapTarget (lead index)) ++ [i] else [i.mapTarget move])[k]? := by
  obtain ⟨hlt, rfl⟩ := List.getElem?_eq_some_iff.1 h
  have hsplit : code.zipIdx = (code.take index).zipIdx ++ (code[index], index) ::
      (code.drop (index + 1)).zipIdx (index + 1) := by
    conv_lhs => rw [← List.take_append_drop index code, List.zipIdx_append, List.drop_eq_getElem_cons hlt]
    rw [List.length_take_of_le (Nat.le_of_lt hlt), Nat.zero_add, List.zipIdx_cons]
  have hfront : (exitLayout seq move lead (code.take index)).length = epilogueAt seq.length code index := by
    rw [length_exitLayout, epilogueAt, List.length_take_of_le (Nat.le_of_lt hlt), epilogueAt, returnsBelow,
      List.take_take, Nat.min_self, returnsBelow]
  rw [exitLayout, hsplit, List.flatMap_append, ← exitLayout,
    List.getElem?_append_right (by omega), hfront, Nat.add_sub_cancel_left, List.flatMap_cons,
    List.getElem?_append_left]
  cases hi : code[index].isReturn
  · simpa [hi] using hk
  · simp [hi] at hk ⊢
    omega

end

/-! ### The law -/

namespace Body

/-- The body `b'` is `b` with a copy of `seq` in front of every `ret`. -/
structure Instrumented (b : Body) (seq : List Instruction) (b' : Body) : Prop where
  length_eq : b'.code.length = b.code.length + b.code.countP (·.isReturn) * seq.length
  /-- Where an instruction is that is no `ret`, and where its branch leads. -/
  other : ∀ index i, b.code[index]? = some i → i.isReturn = false →
    ∃ i', b'.code[index + seq.length * returnsBelow b.code index]? = some i' ∧
      i.Relocates (fun target => target + seq.length * returnsBelow b.code target) i'
  /-- Where a `ret` is. -/
  exit : ∀ index i, b.code[index]? = some i → i.isReturn →
    b'.code[index + seq.length * (returnsBelow b.code index + 1)]? = some i
  /-- The copy right in front of it; its targets count from its start. -/
  copy : ∀ index i, b.code[index]? = some i → i.isReturn → ∀ k j, seq[k]? = some j →
    ∃ j', b'.code[index + seq.length * returnsBelow b.code index + k]? = some j' ∧
      j.Relocates (· + (index + seq.length * returnsBelow b.code index)) j'
  /-- There is nothing else, and nothing is there twice. -/
  stretches : ∀ k < b'.code.length, ∃! index, index < b.code.length ∧
    epilogueAt seq.length b.code index ≤ k ∧ k < epilogueAt seq.length b.code (index + 1)
  /-- A jump leads to the start of a copy or past its `ret`. -/
  jumps : seq ≠ [] → ∀ index op target, b.code[index]? = some (.branch op target) →
    ∃ target', b'.code[epilogueAt seq.length b.code index]? = some (.branch op target') ∧
      ∀ exit i, b.code[exit]? = some i → i.isReturn →
        (target.toNat = exit → target'.toNat = exit + seq.length * returnsBelow b.code exit) ∧
        ¬ (exit + seq.length * returnsBelow b.code exit < target'.toNat ∧
          target'.toNat ≤ exit + seq.length * (returnsBelow b.code exit + 1))
  locals_eq : b'.locals = b.locals
  initLocals_eq : b'.initLocals = b.initLocals

variable {b : Body} {seq : List Instruction}

theorem length_exits (b : Body) : b.exits.length = b.code.countP (·.isReturn) := by
  have hfst : b.code.zipIdx.countP (fun p => p.1.isReturn) = b.code.countP (·.isReturn) := by
    conv_rhs => rw [← List.zipIdx_map_fst 0 b.code, List.countP_map]
    rfl
  rw [exits, List.length_map, ← List.countP_eq_length_filter, hfst]

private theorem toNat_pushed {n : Nat} {code : List Instruction} {target : UInt64}
    (h : epilogueAt n code target.toNat < UInt64.size) :
    (pushed n code target).toNat = epilogueAt n code target.toNat := by
  -- the targets move as in a wrapping whose code on exit has that length
  have htracks := Wrapping.tracks_exits (List.replicate n (.simple .nop)) code target
  simp only [Wrapping.place, List.length_replicate, List.length_nil, Nat.add_zero] at htracks
  exact htracks h

/-- The copy in front of the `ret` at an index has moved with the copies in front of it. -/
private theorem toNat_pushed_take {n index : Nat} {code : List Instruction} {target : UInt64}
    (h : target.toNat + epilogueAt n code index < UInt64.size) :
    (pushed n (code.take index) (target + UInt64.ofNat index)).toNat = target.toNat + epilogueAt n code index := by
  have hle : index ≤ epilogueAt n code index := Nat.le_add_right _ _
  have hto : (target + UInt64.ofNat index).toNat = target.toNat + index := toNat_add_ofNat (by omega)
  have hplace : epilogueAt n (code.take index) (target.toNat + index) = target.toNat + epilogueAt n code index := by
    rw [epilogueAt, epilogueAt, returnsBelow, returnsBelow, List.take_take, Nat.min_eq_right (by omega)]
    omega
  rw [toNat_pushed (by rw [hto, hplace]; exact h), hto, hplace]

/-- A jump that does not lead to a `ret` leads past its copy or stays in front of it. -/
private theorem not_epilogueAt_between {code : List Instruction} {n exit : Nat} {i : Instruction}
    (h : code[exit]? = some i) (hi : i.isReturn) (target : Nat) :
    ¬ (epilogueAt n code exit < epilogueAt n code target ∧
      epilogueAt n code target ≤ exit + n * (returnsBelow code exit + 1)) := by
  have hsucc : epilogueAt n code (exit + 1) = exit + n * (returnsBelow code exit + 1) + 1 := by
    rw [epilogueAt_succ h, epilogueAt, hi, Nat.mul_add]
    simp
    omega
  rcases Nat.lt_or_ge exit target with hlt | hge
  · have := epilogueAt_add_le n code (show exit + 1 ≤ target from hlt)
    omega
  · have := epilogueAt_add_le n code hge
    omega

private theorem length_spliceAtExits (b : Body) (seq : List Instruction) :
    (b.spliceAtExits fun _ => seq).1.code.length = epilogueAt seq.length b.code b.code.length := by
  rw [spliceAtExits_eq_exitLayout, length_exitLayout]

/-- The stretches of a body: the targets of a copy count from its start, before it moves. -/
private theorem spliceAtExits_stretch (b : Body) (seq : List Instruction) {index : Nat} {i : Instruction}
    (h : b.code[index]? = some i) (k : Nat) (hk : k < 1 + seq.length * i.isReturn.toNat) :
    (b.spliceAtExits fun _ => seq).1.code[epilogueAt seq.length b.code index + k]? =
      (if i.isReturn then
        seq.map (·.mapTarget fun target =>
          pushed seq.length (b.code.take index) (target + UInt64.ofNat index)) ++ [i]
      else [i.mapTarget (pushed seq.length b.code)])[k]? := by
  rw [spliceAtExits_eq_exitLayout]
  exact exitLayout_stretch seq _
    (fun index target => pushed seq.length (b.code.take index) (target + UInt64.ofNat index)) h k hk

/-- What it does to a body to put a sequence in front of every `ret`; the number of these comes back. -/
theorem spliceAtExits_law (b : Body) (seq : List Instruction) (fits : b.ExitsFit seq) :
    ∃ b', (b.spliceAtExits? fun _ => seq) = some (b', b.code.countP (·.isReturn)) ∧ b.Instrumented seq b' := by
  refine ⟨(b.spliceAtExits fun _ => seq).1, spliceAtExits?_eq_some_iff.2 ⟨fits, Prod.ext rfl b.length_exits.symm⟩, ?_⟩
  have hold {index : Nat} {i : Instruction} (hi : b.code[index]? = some i) (hr : i.isReturn = false) :
      ∃ i', (b.spliceAtExits fun _ => seq).1.code[epilogueAt seq.length b.code index]? = some i' ∧
        i.Relocates (epilogueAt seq.length b.code) i' := by
    refine ⟨i.mapTarget (pushed seq.length b.code), ?_, Instruction.relocates_mapTarget fun target htarget =>
      toNat_pushed (fits.code i (List.mem_of_getElem? hi) target htarget)⟩
    simpa [hr] using b.spliceAtExits_stretch seq hi 0 (by omega)
  have hlength := b.length_spliceAtExits seq
  refine ⟨?_, fun _ _ => hold, fun index i hi hr => ?_, fun index i hi hr k j hj => ?_, fun k hk => ?_,
    fun _ index op target hi => ?_, ?_, ?_⟩
  · rw [hlength, epilogueAt, returnsBelow, List.take_length, Nat.mul_comm]
  · have hstretch := b.spliceAtExits_stretch seq hi seq.length (by simp [hr])
    rw [Nat.mul_add, Nat.mul_one, ← Nat.add_assoc]
    simpa [hr, epilogueAt] using hstretch
  · obtain ⟨hk, rfl⟩ := List.getElem?_eq_some_iff.1 hj
    refine ⟨_, ?_, Instruction.relocates_mapTarget fun target htarget => toNat_pushed_take
      (fits.copies index i hi hr _ (List.mem_of_getElem? hj) target htarget)⟩
    have hstretch := b.spliceAtExits_stretch seq hi k (by simp [hr]; omega)
    simpa [hr, epilogueAt, List.getElem?_append_left, hk] using hstretch
  · obtain ⟨index, hindex, hle, hlt⟩ := exists_epilogueAt (hlength ▸ hk)
    exact ⟨index, ⟨hindex, hle, hlt⟩, fun other h => epilogueAt_inj h.2.1 h.2.2 hle hlt⟩
  · obtain ⟨_, hcode, hrelocates⟩ := hold hi rfl
    cases hrelocates with
    | other hnone => cases hnone
    | @branch _ _ target' htarget =>
      refine ⟨target', hcode, fun exit i hexit hr => ⟨fun heq => ?_, ?_⟩⟩
      · rw [htarget, heq]
        rfl
      · rw [htarget]
        exact not_epilogueAt_between hexit hr target.toNat
  · rw [spliceAtExits_eq_exitLayout]
  · rw [spliceAtExits_eq_exitLayout]

/-- Two `ret` instructions next to each other, with a jump to each of them. -/
def sampleExits : Body :=
  .ofCode [.branch .brtrue 2, .simple .ret, .simple .ret, .branch .br 1]

/-- Code that jumps over an instruction of its own is put in front of both: the jump to the second `ret` leads to the
second copy, and the jump in that copy to its `ret`. -/
theorem spliceAtExits_law_adjacent :
    sampleExits.ExitsFit [.branch .br 2, .simple .nop] ∧
      ∃ b', (sampleExits.spliceAtExits? fun _ => [.branch .br 2, .simple .nop]) = some (b', 2) ∧
        (∃ target, b'.code[0]? = some (.branch .brtrue target) ∧ target.toNat = 4) ∧
        (∃ target, b'.code[4]? = some (.branch .br target) ∧ target.toNat = 6) ∧
        b'.code[6]? = some (.simple .ret) := by
  have fits : sampleExits.ExitsFit [.branch .br 2, .simple .nop] := by
    refine ⟨by simp [sampleExits, ofCode, Instruction.target?, epilogueAt, returnsBelow, Instruction.isReturn,
      UInt64.size], fun index i hi hr j hj target htarget => ?_⟩
    have hindex : index < sampleExits.code.length := (List.getElem?_eq_some_iff.1 hi).1
    simp only [List.mem_cons, List.not_mem_nil, or_false] at hj
    obtain rfl | rfl := hj
    · obtain rfl : target = 2 := by simpa [Instruction.target?] using htarget.symm
      have hle := epilogueAt_add_le 2 sampleExits.code (Nat.le_of_lt hindex)
      have hlast : epilogueAt 2 sampleExits.code 4 = 8 := by decide
      change epilogueAt 2 sampleExits.code index + (4 - index) ≤ epilogueAt 2 sampleExits.code 4 at hle
      change 2 + epilogueAt 2 sampleExits.code index < 2 ^ 64
      omega
    · simp [Instruction.target?] at htarget
  obtain ⟨b', hb', hinstrumented⟩ := spliceAtExits_law sampleExits [.branch .br 2, .simple .nop] fits
  obtain ⟨target, hcode, hjump⟩ := hinstrumented.jumps (by simp) 0 .brtrue 2 rfl
  refine ⟨fits, b', hb', ⟨target, hcode, (hjump 2 (.simple .ret) rfl rfl).1 rfl⟩, ?_,
    hinstrumented.exit 2 (.simple .ret) rfl rfl⟩
  obtain ⟨_, hcode', hrelocates⟩ := hinstrumented.copy 2 (.simple .ret) rfl rfl 0 (.branch .br 2) rfl
  cases hrelocates with
  | other hnone => cases hnone
  | branch _ htarget => exact ⟨_, hcode', htarget⟩

end Body

end AdviceWeaving
