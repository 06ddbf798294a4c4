import AdviceWeaving.Proofs.Epilogues
import AdviceWeaving.Proofs.Naming

/-!
# Splices into a wrapping

The splices of a pass build a wrapping step by step: a splice at the start, one behind the code on
entry, and one in front of every `ret` each put their sequence into the wrapping, whatever else is
there already.  `Wrapping.Around` is what holds of a body after any of them; the lemmas behind it
tell what each splice does to the wrapping.
-/

namespace AdviceWeaving

/-! ### A splice at the start, and one behind the code on entry -/

namespace Wrapping

variable {w : Wrapping} {code seq : List Instruction} {move : UInt64 → UInt64}

/-- A wrapping without code on exit. -/
private theorem codeWith_entry_only (seq : List Instruction) (move : UInt64 → UInt64)
    (code : List Instruction) :
    ({ entry := seq } : Wrapping).codeWith move code = seq ++ code.map (·.mapTarget move) := by
  have hblock : ∀ i ∈ code, ({ entry := seq } : Wrapping).blockWith move i = [i.mapTarget move] := by
    intro i _
    cases h : i.isReturn
    · exact blockWith_of_not_isReturn h
    · rw [blockWith_of_isReturn h,
        Instruction.mapTarget_of_target?_eq_none (Instruction.target?_of_isReturn h)]
      rfl
  rw [codeWith, List.flatMap_congr hblock, ← List.map_eq_flatMap]

private theorem map_codeWith (hentry : Plain w.entry) (hexit : Plain w.exit) (further : UInt64 → UInt64) :
    (w.codeWith move code).map (·.mapTarget further) =
      w.codeWith (fun target => further (move target)) code := by
  have hwithin : w.within {} = w := by simp [within]
  have h : ({} : Wrapping).codeWith further (w.codeWith move code) =
      (w.within {}).codeWith (fun target => further (move target)) code :=
    codeWith_within hentry hexit further
  rwa [hwithin, codeWith_entry_only, List.nil_append] at h

end Wrapping

/-- Plain code at the start of a body, behind every jump to the start. -/
private theorem Body.splice_start (b : Body) {seq : List Instruction} (hseq : Plain seq) :
    (b.splice 0 seq .displaced).code =
      ({ entry := seq } : Wrapping).codeWith (moved 0 seq.length .displaced) b.code := by
  simp [Body.splice, hseq.map_mapTarget, Wrapping.codeWith_entry_only]

private theorem Wrapping.tracks_start (seq code : List Instruction) :
    ({ entry := seq } : Wrapping).Tracks code (Body.moved 0 seq.length .displaced) := by
  intro target hlt
  simp only [place, List.length_nil, Nat.zero_mul, Nat.add_zero] at hlt ⊢
  rw [Body.moved, if_pos (by simp; omega), toNat_add_ofNat hlt]

/-- Plain code behind the code on entry. -/
private theorem Body.splice_entry {b : Body} {w : Wrapping} {code seq : List Instruction}
    {move : UInt64 → UInt64} (hb : b.code = w.codeWith move code) (hentry : Plain w.entry)
    (hexit : Plain w.exit) (hseq : Plain seq) :
    (b.splice w.entry.length seq .displaced).code =
      ({ w with entry := w.entry ++ seq } : Wrapping).codeWith
        (fun target => moved w.entry.length seq.length .displaced (move target)) code := by
  have hle : w.entry.length ≤ (w.codeWith move code).length := by simp [Wrapping.codeWith]
  simp only [Body.splice, hb, Nat.min_eq_left hle, hseq.map_mapTarget]
  rw [Wrapping.map_codeWith hentry hexit, Wrapping.codeWith, List.take_left, List.drop_left]
  rfl

/-- No target of the body leads in front of the code on entry: all of them lead further. -/
private theorem Wrapping.Tracks.entry {w : Wrapping} {code : List Instruction} {move : UInt64 → UInt64}
    (h : w.Tracks code move) (seq : List Instruction) :
    ({ w with entry := w.entry ++ seq } : Wrapping).Tracks code
      fun target => Body.moved w.entry.length seq.length .displaced (move target) := by
  intro target hlt
  have hplace : ({ w with entry := w.entry ++ seq } : Wrapping).place code target.toNat =
      w.place code target.toNat + seq.length := by
    simp only [place, List.length_append]
    omega
  have hle : w.entry.length ≤ w.place code target.toNat := by
    simp only [place]
    omega
  rw [hplace] at hlt ⊢
  have hmoved := h target (by omega)
  show (Body.moved _ _ _ (move target)).toNat = _
  rw [Body.moved, if_pos (by simp; omega), toNat_add_ofNat (by omega), hmoved]

/-! ### Bodies in a wrapping -/

/-- The instruction is one of the code, but for where it jumps to. -/
def Instruction.StemsFrom (i : Instruction) (code : List Instruction) : Prop :=
  ∃ j ∈ code, ∃ f, i = j.mapTarget f

namespace Wrapping

/-- A pass has put the wrapping `w` around the body `base` and has come to `body`; it knows where
the code on entry ends, and the local that the code on exit needs. -/
structure Around (w : Wrapping) (base body : Body) (cursor : Nat) (slot? : Option UInt16) :
    Prop where
  entry_plain : Plain w.entry
  exit_plain : Plain w.exit
  /-- A target whose place is no 64-bit word has no place. -/
  fits : w.Fits base.code
  code_eq : body.code = w.code base.code
  locals_eq : body.locals = base.locals ++ w.slot?.toArray
  initLocals_eq : body.initLocals = (base.initLocals || w.slot?.isSome)
  cursor_eq : cursor = w.entry.length
  slot?_eq : slot? = w.slot?.map fun _ => UInt16.ofNat base.locals.size
  room : w.slot?.isSome → base.locals.size < Body.maxLocals

theorem code_empty (code : List Instruction) : ({} : Wrapping).code code = code := by
  have hblock : ∀ i ∈ code, ({} : Wrapping).block code i = [i] := by
    intro i _
    cases h : i.isReturn
    · rw [block_of_not_isReturn h]
      cases i <;> simp [Instruction.mapTarget, place]
    · rw [block_of_isReturn h]
      rfl
  rw [Wrapping.code, List.flatMap_congr hblock]
  simp

namespace Around

variable {w : Wrapping} {base body : Body} {cursor : Nat} {slot? : Option UInt16}
  {seq : List Instruction}

/-! ### What a pass leaves of the instructions -/

theorem length_eq (h : w.Around base body cursor slot?) :
    body.code.length = w.place base.code base.code.length := by
  rw [h.code_eq]
  exact length_codeWith

/-- The place of a target is the target of its instruction. -/
theorem toNat_place (h : w.Around base body cursor slot?) {i : Instruction} (hi : i ∈ base.code) {target : UInt64}
    (ht : i.target? = some target) :
    (UInt64.ofNat (w.place base.code target.toNat)).toNat = w.place base.code target.toNat :=
  UInt64.toNat_ofNat_of_lt' (h.fits i hi target ht)

/-- All instructions come from the wrapping or stand for one of the body, with their targets moved to their places. -/
theorem mem_code_iff (h : w.Around base body cursor slot?) {i : Instruction} :
    i ∈ body.code ↔ i ∈ w.entry ∨ (i ∈ w.exit ∧ ∃ j ∈ base.code, j.isReturn) ∨
      ∃ j ∈ base.code, i = j.mapTarget fun target => UInt64.ofNat (w.place base.code target.toNat) := by
  rw [h.code_eq, code, List.mem_append, List.mem_flatMap]
  refine or_congr Iff.rfl ?_
  constructor
  · rintro ⟨j, hj, hi⟩
    cases hr : j.isReturn with
    | true =>
      rw [block_of_isReturn hr, List.mem_append, List.mem_singleton] at hi
      rcases hi with hi | rfl
      · exact .inl ⟨hi, j, hj, hr⟩
      · exact .inr ⟨i, hj, (Instruction.mapTarget_of_target?_eq_none (Instruction.target?_of_isReturn hr)).symm⟩
    | false =>
      rw [block_of_not_isReturn hr, List.mem_singleton] at hi
      exact .inr ⟨j, hj, hi⟩
  · rintro (⟨hi, j, hj, hr⟩ | ⟨j, hj, rfl⟩)
    · exact ⟨j, hj, by simp [block_of_isReturn hr, hi]⟩
    · refine ⟨j, hj, ?_⟩
      cases hr : j.isReturn with
      | true =>
        rw [Instruction.mapTarget_of_target?_eq_none (Instruction.target?_of_isReturn hr), block_of_isReturn hr]
        exact List.mem_append_right _ (List.mem_singleton_self j)
      | false =>
        rw [block_of_not_isReturn hr]
        exact List.mem_singleton_self _

theorem mem_code (h : w.Around base body cursor slot?) {i : Instruction} (hi : i ∈ body.code) :
    i ∈ w.entry ∨ i ∈ w.exit ∨ i.StemsFrom base.code := by
  rcases h.mem_code_iff.1 hi with hi | ⟨hi, -⟩ | ⟨j, hj, rfl⟩
  · exact .inl hi
  · exact .inr (.inl hi)
  · exact .inr (.inr ⟨j, hj, _, rfl⟩)

/-- Only the instructions of the body jump, and their jumps follow what they go to. -/
theorem exists_target (h : w.Around base body cursor slot?) {i : Instruction} (hi : i ∈ body.code) {target : UInt64}
    (ht : i.target? = some target) :
    ∃ j ∈ base.code, ∃ t, j.target? = some t ∧ target.toNat = w.place base.code t.toNat := by
  rcases h.mem_code_iff.1 hi with hi | ⟨hi, -⟩ | ⟨j, hj, rfl⟩
  · rw [Instruction.target?_of_isPlain (h.entry_plain i hi)] at ht
    cases ht
  · rw [Instruction.target?_of_isPlain (h.exit_plain i hi)] at ht
    cases ht
  · rw [Instruction.target?_mapTarget] at ht
    obtain ⟨t, hjt, rfl⟩ := Option.map_eq_some_iff.1 ht
    exact ⟨j, hj, t, hjt, h.toNat_place hj hjt⟩

/-- No jump is lost to the outside. -/
theorem inRange (h : w.Around base body cursor slot?) (hbase : base.TargetsInRange) :
    body.TargetsInRange := by
  intro i hi target ht
  obtain ⟨j, hj, t, hjt, htarget⟩ := h.exists_target hi ht
  rw [h.length_eq, htarget]
  have hlt := hbase j hj t hjt
  have hmono : w.place base.code t.toNat + _ ≤ w.place base.code base.code.length :=
    place_mono (Nat.le_of_lt hlt)
  omega

/-! ### What each splice does -/

theorem start (base : Body) : ({} : Wrapping).Around base base 0 none where
  entry_plain := by intro i hi; cases hi
  exit_plain := by intro i hi; cases hi
  fits := fun i _ target _ => by simp [place, target.toNat_lt]
  code_eq := (code_empty base.code).symm
  locals_eq := by simp
  initLocals_eq := by simp
  cursor_eq := rfl
  slot?_eq := rfl
  room h := by cases h

private theorem tracks (w : Wrapping) (code : List Instruction) :
    w.Tracks code fun target => UInt64.ofNat (w.place code target.toNat) :=
  fun _ hlt => UInt64.toNat_ofNat_of_lt' hlt

/-- A branch of the body stands among its instructions with its new target. -/
private theorem exists_branch (h : w.Around base body cursor slot?) {i : Instruction} (hi : i ∈ base.code)
    {target : UInt64} (ht : i.target? = some target) :
    ∃ i' ∈ body.code, ∃ target' ∈ i'.target?, target'.toNat = w.place base.code target.toNat := by
  refine ⟨_, h.mem_code_iff.2 (.inr (.inr ⟨i, hi, rfl⟩)), UInt64.ofNat (w.place base.code target.toNat), ?_,
    h.toNat_place hi ht⟩
  rw [Instruction.target?_mapTarget, ht]
  rfl

/-- Code in front of the wrapping. -/
theorem spliceStart (h : w.Around base body cursor slot?) (hseq : Plain seq)
    (hfits : body.SpliceFits 0 seq .displaced) :
    ({ w with entry := seq ++ w.entry } : Wrapping).Around base (body.splice 0 seq .displaced)
      (cursor + seq.length) slot? := by
  have hfits' : ({ w with entry := seq ++ w.entry } : Wrapping).Fits base.code := by
    intro i hi target ht
    obtain ⟨i', hi', target', ht', hplace⟩ := h.exists_branch hi ht
    have hlt := hfits.code i' hi' target' ht'
    rw [Nat.zero_min, Landing.destination, if_pos (by simp; omega), hplace] at hlt
    simp only [place, List.length_append] at hlt ⊢
    omega
  have hwithin : ({ w with entry := seq ++ w.entry } : Wrapping) = w.within { entry := seq } := by
    simp [within]
  have htracks := (tracks w base.code).within (tracks_start seq _) h.entry_plain h.exit_plain
  exact
    { entry_plain := hseq.append h.entry_plain
      exit_plain := h.exit_plain
      fits := hfits'
      code_eq := by
        rw [hwithin] at hfits' ⊢
        rw [← htracks.codeWith_eq hfits', Body.splice_start body hseq, h.code_eq]
        exact codeWith_within h.entry_plain h.exit_plain _
      locals_eq := h.locals_eq
      initLocals_eq := h.initLocals_eq
      cursor_eq := by rw [h.cursor_eq, List.length_append]; omega
      slot?_eq := h.slot?_eq
      room := h.room }

/-- Code behind the code on entry. -/
theorem spliceEntry (h : w.Around base body cursor slot?) (hseq : Plain seq)
    (hfits : body.SpliceFits cursor seq .displaced) :
    ({ w with entry := w.entry ++ seq } : Wrapping).Around base (body.splice cursor seq .displaced)
      (cursor + seq.length) slot? := by
  have hfits' : ({ w with entry := w.entry ++ seq } : Wrapping).Fits base.code := by
    intro i hi target ht
    obtain ⟨i', hi', target', ht', hplace⟩ := h.exists_branch hi ht
    have hlt := hfits.code i' hi' target' ht'
    have hle : cursor ≤ target'.toNat := by
      rw [hplace, h.cursor_eq, place]
      omega
    rw [Landing.destination, if_pos (by simp; omega), hplace] at hlt
    simp only [place, List.length_append] at hlt ⊢
    omega
  exact
    { entry_plain := h.entry_plain.append hseq
      exit_plain := h.exit_plain
      fits := hfits'
      code_eq := by
        rw [← ((tracks w base.code).entry seq).codeWith_eq hfits', h.cursor_eq]
        exact Body.splice_entry h.code_eq h.entry_plain h.exit_plain hseq
      locals_eq := h.locals_eq
      initLocals_eq := h.initLocals_eq
      cursor_eq := by rw [h.cursor_eq, List.length_append]
      slot?_eq := h.slot?_eq
      room := h.room }

/-- Code in front of every `ret`, behind the code on exit. -/
theorem spliceExits (h : w.Around base body cursor slot?) (hseq : Plain seq) (hfits : body.ExitsFit seq) :
    ({ w with exit := w.exit ++ seq } : Wrapping).Around base
      (body.spliceAtExits fun _ => seq).1 cursor slot? := by
  have hwithin : ({ w with exit := w.exit ++ seq } : Wrapping) = w.within { exit := seq } := by
    simp [within]
  have hfits' : (w.within { exit := seq }).Fits base.code := by
    intro i hi target ht
    obtain ⟨i', hi', target', ht', hplace⟩ := h.exists_branch hi ht
    have hlt := hfits.code i' hi' target' ht'
    rw [hplace, h.code_eq] at hlt
    rw [← place_within h.entry_plain h.exit_plain]
    exact hlt
  have htracks := (tracks w base.code).within (tracks_exits seq _) h.entry_plain h.exit_plain
  exact
    { entry_plain := h.entry_plain
      exit_plain := h.exit_plain.append hseq
      fits := hwithin.symm ▸ hfits'
      code_eq := by
        rw [hwithin, ← htracks.codeWith_eq hfits', Body.spliceAtExits_eq body hseq, h.code_eq]
        exact codeWith_within h.entry_plain h.exit_plain _
      locals_eq := by rw [Body.spliceAtExits_eq body hseq]; exact h.locals_eq
      initLocals_eq := by rw [Body.spliceAtExits_eq body hseq]; exact h.initLocals_eq
      cursor_eq := h.cursor_eq
      slot?_eq := h.slot?_eq
      room := h.room }

/-- A local for the code on exit; it is the first behind those of the body. -/
theorem addLocal (h : w.Around base body cursor none) {type : ValueType} {slot : UInt16}
    {body' : Body} (hadd : body.addLocal type = some (slot, body')) :
    slot = UInt16.ofNat base.locals.size ∧
      ({ w with slot? := some type } : Wrapping).Around base
      { body' with initLocals := true } cursor (some slot) := by
  have hnone : w.slot? = none := by simpa using h.slot?_eq.symm
  have hlocals : body.locals = base.locals := by simpa [hnone] using h.locals_eq
  unfold Body.addLocal at hadd
  split at hadd
  · next hroom =>
    cases hadd
    rw [hlocals] at hroom
    refine ⟨by rw [hlocals], ?_⟩
    exact
      { entry_plain := h.entry_plain
        exit_plain := h.exit_plain
        fits := h.fits
        code_eq := h.code_eq
        locals_eq := by rw [hlocals]; simp
        initLocals_eq := by simp
        cursor_eq := h.cursor_eq
        slot?_eq := by rw [hlocals]; rfl
        room := fun _ => hroom }
  · cases hadd

/-- The local that is known is the one of the code on exit. -/
theorem slot_eq {slot : UInt16} (h : w.Around base body cursor (some slot)) :
    slot = UInt16.ofNat base.locals.size ∧ w.slot?.isSome := by
  have := h.slot?_eq
  cases hw : w.slot? with
  | none => rw [hw] at this; cases this
  | some type => rw [hw] at this; exact ⟨Option.some.inj this, rfl⟩

end Around

end Wrapping

end AdviceWeaving
