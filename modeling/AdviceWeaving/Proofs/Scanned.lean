import AdviceWeaving.Proofs.Lexing

/-!
# The names in a text

What a text reads as a name is a dotted identifier.  It is spelled like a reserved word only if a dot follows it,
and that dot is stray: so in a text without stray parts, every name is `isName` (`isName_of_mem_verdicts`).
-/

namespace AdviceWeaving

private theorem isDottedFrom_take_pathLength (cs : List Char) :
    isDottedFrom false (cs.take (pathLength cs)) := by
  fun_induction pathLength cs with
  | case1 c rest h ih => simpa [Nat.add_comm 2, isDottedFrom, h] using ih
  | case2 => rfl
  | case3 c rest _ h ih =>
    rw [Nat.add_comm, List.take_succ_cons, isDottedFrom]
    simpa [ne_dot_of_isNameChar h, h] using ih
  | case4 => rfl
  | case5 => rfl

/-- Behind a dotted name, no dot has a further segment behind it. -/
private theorem isNameStart_of_drop_pathLength {cs rest : List Char} {c : Char}
    (h : cs.drop (pathLength cs) = '.' :: c :: rest) : isNameStart c = false := by
  fun_induction pathLength cs with
  | case1 d tail hd ih => exact ih (by simpa [Nat.add_comm 2] using h)
  | case2 d tail hd =>
    obtain ⟨rfl, -⟩ : d = c ∧ tail = rest := by simpa using h
    simpa using hd
  | case3 d tail _ hd ih => exact ih (by simpa [Nat.add_comm 1] using h)
  | case4 d tail hdot hd =>
    obtain ⟨rfl, rfl⟩ : d = '.' ∧ tail = c :: rest := by simpa using h
    exact absurd rfl (hdot c rest rfl)
  | case5 => simp at h

/-- A dot that starts no word is stray. -/
private theorem firstPiece_dot {cs : List Char} (h : ∀ c ∈ cs.head?, isNameStart c = false) :
    firstPiece '.' cs = (.stray, 0) := by
  have hfind : dottedWords.find? (fun x => x.1.toList.isPrefixOf cs) = none := by
    cases cs with
    | nil => rfl
    | cons c cs =>
      have hc (d : Char) (hd : isNameStart d) : (d == c) = false := by
        rw [beq_eq_false_iff_ne]
        rintro rfl
        exact absurd (h d rfl) (by simp [hd])
      simp [dottedWords, List.isPrefixOf, hc 'l' rfl, hc 'i' rfl, hc 'c' rfl]
  rw [firstPiece, if_neg (by decide), if_neg (by decide), if_neg (by decide)]
  simp only [hfind]

private theorem ofValue?_ne_path {α : Type} {value : Option α} {f : α → Token} {name : String}
    (hf : ∀ a, f a ≠ .path name) : Verdict.ofValue? (value.map f) ≠ .token (.path name) := by
  cases value with
  | none => simp [Verdict.ofValue?]
  | some a => simpa [Verdict.ofValue?] using hf a

private theorem dottedWords_ne_path {word name : String} {token : Token} (h : (word, token) ∈ dottedWords) :
    token ≠ .path name := by
  simp only [dottedWords, List.mem_cons, Prod.mk.injEq, List.not_mem_nil, or_false] at h
  obtain ⟨-, rfl⟩ | ⟨-, rfl⟩ | ⟨-, rfl⟩ | ⟨-, rfl⟩ := h <;> nofun

/-- A text starts with a name only if it is one, and is spelled like a reserved word only in front of a dot. -/
private theorem isDotted_of_firstPiece {c : Char} {cs : List Char} {name : String} {n : Nat}
    (h : firstPiece c cs = (.token (.path name), n)) :
    isDotted name ∧ n = pathLength cs ∧
      (Keyword.ofText? name = none ∨ (cs.drop n).head? = some '.') := by
  unfold firstPiece at h
  split at h
  · cases h
  split at h
  next hstart =>
    obtain ⟨hverdict, rfl⟩ := Prod.mk.inj h
    have hdotted : isDotted (String.ofList (c :: cs.take (pathLength cs))) := by
      simpa [isDotted, isDottedFrom, hstart] using isDottedFrom_take_pathLength cs
    rw [nameVerdict] at hverdict
    split at hverdict
    · split at hverdict
      next hdot =>
        cases hverdict
        exact ⟨hdotted, rfl, .inr hdot⟩
      · cases hverdict
    next hnone =>
      cases hverdict
      exact ⟨hdotted, rfl, .inl hnone⟩
  -- no other text starts with a name
  split at h
  · exact absurd (Prod.mk.inj h).1 (ofValue?_ne_path fun _ => by simp)
  split at h
  case h_1 => cases h
  case h_2 =>
    split at h
    · exact absurd (Prod.mk.inj h).1 (ofValue?_ne_path fun _ => by simp)
    · cases h
  case h_4 =>
    split at h
    · exact absurd (Prod.mk.inj h).1 (ofValue?_ne_path fun _ => by simp)
    · cases h
  case h_15 =>
    split at h
    next word token hfind =>
      exact absurd (Verdict.token.inj (Prod.mk.inj h).1)
        (dottedWords_ne_path (List.mem_of_find?_eq_some hfind))
    · cases h
  all_goals cases h

/-- In a text without stray parts, what is read as a name can be written as one. -/
theorem isName_of_mem_verdicts {cs : List Char} (hstray : .stray ∉ verdicts cs) {name : String}
    (h : .token (.path name) ∈ verdicts cs) : isName name := by
  match cs with
  | [] => simp [verdicts_nil] at h
  | c :: cs =>
    cases hpiece : firstPiece c cs with
    | mk verdict n =>
    have hrest : .stray ∉ verdicts (cs.drop n) := fun hmem => hstray <| by
      rw [verdicts_cons hpiece]
      exact List.mem_append_right _ hmem
    rw [verdicts_cons hpiece] at h
    obtain h | h := List.mem_append.1 h
    · obtain rfl : verdict = .token (.path name) := by
        split at h
        · cases h
        · exact (List.mem_singleton.1 h).symm
      obtain ⟨hdotted, rfl, hword | hdot⟩ := isDotted_of_firstPiece hpiece
      · rw [isName, hdotted, hword]
        rfl
      · obtain ⟨rest, hdrop⟩ := List.head?_eq_some_iff.1 hdot
        have hnext : ∀ d ∈ rest.head?, isNameStart d = false := fun d hd => by
          obtain ⟨tail, rfl⟩ := List.head?_eq_some_iff.1 hd
          exact isNameStart_of_drop_pathLength hdrop
        rw [hdrop, verdicts_cons (firstPiece_dot hnext)] at hrest
        exact absurd (List.mem_append_left _ (by simp)) hrest
    · exact isName_of_mem_verdicts hrest h
termination_by cs.length
decreasing_by simp only [List.length_drop, List.length_cons]; omega

/-! ### Lexemes -/

/-- The token of a piece that is one. -/
def Verdict.token? : Verdict → Option Token
  | .token t => some t
  | _ => none

private theorem map_snd_located (start : Nat) (ps : List Piece) : (located start ps).map (·.2) = ps := by
  induction ps generalizing start with
  | nil => rfl
  | cons p ps ih => exact congrArg (p :: ·) (ih _)

theorem tokens_lex (source : String) :
    (lex source).tokens.map (·.token) = (verdicts source.toList).filterMap (·.token?) := by
  have hblank : (pieces source.toList).filterMap (·.verdict.token?) =
      (verdicts source.toList).filterMap (·.token?) := by
    rw [verdicts, List.filterMap_filter, List.filterMap_map]
    congr 1
    funext p
    cases h : p.verdict <;> simp [h, Verdict.token?]
  rw [← hblank, ← map_snd_located 0 (pieces source.toList), List.filterMap_map, lex,
    List.map_filterMap]
  congr 1
  funext x
  cases h : x.2.verdict <;> simp [h, Verdict.token?]

theorem strays_lex_eq_nil_iff (source : String) :
    (lex source).strays = [] ↔ .stray ∉ verdicts source.toList := by
  have hmem : .stray ∈ verdicts source.toList ↔ ∃ p ∈ pieces source.toList, p.verdict = .stray := by
    simp [verdicts, eq_comm]
  rw [hmem, lex, List.filterMap_eq_nil_iff]
  constructor
  · rintro h ⟨p, hp, hstray⟩
    rw [← map_snd_located 0 (pieces source.toList)] at hp
    obtain ⟨⟨span, p⟩, hlocated, rfl⟩ := List.mem_map.1 hp
    have hnone := h _ hlocated
    simp only at hstray
    simp [hstray] at hnone
  · rintro h ⟨span, p⟩ hlocated
    have hp : p ∈ pieces source.toList := by
      rw [← map_snd_located 0 (pieces source.toList)]
      exact List.mem_map.2 ⟨_, hlocated, rfl⟩
    cases hverdict : p.verdict with
    | stray => exact absurd ⟨p, hp, hverdict⟩ h
    | _ => simp [hverdict]

end AdviceWeaving
