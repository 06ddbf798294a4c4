import AdviceWeaving.Proofs.Scanned
import AdviceWeaving.Proofs.Spans

/-!
# Line breaks

A token ends at a line break, but for a string literal, which may hold line breaks and ends at its closing quote; and a
comment ends there too.  So in a text without stray parts nothing goes on behind its end if a line break follows
(`pieces_append_newline`), and the lines of a text are read one by one (`lex_line_append`).
-/

namespace AdviceWeaving

variable {c : Char} {cs rest : List Char}

/-! ### Lexemes in front of a line break -/

private theorem breaksOff_newline (rest : List Char) : breaksOff ('\n' :: rest) := rfl

/-- A name does not go on in a text that breaks it off. -/
private theorem pathLength_append_of_breaksOff (h : breaksOff rest) : pathLength (cs ++ rest) = pathLength cs := by
  fun_induction pathLength cs with
  | case1 c cs hc ih => rw [List.cons_append, List.cons_append, pathLength_dot hc, ih]
  | case2 c cs hc => rw [List.cons_append, List.cons_append, pathLength, if_neg hc]
  | case3 c cs _ hc ih => rw [List.cons_append, pathLength_cons hc, ih]
  | case4 c cs hdot hc =>
    by_cases hlast : c = '.' ∧ cs = []
    · -- a dot at the end, which would go on if a segment followed
      obtain ⟨rfl, rfl⟩ := hlast
      cases rest with
      | nil => rfl
      | cons d rest =>
        have hd : isNameStart d = false := by
          simp only [breaksOff, isNameChar, Char.isAlphanum, Bool.and_eq_true, Bool.not_eq_true',
            Bool.or_eq_false_iff] at h
          simp [isNameStart, h.1.1.1, h.1.2]
        rw [List.singleton_append, pathLength, hd, if_neg Bool.false_ne_true]
    · rw [List.cons_append, pathLength, if_neg hc]
      rintro d ds rfl hds
      cases cs with
      | nil => exact hlast ⟨rfl, rfl⟩
      | cons e es => exact hdot e es rfl rfl
  | case5 => exact pathLength_of_breaksOff h

private theorem pathLength_le (cs : List Char) : pathLength cs ≤ cs.length := by
  fun_induction pathLength cs <;> simp only [List.length_cons, List.length_nil] <;> omega

private theorem runLength_le (p : Char → Bool) (cs : List Char) : runLength p cs ≤ cs.length :=
  (List.takeWhile_sublist p).length_le

/-- A run ends at a character without the property. -/
private theorem runLength_append_cons {p : Char → Bool} (hc : p c = false) :
    runLength p (cs ++ c :: rest) = runLength p cs := by
  rw [runLength, runLength, List.takeWhile_append]
  split
  next hall => simp [hc, hall]
  · rfl

/-- A literal that is closed has its closing quote, and does not go on behind it. -/
private theorem literalLength_of_closed (h : (literalLength cs).2 = true) :
    (literalLength cs).1 < cs.length ∧ literalLength (cs ++ rest) = literalLength cs := by
  fun_induction literalLength cs with
  | case1 => exact ⟨Nat.zero_lt_succ _, rfl⟩
  | case3 c cs hc n closed heq ih =>
    obtain ⟨hlt, happend⟩ := ih (by rwa [heq])
    rw [heq] at hlt happend
    refine ⟨by simp only [List.length_cons]; omega, ?_⟩
    rw [List.cons_append, List.cons_append, literalLength, happend]
    exact hc
  | case5 c cs hquote hbreak hescape hlast n closed heq ih =>
    obtain ⟨hlt, happend⟩ := ih (by rwa [heq])
    rw [heq] at hlt happend
    have hslash : c ≠ '\\' := by
      rintro rfl
      cases cs with
      | nil => exact hlast rfl rfl
      | cons d cs => exact hescape d cs rfl rfl
    refine ⟨by simp only [List.length_cons]; omega, ?_⟩
    rw [List.cons_append, literalLength, happend]
    all_goals simp_all
  | case2 | case4 | case6 => cases h

/-- The words that start with a dot end in front of a line break. -/
private theorem isPrefixOf_append_newline {word : List Char} (hword : '\n' ∉ word) :
    word.isPrefixOf (cs ++ '\n' :: rest) = word.isPrefixOf cs := by
  induction word generalizing cs with
  | nil => rfl
  | cons c word ih =>
    obtain ⟨hc, hword⟩ := List.ne_and_not_mem_of_not_mem_cons hword
    cases cs with
    | nil => simp [List.isPrefixOf, Ne.symm hc]
    | cons d cs => simp [List.isPrefixOf, ih hword]

private theorem nameVerdict_append_newline (name : String) :
    nameVerdict name (cs ++ '\n' :: rest).head? = nameVerdict name cs.head? := by
  cases cs with
  | nil => simp [nameVerdict]
  | cons d ds => rfl

private theorem firstPiece_quote (cs : List Char) :
    firstPiece '"' cs = match literalLength cs with
      | (n, true) => (.ofValue? ((unescape? (cs.take n)).map (.string <| String.ofList ·)), n + 1)
      | (n, false) => (.stray, n) := rfl

private theorem find?_dottedWords_append_newline (cs rest : List Char) :
    dottedWords.find? (fun (word, _) => word.toList.isPrefixOf (cs ++ '\n' :: rest)) =
      dottedWords.find? (fun (word, _) => word.toList.isPrefixOf cs) := by
  simp (disch := decide) only [dottedWords, List.find?_cons, List.find?_nil, isPrefixOf_append_newline]

/-- What a text starts with, if it is not stray, lies in the text, and does not go on behind a line break. -/
private theorem firstPiece_append_newline (rest : List Char) (h : (firstPiece c cs).1 ≠ .stray) :
    (firstPiece c cs).2 ≤ cs.length ∧ firstPiece c (cs ++ '\n' :: rest) = firstPiece c cs := by
  revert h
  fun_cases firstPiece c cs with
  | case6 cs n hopen =>
    rw [hopen]
    exact fun h => absurd rfl h
  | case9 | case22 => exact fun h => absurd rfl h
  | case21 cs hfind =>
    rw [hfind]
    exact fun h => absurd rfl h
  | case1 c cs hblank => exact fun _ => ⟨Nat.zero_le _, by simp only [firstPiece, hblank, if_true]⟩
  | case2 c cs hblank hname n =>
    have hlength : pathLength (cs ++ '\n' :: rest) = pathLength cs :=
      pathLength_append_of_breaksOff (breaksOff_newline rest)
    have hle : n ≤ cs.length := pathLength_le cs
    refine fun _ => ⟨hle, ?_⟩
    simp only [firstPiece, hblank, hname, Bool.false_eq_true, if_true, if_false, hlength]
    rw [List.take_append_of_le_length hle, List.drop_append_of_le_length hle, nameVerdict_append_newline]
  | case3 c cs hblank hname hdigit n =>
    have hlength : runLength Char.isDigit (cs ++ '\n' :: rest) = runLength Char.isDigit cs := runLength_append_cons rfl
    have hle : n ≤ cs.length := runLength_le Char.isDigit cs
    refine fun _ => ⟨hle, ?_⟩
    simp only [firstPiece, hblank, hname, hdigit, Bool.false_eq_true, if_true, if_false, hlength]
    rw [List.take_append_of_le_length hle]
  | case4 words =>
    have hlength : runLength (· ≠ '\n') (words ++ '\n' :: rest) = runLength (· ≠ '\n') words :=
      runLength_append_cons rfl
    have hle := runLength_le (· ≠ '\n') words
    exact fun _ => ⟨by simp only [List.length_cons]; omega, congrArg (fun n => (Verdict.blank, 1 + n)) hlength⟩
  | case5 cs n hclosed =>
    obtain ⟨hlt, happend⟩ : _ ∧ literalLength (cs ++ '\n' :: rest) = literalLength cs :=
      literalLength_of_closed (congrArg Prod.snd hclosed)
    rw [hclosed] at hlt happend
    rw [firstPiece_quote, hclosed, happend]
    refine fun _ => ⟨hlt, ?_⟩
    simp only [List.take_append_of_le_length (Nat.le_of_lt hlt)]
  | case7 | case10 => exact fun _ => ⟨by simp, rfl⟩
  | case8 d ds harrow hdigit n =>
    have hlength : runLength Char.isDigit (ds ++ '\n' :: rest) = runLength Char.isDigit ds := runLength_append_cons rfl
    have hle : n ≤ ds.length := runLength_le Char.isDigit ds
    refine fun _ => ⟨by simp only [List.length_cons]; omega, ?_⟩
    rw [List.cons_append, firstPiece, if_neg (by decide), if_neg (by decide), if_neg (by decide)]
    · simp only [hdigit, if_true, hlength]
      rw [List.take_append_of_le_length hle]
    · exact harrow
  | case11 cs hcolon =>
    refine fun _ => ⟨Nat.zero_le _, ?_⟩
    rw [firstPiece, if_neg (by decide), if_neg (by decide), if_neg (by decide)]
    cases cs with
    | nil => simp
    | cons d ds => simpa using hcolon
  | case20 cs word token hfind =>
    rw [hfind]
    have hword : word.toList <+: cs := by simpa using List.find?_some hfind
    have hle : word.length ≤ cs.length := String.length_toList (s := word) ▸ hword.length_le
    refine fun _ => ⟨hle, ?_⟩
    rw [firstPiece, if_neg (by decide), if_neg (by decide), if_neg (by decide), find?_dottedWords_append_newline, hfind]
  | _ => exact fun _ => ⟨Nat.zero_le _, rfl⟩

/-- A text without stray parts is cut in front of a line break as it is alone. -/
theorem pieces_append_newline (h : ∀ p ∈ pieces cs, p.verdict ≠ .stray) (rest : List Char) :
    pieces (cs ++ '\n' :: rest) = pieces cs ++ pieces ('\n' :: rest) := by
  fun_induction pieces cs with
  | case1 => rfl
  | case2 c cs verdict n hpiece ih =>
    rw [List.forall_mem_cons] at h
    have hstray : (firstPiece c cs).1 ≠ .stray := by
      rw [hpiece]
      exact h.1
    obtain ⟨hle, hfirst⟩ := firstPiece_append_newline rest hstray
    rw [hpiece] at hle hfirst
    rw [List.cons_append, pieces, hfirst, List.cons_append, ← ih h.2]
    simp only [List.take_append_of_le_length hle, List.drop_append_of_le_length hle]

/-- A text without stray parts, a line break and any other text give the tokens of the first and then what the other
gives alone, which stands behind the line break. -/
theorem lex_line_append (a b : String) (h : (lex a).strays = []) :
    lex (a ++ "\n" ++ b) =
      ⟨(lex a).tokens ++ (lex b).tokens.map (·.shift (a.utf8ByteSize + 1)),
        (lex b).strays.map (·.shift (a.utf8ByteSize + 1))⟩ := by
  have hclean : ∀ p ∈ pieces a.toList, p.verdict ≠ .stray := by
    intro p hp hstray
    refine (strays_lex_eq_nil_iff a).1 h ?_
    simpa [verdicts] using ⟨p, hp, hstray⟩
  have hbreak (rest : List Char) : pieces ('\n' :: rest) = ⟨['\n'], .blank⟩ :: pieces rest := by
    rw [pieces]
    rfl
  -- the line break is a piece of its own, alone or not
  have hline : pieces (a ++ "\n").toList = pieces a.toList ++ pieces "\n".toList := by
    rw [String.toList_append]
    exact pieces_append_newline hclean []
  have hboth : pieces (a ++ "\n" ++ b).toList = pieces (a ++ "\n").toList ++ pieces b.toList := by
    rw [hline, String.toList_append, String.toList_append, List.append_assoc]
    show pieces (a.toList ++ '\n' :: b.toList) = _ ++ pieces ['\n'] ++ _
    rw [pieces_append_newline hclean, hbreak, hbreak, pieces, List.append_assoc]
    rfl
  have hempty : lex "\n" = ⟨[], []⟩ := by decide +kernel
  have hfront : (lex (a ++ "\n")).tokens = (lex a).tokens := by
    rw [(lex_append hline).1, hempty, List.map_nil, List.append_nil]
  have hstrays : (lex (a ++ "\n")).strays = [] := by
    rw [(lex_append hline).2, hempty, h, List.map_nil, List.append_nil]
  have hsize : (a ++ "\n").utf8ByteSize = a.utf8ByteSize + 1 := String.utf8ByteSize_append
  obtain ⟨htokens, hrest⟩ := lex_append hboth
  rw [hfront, hsize] at htokens
  rw [hstrays, hsize, List.nil_append] at hrest
  show Lexed.mk (lex (a ++ "\n" ++ b)).tokens (lex (a ++ "\n" ++ b)).strays = _
  rw [htokens, hrest]

/-- A text that ends in a comment, in front of one with a stray character. -/
theorem lex_line_append_comment :
    (lex "ret // done").strays = [] ∧
      lex ("ret // done" ++ "\n" ++ "é $") =
        ⟨[⟨.path "ret", ⟨0, 3⟩⟩], [⟨['é'], ⟨12, 14⟩⟩, ⟨['$'], ⟨15, 16⟩⟩]⟩ := by
  have h : (lex "ret // done").strays = [] := by decide +kernel
  refine ⟨h, ?_⟩
  rw [lex_line_append _ _ h]
  decide +kernel

end AdviceWeaving
