import AdviceWeaving.Text.Lexer
import AdviceWeaving.Text.Printer

/-!
# Texts and their tokens

A text is cut into tokens at each place by the longest one.  So the tokens of two texts, one behind
the other, are those of both, unless the second goes on with the last name or number of the first.
`Lexes` says that a text gives certain tokens wherever no name is gone on with, and `Closed` that it
does so anywhere; texts are put together with `Lexes.append` and `Closed.append`.  Names, integers and
string literals give back what is spelled (`lexes_name`, `lexes_int`, `closed_escapeLiteral`).
-/

namespace AdviceWeaving

/-! ### Tokens and stray text, in order -/

/-- What a text holds besides blanks: tokens, and stray text. -/
def verdicts (cs : List Char) : List Verdict :=
  ((pieces cs).map (·.verdict)).filter (· ≠ .blank)

theorem verdicts_nil : verdicts [] = [] := by
  rw [verdicts, pieces]
  rfl

theorem verdicts_cons {c : Char} {cs : List Char} {verdict : Verdict} {n : Nat}
    (h : firstPiece c cs = (verdict, n)) :
    verdicts (c :: cs) = (if verdict = .blank then [] else [verdict]) ++ verdicts (cs.drop n) := by
  rw [verdicts, pieces, h, List.map_cons, List.filter_cons]
  by_cases hblank : verdict = .blank <;> simp [hblank, verdicts]

/-- A text that does not go on with a name or a number in front of it. -/
def breaksOff : List Char → Bool
  | [] => true
  | c :: _ => !isNameChar c && c ≠ '.'

/-- The text gives the tokens, whatever follows. -/
def Closed (text : String) (ts : List Token) : Prop :=
  ∀ rest, verdicts (text.toList ++ rest) = ts.map .token ++ verdicts rest

/-- The text gives the tokens, unless its last name or number goes on. -/
def Lexes (text : String) (ts : List Token) : Prop :=
  ∀ rest, breaksOff rest → verdicts (text.toList ++ rest) = ts.map .token ++ verdicts rest

/-- A text that is not empty, and does not go on with a name or a number in front of it. -/
def separates (text : String) : Bool :=
  text.toList ≠ [] && breaksOff text.toList

section

variable {a b : String} {ts us : List Token}

theorem closed_empty : Closed "" [] := fun _ => rfl

theorem Closed.lexes (h : Closed a ts) : Lexes a ts := fun rest _ => h rest

theorem Closed.append (ha : Closed a ts) (hb : Closed b us) : Closed (a ++ b) (ts ++ us) := by
  intro rest
  rw [String.toList_append, List.append_assoc, ha, hb, List.map_append, List.append_assoc]

theorem Closed.append_lexes (ha : Closed a ts) (hb : Lexes b us) : Lexes (a ++ b) (ts ++ us) := by
  intro rest hrest
  rw [String.toList_append, List.append_assoc, ha, hb rest hrest, List.map_append, List.append_assoc]

private theorem breaksOff_append (h : separates b) (rest : List Char) : breaksOff (b.toList ++ rest) := by
  obtain ⟨hne, hbreak⟩ := Bool.and_eq_true_iff.1 h
  cases hb : b.toList with
  | nil => exact absurd hb (of_decide_eq_true hne)
  | cons c cs => rwa [hb] at hbreak

theorem separates_append (h : separates a) : separates (a ++ b) := by
  have hbreak := breaksOff_append h b.toList
  obtain ⟨hne, -⟩ := Bool.and_eq_true_iff.1 h
  simp_all [separates]

theorem Lexes.append (ha : Lexes a ts) (hb : Lexes b us) (h : separates b) :
    Lexes (a ++ b) (ts ++ us) := by
  intro rest hrest
  rw [String.toList_append, List.append_assoc, ha _ (breaksOff_append h rest), hb rest hrest,
    List.map_append, List.append_assoc]

theorem Lexes.append_closed (ha : Lexes a ts) (hb : Closed b us) (h : separates b) :
    Closed (a ++ b) (ts ++ us) := by
  intro rest
  rw [String.toList_append, List.append_assoc, ha _ (breaksOff_append h rest), hb, List.map_append,
    List.append_assoc]

/-- A text that is one token whatever follows. -/
private theorem closed_token {c : Char} {cs : List Char} {t : Token} (hlist : a.toList = c :: cs)
    (h : ∀ rest, firstPiece c (cs ++ rest) = (.token t, cs.length)) : Closed a [t] := by
  intro rest
  rw [hlist, List.cons_append, verdicts_cons (h rest), List.drop_left, if_neg (by simp)]
  rfl

/-- A text that is blank whatever follows. -/
private theorem closed_blank {c : Char} {cs : List Char} (hlist : a.toList = c :: cs)
    (h : ∀ rest, firstPiece c (cs ++ rest) = (.blank, cs.length)) : Closed a [] := by
  intro rest
  rw [hlist, List.cons_append, verdicts_cons (h rest), List.drop_left, if_pos rfl]
  rfl

end

/-! ### Blanks and punctuation -/

theorem closed_space : Closed " " [] := closed_blank rfl fun _ => rfl

theorem closed_newline : Closed "\n" [] := closed_blank rfl fun _ => rfl

/-- A colon is no double colon if a space follows. -/
theorem closed_colon : Closed ": " [.mark .colon] := by
  intro rest
  change verdicts (':' :: ' ' :: rest) = _
  rw [verdicts_cons (show firstPiece ':' (' ' :: rest) = (.token (.mark .colon), 0) from rfl)]
  exact congrArg (_ :: ·) (closed_space rest)

/-- Every mark but the colon is one whatever follows. -/
theorem closed_mark {m : Mark} (h : m ≠ .colon) : Closed m.text [.mark m] := by
  cases m with
  | colon => exact absurd rfl h
  | doubleColon | arrow => exact closed_token rfl fun _ => rfl
  | _ => exact closed_token rfl fun _ => rfl

theorem closed_directive (word : Directive) : Closed word.text [.directive word] := by
  cases word <;> exact closed_token rfl fun _ => rfl

theorem closed_ctorName (name : CtorName) : Closed name.text [.ctor name] := by
  cases name <;> exact closed_token rfl fun _ => rfl

/-! ### Names -/

/-- The characters are segments of a dotted name, or the rest of one if none `starts` here. -/
def isDottedFrom (starts : Bool) : List Char → Bool
  | [] => !starts
  | c :: cs =>
    if starts then isNameStart c && isDottedFrom false cs
    else if c = '.' then isDottedFrom true cs
    else isNameChar c && isDottedFrom false cs

/-- The text is an identifier, or several with a dot between them. -/
def isDotted (name : String) : Bool :=
  isDottedFrom true name.toList

/-- The text is a dotted identifier, but no reserved word. -/
def isName (name : String) : Bool :=
  isDotted name && (Keyword.ofText? name).isNone

theorem ne_dot_of_isNameChar {c : Char} (h : isNameChar c) : c ≠ '.' := by
  rintro rfl
  cases h

private theorem isBlank_of_isNameStart {c : Char} (h : isNameStart c) : isBlank c = false := by
  rw [Bool.eq_false_iff]
  intro hblank
  simp only [isBlank, Bool.or_eq_true, decide_eq_true_eq] at hblank
  obtain ((rfl | rfl) | rfl) | rfl := hblank <;> cases h

theorem pathLength_cons {c : Char} (h : isNameChar c) (cs : List Char) :
    pathLength (c :: cs) = 1 + pathLength cs := by
  rw [pathLength, if_pos h]
  rintro c rest rfl
  exact absurd rfl (ne_dot_of_isNameChar h)

theorem pathLength_dot {c : Char} (h : isNameStart c) (cs : List Char) :
    pathLength ('.' :: c :: cs) = 2 + pathLength cs := by
  rw [pathLength, if_pos h]

theorem pathLength_of_breaksOff {rest : List Char} (h : breaksOff rest) : pathLength rest = 0 := by
  cases rest with
  | nil => rfl
  | cons c cs =>
    simp only [breaksOff, Bool.and_eq_true, Bool.not_eq_true', decide_eq_true_eq] at h
    rw [pathLength, h.1, if_neg Bool.false_ne_true]
    rintro d rest rfl
    exact absurd rfl h.2

/-- A dotted name is one path, as far as it goes. -/
private theorem pathLength_append {cs rest : List Char} (hrest : breaksOff rest) :
    (isDottedFrom false cs → pathLength (cs ++ rest) = cs.length) ∧
    (isDottedFrom true cs → pathLength ('.' :: cs ++ rest) = cs.length + 1) := by
  induction cs with
  | nil => exact ⟨fun _ => pathLength_of_breaksOff hrest, fun h => by cases h⟩
  | cons c cs ih =>
    constructor
    · intro h
      by_cases hdot : c = '.'
      · subst hdot
        exact ih.2 h
      · have h : isNameChar c ∧ isDottedFrom false cs := by simpa [isDottedFrom, hdot] using h
        rw [List.cons_append, pathLength_cons h.1, ih.1 h.2, List.length_cons, Nat.add_comm]
    · intro h
      have h : isNameStart c ∧ isDottedFrom false cs := by simpa [isDottedFrom] using h
      rw [List.cons_append, List.cons_append, pathLength_dot h.1, ih.1 h.2, List.length_cons]
      omega

private theorem Keyword.text_of_ofText? {name : String} {word : Keyword} (h : ofText? name = some word) :
    name = word.text := by
  rw [ofText?] at h
  have htext : word.text = name := by simpa using List.find?_some h
  exact htext.symm

/-- What a dotted name reads as. -/
def nameToken (name : String) : Token :=
  (Keyword.ofText? name).elim (.path name) .keyword

private theorem firstPiece_name {c : Char} {cs rest : List Char} (hc : isNameStart c)
    (hcs : isDottedFrom false cs) (hrest : breaksOff rest) :
    firstPiece c (cs ++ rest) = (.token (nameToken (String.ofList (c :: cs))), cs.length) := by
  have hlength := (pathLength_append hrest).1 hcs
  have hnext : rest.head? ≠ some '.' := by
    cases rest with
    | nil => simp
    | cons d rest =>
      simp only [breaksOff, Bool.and_eq_true, decide_eq_true_eq] at hrest
      simpa using hrest.2
  simp only [firstPiece, isBlank_of_isNameStart hc, hc, Bool.false_eq_true, if_true, if_false, hlength, List.take_left,
    List.drop_left, nameVerdict, nameToken]
  cases Keyword.ofText? (String.ofList (c :: cs)) with
  | none => rfl
  | some word => simp [hnext]

private theorem lexes_dotted {name : String} (h : isDotted name) : Lexes name [nameToken name] := by
  rw [isDotted] at h
  cases hname : name.toList with
  | nil => rw [hname] at h; cases h
  | cons c cs =>
    rw [hname] at h
    have h : isNameStart c ∧ isDottedFrom false cs := by simpa [isDottedFrom] using h
    intro rest hrest
    rw [hname, List.cons_append, verdicts_cons (firstPiece_name h.1 h.2 hrest), List.drop_left,
      if_neg (by simp), ← hname, String.ofList_toList]
    rfl

theorem lexes_name {name : String} (h : isName name) : Lexes name [.path name] := by
  simp only [isName, Bool.and_eq_true, Option.isNone_iff_eq_none] at h
  simpa [nameToken, h.2] using lexes_dotted h.1

theorem lexes_keyword (word : Keyword) : Lexes word.text [.keyword word] := by
  cases word <;> exact lexes_dotted (by decide)

/-! ### Integers -/

private theorem runLength_append {p : Char → Bool} {cs rest : List Char} (hcs : ∀ c ∈ cs, p c)
    (hrest : ∀ c ∈ rest.head?, p c = false) : runLength p (cs ++ rest) = cs.length := by
  rw [runLength, List.takeWhile_append_of_pos hcs]
  cases rest with
  | nil => simp
  | cons c rest => simp [hrest c rfl]

private theorem isDigit_head_of_breaksOff {rest : List Char} (h : breaksOff rest) :
    ∀ c ∈ rest.head?, c.isDigit = false := by
  intro c hc
  cases rest with
  | nil => cases hc
  | cons d rest =>
    obtain rfl : d = c := by simpa using hc
    simp only [breaksOff, isNameChar, Char.isAlphanum, Bool.and_eq_true, Bool.not_eq_true',
      Bool.or_eq_false_iff] at h
    exact h.1.1.2

private theorem firstPiece_digits {c : Char} {cs rest : List Char} (hc : c.isDigit)
    (hcs : ∀ d ∈ cs, d.isDigit) (hrest : breaksOff rest) :
    firstPiece c (cs ++ rest) = (intVerdict false (c :: cs), cs.length) := by
  have hlength := runLength_append hcs (isDigit_head_of_breaksOff hrest)
  have hblank : isBlank c = false := by
    rw [Bool.eq_false_iff]
    intro h
    simp only [isBlank, Bool.or_eq_true, decide_eq_true_eq] at h
    obtain ((rfl | rfl) | rfl) | rfl := h <;> cases hc
  have hname : isNameStart c = false := by
    rw [Bool.eq_false_iff]
    intro h
    obtain h | h := Bool.or_eq_true_iff.1 h
    · have hletter : (decide (65 ≤ c.val ∧ c.val ≤ 90) || (decide (97 ≤ c.val) && decide (c.val ≤ 122))) =
          true := h
      have hdigit : (decide (48 ≤ c.val) && decide (c.val ≤ 57)) = true := hc
      grind
    · rw [of_decide_eq_true h] at hc
      cases hc
  simp only [firstPiece, hblank, hname, hc, Bool.false_eq_true, if_true, if_false, hlength,
    List.take_left]

private theorem firstPiece_minus {d : Char} {cs rest : List Char} (hd : d.isDigit)
    (hcs : ∀ d ∈ cs, d.isDigit) (hrest : breaksOff rest) :
    firstPiece '-' (d :: cs ++ rest) = (intVerdict true (d :: cs), cs.length + 1) := by
  have hlength := runLength_append hcs (isDigit_head_of_breaksOff hrest)
  have hne : d ≠ '>' := by
    rintro rfl
    cases hd
  rw [List.cons_append, firstPiece, if_neg (by decide), if_neg (by decide), if_neg (by decide)]
  · simp only [hd, if_true, hlength, List.take_left, Nat.add_comm]
  · exact hne

private theorem intVerdict_toDigits (negative : Bool) (n : Nat) :
    intVerdict negative (Nat.toDigits 10 n) =
      .ofValue? ((toInt64? (if negative then -(n : Int) else n)).map .int) := by
  have h : decimalValue (Nat.toDigits 10 n) = n := Nat.ofDigitChars_ten_toDigits
  simp only [intVerdict, h]

private theorem toInt64?_toInt (value : Int64) : toInt64? value.toInt = some value := by
  rw [toInt64?, if_pos ⟨value.le_toInt, Int.le_of_lt_add_one value.toInt_lt⟩, Int64.ofInt_toInt]

/-- A number that is spelled in decimal, in front of a text that breaks it off. -/
theorem lexes_digits {n : Nat} {value : Int64} (h : value.toInt = n) :
    Lexes n.repr [.int value] := by
  intro rest hrest
  have hdigits : ∀ c ∈ Nat.toDigits 10 n, c.isDigit := fun c =>
    Nat.isDigit_of_mem_toDigits (by decide) (by decide)
  have hvalue := intVerdict_toDigits false n
  obtain ⟨c, cs, hn⟩ := List.exists_cons_of_ne_nil (Nat.toDigits_ne_nil (n := n) (b := 10))
  rw [Nat.toList_repr]
  rw [hn] at hdigits hvalue ⊢
  rw [List.cons_append, verdicts_cons (firstPiece_digits (hdigits c (by simp))
    (fun d hd => hdigits d (by simp [hd])) hrest), hvalue, List.drop_left]
  simp [← h, toInt64?_toInt, Verdict.ofValue?]

private theorem lexes_minus {n : Nat} {value : Int64} (h : value.toInt = -(n : Int)) :
    Lexes ("-" ++ n.repr) [.int value] := by
  intro rest hrest
  have hdigits : ∀ c ∈ Nat.toDigits 10 n, c.isDigit := fun c =>
    Nat.isDigit_of_mem_toDigits (by decide) (by decide)
  have hvalue := intVerdict_toDigits true n
  obtain ⟨c, cs, hn⟩ := List.exists_cons_of_ne_nil (Nat.toDigits_ne_nil (n := n) (b := 10))
  rw [String.toList_append, Nat.toList_repr]
  rw [hn] at hdigits hvalue ⊢
  change verdicts ('-' :: (c :: cs ++ rest)) = _
  rw [verdicts_cons (firstPiece_minus (hdigits c (by simp))
    (fun d hd => hdigits d (by simp [hd])) hrest), hvalue]
  simp [← h, toInt64?_toInt, Verdict.ofValue?]

theorem lexes_int (value : Int64) : Lexes (toString value.toInt) [.int value] := by
  rw [Int.toString_eq_repr, Int.repr_eq_if]
  split
  · exact lexes_digits (by omega)
  · exact lexes_minus (by omega)

/-! ### String literals -/

private theorem literalLength_escapeChar (c : Char) (cs : List Char) :
    literalLength (escapeChar c ++ cs) =
      ((escapeChar c).length + (literalLength cs).1, (literalLength cs).2) := by
  fun_cases escapeChar c with
  | case5 _ hquote hslash _ _ =>
    rw [List.singleton_append, literalLength]
    · rfl
    all_goals simp_all
  | _ => rfl

private theorem unescape?_escapeChar (c : Char) (cs : List Char) :
    unescape? (escapeChar c ++ cs) = (unescape? cs).map (c :: ·) := by
  fun_cases escapeChar c with
  | case5 _ hquote hslash _ _ =>
    rw [List.singleton_append, unescape?]
    all_goals simp_all
  | _ => rfl

private theorem literalLength_escaped (text rest : List Char) :
    literalLength (text.flatMap escapeChar ++ '"' :: rest) =
      ((text.flatMap escapeChar).length, true) := by
  induction text with
  | nil => rfl
  | cons c text ih =>
    rw [List.flatMap_cons, List.append_assoc, literalLength_escapeChar, ih, List.length_append]

private theorem unescape?_escaped (text : List Char) : unescape? (text.flatMap escapeChar) = some text := by
  induction text with
  | nil => rfl
  | cons c text ih => rw [List.flatMap_cons, unescape?_escapeChar, ih, Option.map_some]

theorem firstPiece_literal (text rest : List Char) :
    firstPiece '"' (text.flatMap escapeChar ++ '"' :: rest) =
      (.token (.string (String.ofList text)), (text.flatMap escapeChar).length + 1) := by
  have hname : isNameStart '"' = false := rfl
  have hdigit : '"'.isDigit = false := rfl
  simp [firstPiece, isBlank, hname, hdigit, literalLength_escaped, unescape?_escaped,
    Verdict.ofValue?]

theorem closed_escapeLiteral (text : String) :
    Closed (escapeLiteral text) [.string text] := by
  have hlist : (escapeLiteral text).toList = '"' :: (text.toList.flatMap escapeChar ++ ['"']) :=
    String.toList_ofList
  refine closed_token hlist fun rest => ?_
  rw [List.append_assoc, List.singleton_append, firstPiece_literal, String.ofList_toList, List.length_append]
  rfl

/-! ### Labels -/

/-- The value of a digit of a hexadecimal number. -/
def hexDigitValue (c : Char) : Nat :=
  if c.isDigit then c.toNat - '0'.toNat else c.toNat - 'a'.toNat + 10

/-- The value of a run of hexadecimal digits. -/
def hexValue (cs : List Char) : Nat :=
  cs.foldl (fun n c => 16 * n + hexDigitValue c) 0

private theorem hexDigitValue_digitChar {n : Nat} (h : n < 16) : hexDigitValue n.digitChar = n := by
  revert n
  decide

private theorem hexValue_toDigits (n : Nat) : hexValue (Nat.toDigits 16 n) = n := by
  induction n using Nat.base_induction 16 (by decide) with
  | single m h => simpa [hexValue, Nat.toDigits_of_lt_base h] using hexDigitValue_digitChar h
  | digit m k hk hm ih =>
    rw [← Nat.toDigits_append_toDigits (by decide) hm hk, hexValue, List.foldl_append, ← hexValue, ih,
      Nat.toDigits_of_lt_base hk]
    simp [hexDigitValue_digitChar hk]

private theorem hexValue_hexDigits (n : Nat) : hexValue (hexDigits n) = n := by
  have hzeros (k : Nat) :
      (List.replicate k '0').foldl (fun n c => 16 * n + hexDigitValue c) 0 = 0 := by
    induction k with
    | zero => rfl
    | succ k ih => exact ih
  rw [hexDigits, hexValue, List.foldl_append, hzeros]
  exact hexValue_toDigits n

theorem label_injective {i j : Nat} (h : label i = label j) : i = j := by
  have h : hexDigits i = hexDigits j := String.ofList_injective (by simpa [label] using h)
  rw [← hexValue_hexDigits i, h, hexValue_hexDigits]

private theorem isNameChar_hexDigits {n : Nat} {c : Char} (h : c ∈ hexDigits n) : isNameChar c := by
  have hdigit {m : Nat} (hm : m < 16) : isNameChar m.digitChar := by
    revert m
    decide
  have hdigits : ∀ c ∈ Nat.toDigits 16 n, isNameChar c := by
    clear h
    induction n using Nat.base_induction 16 (by decide) with
    | single m hm => simpa [Nat.toDigits_of_lt_base hm] using hdigit hm
    | digit m k hk hm ih =>
      rw [← Nat.toDigits_append_toDigits (by decide) hm hk, Nat.toDigits_of_lt_base hk]
      intro c hc
      obtain hc | hc := List.mem_append.1 hc
      · exact ih c hc
      · rw [List.mem_singleton.1 hc]
        exact hdigit hk
  obtain hc | hc := List.mem_append.1 h
  · rw [List.eq_of_mem_replicate hc]
    rfl
  · exact hdigits c hc

private theorem isDottedFrom_of_isNameChar {cs : List Char} (h : ∀ c ∈ cs, isNameChar c) :
    isDottedFrom false cs := by
  induction cs with
  | nil => rfl
  | cons c cs ih =>
    have hc := h c (by simp)
    simpa [isDottedFrom, ne_dot_of_isNameChar hc, hc] using ih fun d hd => h d (by simp [hd])

theorem isName_label (n : Nat) : isName (label n) := by
  have hlist : (label n).toList = 'I' :: 'L' :: '_' :: hexDigits n := by simp [label]
  have hdotted : isDotted (label n) := by
    rw [isDotted, hlist]
    have hchars : ∀ c ∈ 'L' :: '_' :: hexDigits n, isNameChar c := by
      intro c hc
      simp only [List.mem_cons] at hc
      obtain rfl | rfl | hc := hc
      · rfl
      · rfl
      · exact isNameChar_hexDigits hc
    exact isDottedFrom_of_isNameChar hchars
  have hword : Keyword.ofText? (label n) = none := by
    cases hword : Keyword.ofText? (label n) with
    | none => rfl
    | some word =>
      rw [Keyword.text_of_ofText? hword] at hlist
      cases word <;> cases hlist
  rw [isName, hdotted, hword]
  rfl

end AdviceWeaving
