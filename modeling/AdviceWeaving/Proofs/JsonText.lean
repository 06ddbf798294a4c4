import AdviceWeaving.Json.Basic
import AdviceWeaving.Json.Decoder

/-!
# JSON text and back

`Json.reading` is what the text of a value is read as: strings part by part, numbers digit by digit.  A value is read
from its text, whatever stands behind it, unless that goes on a number (`Json.value_chunks`); so it is from a whole
text (`Json.ofText_text`), in every layout that sets its parts apart by blanks.
-/

namespace AdviceWeaving

namespace Json

/-! ### Strings -/

/-- A character as a part of a string that is read.  One that is escaped by its number is a unit. -/
def letter (c : Char) : Letter :=
  match escapeChar c with
  | '\\' :: 'u' :: _ => .unit c.toNat
  | _ => .char c

/-- A string as it is written. -/
def quoted (text : String) : Quoted :=
  ⟨text.toList.map letter, none⟩

private theorem hexUnit?_hexDigit {n : Nat} (h : n < 32) :
    Reading.hexUnit? '0' '0' (hexDigit (n / 16)) (hexDigit (n % 16)) = some n := by
  revert n
  decide

private theorem quoted_escapeChar (c : Char) (cs : List Char) :
    Reading.quoted (escapeChar c ++ cs) =
      ({ (Reading.quoted cs).1 with letters := letter c :: (Reading.quoted cs).1.letters },
        (Reading.quoted cs).2) := by
  unfold letter
  fun_cases escapeChar c with
  | case8 c hquote hslash _ _ _ _ _ hcontrol =>
    simp only [List.cons_append, List.nil_append, Reading.quoted, hexUnit?_hexDigit hcontrol]
  | case9 c hquote hslash _ _ _ _ _ hcontrol =>
    rw [List.singleton_append, Reading.quoted]
    · simp [hcontrol]
    all_goals simp_all
  | _ => rfl

/-- A string is read up to its closing quote. -/
private theorem quoted_escaped (cs rest : List Char) :
    Reading.quoted (cs.flatMap escapeChar ++ '"' :: rest) = (⟨cs.map letter, none⟩, some rest) := by
  induction cs with
  | nil => simp [Reading.quoted]
  | cons c cs ih =>
    rw [List.flatMap_cons, List.append_assoc, quoted_escapeChar, ih]
    rfl

/-- A unit that is no half of a pair is a character by itself. -/
private theorem chars_unit {unit : Nat} (h : unit < 0xD800) (letters : List Letter) :
    Quoted.chars none (.unit unit :: letters) =
      (Quoted.chars none letters).map (Char.ofNat unit :: ·) := by
  have hhigh : ¬ (0xD800 ≤ unit ∧ unit < 0xDC00) := by omega
  have hlow : ¬ (0xDC00 ≤ unit ∧ unit < 0xE000) := by omega
  have hpair : ¬ (0xD800 ≤ unit ∧ unit < 0xE000) := by omega
  cases letters with
  | nil => simp only [Quoted.chars, if_neg hhigh, if_neg hlow]; rfl
  | cons next letters =>
    cases next with
    | char c => simp only [Quoted.chars, if_neg hpair]
    | unit low => rw [Quoted.chars, if_neg hhigh, if_neg hlow]

private theorem chars_letter (c : Char) (letters : List Letter) :
    Quoted.chars none (letter c :: letters) = (Quoted.chars none letters).map (c :: ·) := by
  unfold letter
  split
  · next heq =>
    have hcontrol : c.toNat < 32 := by
      refine Decidable.byContradiction fun hcontrol => ?_
      revert heq
      fun_cases escapeChar c <;> simp_all
    rw [chars_unit (by omega), Char.ofNat_toNat]
  · rw [Quoted.chars]

/-- A string that is read is the one that was written. -/
theorem text_quoted (text : String) : (quoted text).text = .ok text := by
  have h (cs : List Char) : Quoted.chars none (cs.map letter) = .ok cs := by
    induction cs with
    | nil => rfl
    | cons c cs ih => rw [List.map_cons, chars_letter, ih]; rfl
  rw [Quoted.text, quoted, h]
  exact congrArg Except.ok String.ofList_toList

/-! ### Numbers -/

/-- An integer as it is written. -/
def numeral (value : Int) : Numeral :=
  ⟨value < 0, Nat.toDigits 10 value.natAbs, none, none⟩

/-- A number that stands in front of the text ends there. -/
def EndsNumber (rest : List Char) : Prop :=
  ∀ c ∈ rest.head?, c.isDigit = false ∧ c ≠ '.' ∧ c ≠ 'e' ∧ c ≠ 'E'

private theorem isDigit_of_mem_toDigits {n : Nat} {c : Char} (h : c ∈ Nat.toDigits 10 n) : c.isDigit :=
  Nat.isDigit_of_mem_toDigits (by decide) (by decide) h

/-- Only zero starts with a zero. -/
private theorem head?_toDigits {n : Nat} (h : 0 < n) : (Nat.toDigits 10 n).head? ≠ some '0' := by
  induction n using Nat.strongRecOn with
  | ind n ih =>
    by_cases hn : n < 10
    · have hchar : ∀ k, k < 10 → 0 < k → [k.digitChar].head? ≠ some '0' := by decide
      rw [Nat.toDigits_of_lt_base hn]
      exact hchar n hn h
    · have hlt : n / 10 < n := by omega
      have hhead := ih (n / 10) hlt (by omega)
      rw [Nat.toDigits_of_base_le (by decide) (by omega)]
      obtain ⟨c, cs, hcs⟩ := List.exists_cons_of_ne_nil (Nat.toDigits_ne_nil (n := n / 10) (b := 10))
      rw [hcs] at hhead ⊢
      exact hhead

private theorem digits_toDigits (n : Nat) {rest : List Char} (h : EndsNumber rest) :
    Reading.digits (Nat.toDigits 10 n ++ rest) = (Nat.toDigits 10 n, rest) := by
  have hdigits : ∀ c ∈ Nat.toDigits 10 n, c.isDigit := fun c hc => isDigit_of_mem_toDigits hc
  rw [Reading.digits, List.takeWhile_append_of_pos hdigits, List.dropWhile_append_of_pos hdigits]
  cases rest with
  | nil => simp
  | cons c rest => simp [(h c rfl).1]

private theorem someDigits_toDigits (n : Nat) {rest : List Char} (h : EndsNumber rest) :
    Reading.someDigits (Nat.toDigits 10 n ++ rest) = .ok (Nat.toDigits 10 n, rest) := by
  obtain ⟨c, cs, hn⟩ := List.exists_cons_of_ne_nil (Nat.toDigits_ne_nil (n := n) (b := 10))
  unfold Reading.someDigits
  rw [digits_toDigits n h, hn]

private theorem wholePart_toDigits (n : Nat) {rest : List Char} (h : EndsNumber rest) :
    Reading.wholePart (Nat.toDigits 10 n ++ rest) = .ok (Nat.toDigits 10 n, rest) := by
  by_cases hn : n = 0
  · subst hn
    have hrest : (rest.head?.map Char.isDigit).getD false = false := by
      cases rest with
      | nil => rfl
      | cons c rest => exact (h c rfl).1
    show Reading.wholePart ('0' :: rest) = .ok (['0'], rest)
    rw [Reading.wholePart, if_neg (by simp [hrest])]
  · have hhead := head?_toDigits (Nat.pos_of_ne_zero hn)
    have hdigits := someDigits_toDigits n h
    unfold Reading.wholePart
    split
    · next heq =>
      obtain ⟨c, cs, hcs⟩ := List.exists_cons_of_ne_nil (Nat.toDigits_ne_nil (n := n) (b := 10))
      rw [hcs] at heq hhead
      cases heq
      exact absurd rfl hhead
    · exact hdigits

/-- A number is read up to where it ends. -/
private theorem numeral_toDigits (negative : Bool) (n : Nat) {rest : List Char} (h : EndsNumber rest) :
    Reading.numeral negative (Nat.toDigits 10 n ++ rest) =
      .ok (⟨negative, Nat.toDigits 10 n, none, none⟩, rest) := by
  have hfraction : Reading.fractionPart rest = .ok (none, rest) := by
    cases rest with
    | nil => rfl
    | cons c rest =>
      rw [Reading.fractionPart]
      exact fun cs hc => (h c rfl).2.1 (List.cons.inj hc).1
  have hexponent : Reading.exponentPart rest = .ok (none, rest) := by
    cases rest with
    | nil => rfl
    | cons c rest =>
      unfold Reading.exponentPart
      exact if_neg (by simp [(h c rfl).2.2])
  rw [Reading.numeral, wholePart_toDigits n h]
  simp only [bind, Except.bind, hfraction, hexponent, pure, Except.pure]

private theorem le_foldl_digits (ds : List Char) (v : Nat) :
    v ≤ ds.foldl (fun v c => 10 * v + digitValue c) v := by
  induction ds generalizing v with
  | nil => exact Nat.le_refl v
  | cons d ds ih => exact Nat.le_trans (by omega) (ih (10 * v + digitValue d))

/-- All digits are taken if their value fits a word. -/
private theorem takeDigits_eq {ds : List Char} {v : Nat}
    (h : ds.foldl (fun v c => 10 * v + digitValue c) v ≤ maxWord) :
    takeDigits v ds = (ds.foldl (fun v c => 10 * v + digitValue c) v, 0) := by
  induction ds generalizing v with
  | nil => rfl
  | cons d ds ih =>
    have hd : 10 * v + digitValue d ≤ maxWord := Nat.le_trans (le_foldl_digits ds _) h
    rw [takeDigits, if_pos hd]
    exact ih h

private theorem takeDigits_toDigits {n : Nat} (h : n ≤ maxWord) :
    takeDigits 0 (Nat.toDigits 10 n) = (n, 0) := by
  have hvalue : (Nat.toDigits 10 n).foldl (fun v c => 10 * v + digitValue c) 0 = n :=
    Nat.ofDigitChars_ten_toDigits
  rw [takeDigits_eq (hvalue.symm ▸ h), hvalue]

/-- An integer that fits a word, with a sign or without, is the value of its numeral. -/
theorem decode_numeral {value : Int} (hlow : -9223372036854775808 ≤ value)
    (hhigh : value ≤ 18446744073709551615) : (numeral value).decode = .ok (.int value) := by
  have hfits : value.natAbs ≤ maxWord := by
    unfold maxWord
    omega
  unfold Numeral.decode Numeral.value? numeral
  simp only [takeDigits_toDigits hfits]
  by_cases hneg : value < 0
  · have hsmall : value.natAbs ≤ 9223372036854775808 := by omega
    have hne : value.natAbs ≠ 0 := by omega
    have heq : -(value.natAbs : Int) = value := by omega
    simp only [hneg, decide_true, hsmall, hne, ne_eq, not_false_eq_true, heq]
    rfl
  · have heq : (value.natAbs : Int) = value := by omega
    simp only [hneg, decide_false, heq]
    rfl

/-! ### Values -/

mutual

/-- What the text of a value is read as. -/
def reading : Json → Reading
  | .null => .null
  | .bool value => .bool value
  | .int value => .number (numeral value)
  | .str text => .string (quoted text)
  | .arr items => .array (itemsReading items)
  | .obj members => .object (entriesReading members)

/-- What the texts of the items of an array are read as. -/
def itemsReading : List Json → Items
  | [] => .done
  | item :: items => .item item.reading (itemsReading items)

/-- What the texts of the members of an object are read as. -/
def entriesReading : List (String × Json) → Entries
  | [] => .done
  | (key, value) :: members => .entry (quoted key) value.reading (entriesReading members)

end

/-- Only blanks. -/
def Blank (cs : List Char) : Prop :=
  ∀ c ∈ cs, Reading.isBlankChar c

/-- The layout sets the parts of a value apart by blanks. -/
structure Layout.IsBlank (layout : Layout) : Prop where
  gap : ∀ depth, Blank (layout.gap depth).toList
  colon : ∃ blanks, layout.colon.toList = ':' :: blanks ∧ Blank blanks

theorem isBlank_compact : Layout.compact.IsBlank where
  gap _ := by simp [Layout.compact, Blank]
  colon := ⟨[], rfl, by simp [Blank]⟩

theorem isBlank_pretty : Layout.pretty.IsBlank where
  gap depth := by
    intro c hc
    simp only [Layout.pretty, String.toList_append, String.toList_ofList, List.mem_append,
      List.mem_replicate] at hc
    rcases hc with hc | ⟨-, rfl⟩
    · obtain rfl : c = '\n' := by simpa using hc
      rfl
    · rfl
  colon := ⟨[' '], rfl, by simp [Blank, Reading.isBlankChar]⟩

/-- The characters of parts of a text. -/
def chars (parts : List String) : List Char :=
  parts.flatMap String.toList

private theorem chars_cons (part : String) (parts : List String) : chars (part :: parts) = part.toList ++ chars parts :=
  List.flatMap_cons

private theorem chars_append (parts parts' : List String) : chars (parts ++ parts') = chars parts ++ chars parts' :=
  List.flatMap_append

private theorem toList_quote (text : String) :
    (quote text).toList = '"' :: (text.toList.flatMap escapeChar ++ ['"']) :=
  String.toList_ofList

theorem skipBlanks_append {blanks : List Char} (h : Blank blanks) (cs : List Char) :
    Reading.skipBlanks (blanks ++ cs) = Reading.skipBlanks cs := by
  rw [Reading.skipBlanks, List.dropWhile_append_of_pos h]
  rfl

private theorem skipBlanks_cons {c : Char} (h : Reading.isBlankChar c = false) (cs : List Char) :
    Reading.skipBlanks (c :: cs) = c :: cs := by
  rw [Reading.skipBlanks, List.dropWhile_cons_of_neg (by simp [h])]

/-- Blanks in front of a value are passed over. -/
private theorem value_blanks {blanks : List Char} (h : Blank blanks) (fuel : Nat) (cs : List Char) :
    Reading.value fuel (blanks ++ cs) = Reading.value fuel cs := by
  cases fuel with
  | zero => rfl
  | succ fuel => simp only [Reading.value, skipBlanks_append h]

private theorem endsNumber_append {blanks : List Char} (h : Blank blanks) {cs : List Char} (hcs : EndsNumber cs) :
    EndsNumber (blanks ++ cs) := by
  cases blanks with
  | nil => exact hcs
  | cons b blanks =>
    intro c hc
    obtain rfl : b = c := by simpa using hc
    have hb := h b List.mem_cons_self
    simp only [Reading.isBlankChar, Bool.or_eq_true, decide_eq_true_eq] at hb
    obtain ((rfl | rfl) | rfl) | rfl := hb <;> decide

private theorem toList_toString (value : Int) :
    (toString value).toList =
      if value < 0 then '-' :: Nat.toDigits 10 value.natAbs else Nat.toDigits 10 value.natAbs := by
  rw [Int.toString_eq_repr, Int.repr_eq_if]
  by_cases h : value < 0
  · have habs : (-value).toNat = value.natAbs := by omega
    rw [if_neg (by omega), if_pos h, String.toList_append, Nat.toList_repr, habs]
    rfl
  · have habs : value.toNat = value.natAbs := by omega
    rw [if_pos (by omega), if_neg h, Nat.toList_repr, habs]

private theorem isBlankChar_of_isDigit {c : Char} (h : c.isDigit) : Reading.isBlankChar c = false := by
  rw [Bool.eq_false_iff]
  intro hb
  simp only [Reading.isBlankChar, Bool.or_eq_true, decide_eq_true_eq] at hb
  obtain ((rfl | rfl) | rfl) | rfl := hb <;> cases h

/-- The text of a value starts with no blank and no bracket that closes. -/
private theorem exists_chars_chunks (layout : Layout) (depth : Nat) (v : Json) :
    ∃ c cs, chars (v.chunks layout depth) = c :: cs ∧ Reading.isBlankChar c = false ∧ c ≠ ']' := by
  cases v with
  | null => exact ⟨'n', _, rfl, rfl, by decide⟩
  | bool value => cases value <;> exact ⟨_, _, rfl, rfl, by decide⟩
  | int value =>
    have hlist : chars ((Json.int value).chunks layout depth) = (toString value).toList :=
      List.append_nil _
    rw [hlist, toList_toString]
    split
    · exact ⟨'-', _, rfl, rfl, by decide⟩
    · obtain ⟨c, cs, hcs⟩ :=
        List.exists_cons_of_ne_nil (Nat.toDigits_ne_nil (n := value.natAbs) (b := 10))
      have hc : c.isDigit := isDigit_of_mem_toDigits (n := value.natAbs) (by simp [hcs])
      exact ⟨c, cs, hcs, isBlankChar_of_isDigit hc, by rintro rfl; cases hc⟩
  | str text => exact ⟨'"', _, by rw [chunks, chars_cons, toList_quote]; rfl, rfl, by decide⟩
  | arr items => cases items <;> exact ⟨'[', _, by simp [chars, chunks]; rfl, rfl, by decide⟩
  | obj members =>
    cases members with
    | nil => exact ⟨'\x7b', _, rfl, rfl, by decide⟩
    | cons member members => exact ⟨'\x7b', _, by simp [chars, chunks]; rfl, rfl, by decide⟩

private theorem value_digit (fuel : Nat) {c : Char} (h : c.isDigit) (cs : List Char) :
    Reading.value (fuel + 1) (c :: cs) = Reading.ofNumeral (Reading.numeral false (c :: cs)) := by
  have hc := skipBlanks_cons (isBlankChar_of_isDigit h) cs
  rw [Reading.value, hc]
  split
  case h_8 heq =>
    cases heq
    rw [if_pos h]
  all_goals next heq => cases heq <;> cases h

/-- A number is read from its text. -/
private theorem value_int (value : Int) (fuel : Nat) {rest : List Char} (h : EndsNumber rest) :
    Reading.value (fuel + 1) ((toString value).toList ++ rest) = (reading (.int value), some rest) := by
  have hnumeral := numeral_toDigits (value < 0) value.natAbs h
  rw [toList_toString]
  by_cases hneg : value < 0
  · simp only [hneg, decide_true] at hnumeral
    rw [if_pos hneg, List.cons_append, Reading.value, skipBlanks_cons rfl]
    simp only [hnumeral, Reading.ofNumeral, reading, numeral, hneg, decide_true]
  · simp only [hneg, decide_false] at hnumeral
    obtain ⟨c, cs, hcs⟩ :=
      List.exists_cons_of_ne_nil (Nat.toDigits_ne_nil (n := value.natAbs) (b := 10))
    have hc : c.isDigit := isDigit_of_mem_toDigits (n := value.natAbs) (by simp [hcs])
    rw [hcs, List.cons_append] at hnumeral
    rw [if_neg hneg, hcs, List.cons_append, value_digit fuel hc, hnumeral]
    simp only [Reading.ofNumeral, reading, numeral, hneg, decide_false, hcs]

variable {layout : Layout}

/-- What follows the items of an array that have been read. -/
def itemsTail (layout : Layout) (depth outer : Nat) (items : List Json) : List Char :=
  chars (itemChunks layout depth items ++ [layout.gap outer, "]"])

/-- What follows the members of an object that have been read. -/
def membersTail (layout : Layout) (depth outer : Nat) (members : List (String × Json)) : List Char :=
  chars (memberChunks layout depth members ++ [layout.gap outer, "\x7d"])

private theorem endsNumber_itemsTail (h : layout.IsBlank) (depth outer : Nat) (items : List Json)
    (rest : List Char) : EndsNumber (itemsTail layout depth outer items ++ rest) := by
  cases items with
  | nil =>
    rw [itemsTail, itemChunks, List.nil_append, chars_cons, List.append_assoc]
    exact endsNumber_append (h.gap outer) (by simp [chars, EndsNumber])
  | cons item items => simp [itemsTail, itemChunks, chars, EndsNumber]

private theorem endsNumber_membersTail (h : layout.IsBlank) (depth outer : Nat)
    (members : List (String × Json)) (rest : List Char) :
    EndsNumber (membersTail layout depth outer members ++ rest) := by
  cases members with
  | nil =>
    rw [membersTail, memberChunks, List.nil_append, chars_cons, List.append_assoc]
    exact endsNumber_append (h.gap outer) (by simp [chars, EndsNumber])
  | cons member members => simp [membersTail, memberChunks, chars, EndsNumber]

private theorem chars_chunks_arr (depth : Nat) (item : Json) (items : List Json) :
    chars ((Json.arr (item :: items)).chunks layout depth) =
      '[' :: ((layout.gap (depth + 1)).toList ++ (chars (item.chunks layout (depth + 1)) ++
        itemsTail layout (depth + 1) depth items)) := by
  simp [chunks, itemsTail, chars]

private theorem itemsTail_cons (depth outer : Nat) (item : Json) (items : List Json) :
    itemsTail layout depth outer (item :: items) =
      ',' :: ((layout.gap depth).toList ++ (chars (item.chunks layout depth) ++
        itemsTail layout depth outer items)) := by
  simp [itemsTail, itemChunks, chars]

/-- A member of an object, behind the opening quote of its key. -/
def memberChars (layout : Layout) (depth : Nat) (key : String) (value : Json) : List Char :=
  key.toList.flatMap escapeChar ++ '"' :: (layout.colon.toList ++ chars (value.chunks layout depth))

private theorem chars_chunks_obj (depth : Nat) (key : String) (value : Json) (members : List (String × Json)) :
    chars ((Json.obj ((key, value) :: members)).chunks layout depth) =
      '\x7b' :: ((layout.gap (depth + 1)).toList ++ '"' ::
        (memberChars layout (depth + 1) key value ++ membersTail layout (depth + 1) depth members)) := by
  simp [chunks, membersTail, memberChars, chars, toList_quote]

private theorem membersTail_cons (depth outer : Nat) (key : String) (value : Json)
    (members : List (String × Json)) :
    membersTail layout depth outer ((key, value) :: members) =
      ',' :: ((layout.gap depth).toList ++ '"' ::
        (memberChars layout depth key value ++ membersTail layout depth outer members)) := by
  simp [membersTail, memberChunks, memberChars, chars, toList_quote]

private theorem length_itemsTail_pos (layout : Layout) (depth outer : Nat) (items : List Json) :
    0 < (itemsTail layout depth outer items).length := by
  rw [itemsTail, chars_append, List.length_append]
  exact Nat.add_pos_right _ (by simp [chars])

private theorem length_membersTail_pos (layout : Layout) (depth outer : Nat) (members : List (String × Json)) :
    0 < (membersTail layout depth outer members).length := by
  rw [membersTail, chars_append, List.length_append]
  exact Nat.add_pos_right _ (by simp [chars])

private theorem items_of_ne {blanks : List Char} (h : Blank blanks) {c : Char}
    (hblank : Reading.isBlankChar c = false) (hc : c ≠ ']') (fuel : Nat) (cs : List Char) :
    Reading.items (fuel + 1) (blanks ++ c :: cs) = Reading.item fuel (c :: cs) := by
  rw [Reading.items, skipBlanks_append h, skipBlanks_cons hblank]
  split
  · next heq => cases heq
  · next heq => exact absurd (List.cons.inj heq).1 hc
  · rfl

/-- The last item of an array, or one that others follow. -/
private theorem item_nil (h : layout.IsBlank) {depth outer fuel : Nat} {cs : List Char} {v : Reading}
    {rest : List Char}
    (hvalue : Reading.value fuel cs = (v, some (itemsTail layout depth outer [] ++ rest))) :
    Reading.item (fuel + 1) cs = (.item v .done, some rest) := by
  have htail : itemsTail layout depth outer [] ++ rest = (layout.gap outer).toList ++ (']' :: rest) := by
    simp [itemsTail, itemChunks, chars]
  rw [Reading.item, hvalue, htail]
  simp only [skipBlanks_append (h.gap outer), skipBlanks_cons (c := ']') rfl]

private theorem item_cons {depth outer fuel : Nat} {cs : List Char} {v : Reading} {item : Json}
    {items : List Json} {rest : List Char} {found : Items}
    (hvalue : Reading.value (fuel + 1) cs =
      (v, some (itemsTail layout depth outer (item :: items) ++ rest)))
    (hitem : Reading.item (fuel + 1) ((layout.gap depth).toList ++
      (chars (item.chunks layout depth) ++ (itemsTail layout depth outer items ++ rest))) =
        (found, some rest)) :
    Reading.item (fuel + 2) cs = (.item v found, some rest) := by
  rw [Reading.item, hvalue, itemsTail_cons]
  simp only [List.cons_append, List.append_assoc, skipBlanks_cons (c := ',') rfl, hitem]

/-- An entry is read as its key and its value, and the entries behind it. -/
private theorem entry_nil (h : layout.IsBlank) {depth outer fuel : Nat} {key : String} {value : Json}
    {rest : List Char}
    (hvalue : Reading.value fuel (chars (value.chunks layout depth) ++
      (membersTail layout depth outer [] ++ rest)) =
        (value.reading, some (membersTail layout depth outer [] ++ rest))) :
    Reading.entry (fuel + 1) (memberChars layout depth key value ++
      (membersTail layout depth outer [] ++ rest)) =
        (.entry (quoted key) value.reading .done, some rest) := by
  obtain ⟨blanks, hcolon, hblanks⟩ := h.colon
  have htail : membersTail layout depth outer [] ++ rest =
      (layout.gap outer).toList ++ ('\x7d' :: rest) := by
    simp [membersTail, memberChunks, chars]
  rw [← value_blanks hblanks, htail] at hvalue
  rw [htail, memberChars, List.append_assoc, List.cons_append, Reading.entry, quoted_escaped, hcolon]
  simp only [List.cons_append, List.append_assoc, skipBlanks_cons (c := ':') rfl, hvalue,
    skipBlanks_append (h.gap outer), skipBlanks_cons (c := '\x7d') rfl]
  rfl

private theorem entry_cons (h : layout.IsBlank) {depth outer fuel : Nat} {key key' : String}
    {value value' : Json} {members : List (String × Json)} {rest : List Char} {found : Entries}
    (hvalue : Reading.value fuel (chars (value.chunks layout depth) ++
      (membersTail layout depth outer ((key', value') :: members) ++ rest)) =
        (value.reading, some (membersTail layout depth outer ((key', value') :: members) ++ rest)))
    (hentry : Reading.entry fuel (memberChars layout depth key' value' ++
      (membersTail layout depth outer members ++ rest)) = (found, some rest)) :
    Reading.entry (fuel + 1) (memberChars layout depth key value ++
      (membersTail layout depth outer ((key', value') :: members) ++ rest)) =
        (.entry (quoted key) value.reading found, some rest) := by
  obtain ⟨blanks, hcolon, hblanks⟩ := h.colon
  rw [← value_blanks hblanks, membersTail_cons] at hvalue
  rw [membersTail_cons, memberChars, List.append_assoc, List.cons_append, Reading.entry,
    quoted_escaped, hcolon]
  simp only [List.cons_append, List.append_assoc] at hvalue
  simp only [List.cons_append, List.append_assoc, skipBlanks_cons (c := ':') rfl, hvalue,
    skipBlanks_cons (c := ',') rfl, skipBlanks_append (h.gap depth), skipBlanks_cons (c := '"') rfl,
    hentry]
  rfl

mutual

/-- A value is read from its text, and what stands behind it is left.  Of the fuel it takes three units for each
character at most. -/
theorem value_chunks (h : layout.IsBlank) : ∀ (v : Json) (depth fuel : Nat) (rest : List Char),
    EndsNumber rest → 3 * (chars (v.chunks layout depth)).length ≤ fuel →
    Reading.value fuel (chars (v.chunks layout depth) ++ rest) = (v.reading, some rest)
  | .null => by
    intro _ fuel _ _ hfuel
    obtain ⟨fuel, rfl⟩ : ∃ k, fuel = k + 1 := ⟨fuel - 1, by simp [chunks, chars] at hfuel; omega⟩
    rfl
  | .bool true => by
    intro _ fuel _ _ hfuel
    obtain ⟨fuel, rfl⟩ : ∃ k, fuel = k + 1 := ⟨fuel - 1, by simp [chunks, chars] at hfuel; omega⟩
    rfl
  | .bool false => by
    intro _ fuel _ _ hfuel
    obtain ⟨fuel, rfl⟩ : ∃ k, fuel = k + 1 := ⟨fuel - 1, by simp [chunks, chars] at hfuel; omega⟩
    rfl
  | .int value => by
    intro depth fuel rest hrest hfuel
    obtain ⟨c, cs, hcs, -⟩ := exists_chars_chunks layout depth (.int value)
    rw [hcs, List.length_cons] at hfuel
    obtain ⟨fuel, rfl⟩ : ∃ k, fuel = k + 1 := ⟨fuel - 1, by omega⟩
    rw [chunks, chars_cons, show chars [] = [] from rfl, List.append_nil]
    exact value_int value fuel hrest
  | .str text => by
    intro depth fuel rest _ hfuel
    rw [chunks, chars_cons, show chars [] = [] from rfl, List.append_nil, toList_quote] at hfuel ⊢
    rw [List.length_cons] at hfuel
    obtain ⟨fuel, rfl⟩ : ∃ k, fuel = k + 1 := ⟨fuel - 1, by omega⟩
    rw [List.cons_append, List.append_assoc, Reading.value, skipBlanks_cons rfl]
    simp only [List.singleton_append, quoted_escaped]
    rfl
  | .arr [] => by
    intro depth fuel rest _ hfuel
    obtain ⟨fuel, rfl⟩ : ∃ k, fuel = k + 2 := ⟨fuel - 2, by simp [chunks, chars] at hfuel; omega⟩
    rfl
  | .arr (item :: items) => by
    intro depth fuel rest _ hfuel
    rw [chars_chunks_arr] at hfuel ⊢
    simp only [List.length_cons, List.length_append] at hfuel
    have htail := length_itemsTail_pos layout (depth + 1) depth items
    obtain ⟨fuel, rfl⟩ : ∃ k, fuel = k + 3 := ⟨fuel - 3, by omega⟩
    have hitem := value_chunks h item (depth + 1) fuel
      (itemsTail layout (depth + 1) depth items ++ rest)
      (endsNumber_itemsTail h (depth + 1) depth items rest) (by omega)
    have hitems := item_of_value h items (depth + 1) depth fuel _ _ rest hitem (by omega)
    obtain ⟨c, cs, hcs, hblank, hbracket⟩ := exists_chars_chunks layout (depth + 1) item
    rw [List.cons_append, List.append_assoc, List.append_assoc, Reading.value, skipBlanks_cons rfl]
    rw [hcs, List.cons_append] at hitems ⊢
    simp only [items_of_ne (h.gap (depth + 1)) hblank hbracket, hitems, reading, itemsReading]
  | .obj [] => by
    intro depth fuel rest _ hfuel
    obtain ⟨fuel, rfl⟩ : ∃ k, fuel = k + 2 := ⟨fuel - 2, by simp [chunks, chars] at hfuel; omega⟩
    rfl
  | .obj ((key, value) :: members) => by
    intro depth fuel rest _ hfuel
    rw [chars_chunks_obj] at hfuel ⊢
    simp only [List.length_cons, List.length_append, memberChars] at hfuel
    have htail := length_membersTail_pos layout (depth + 1) depth members
    obtain ⟨fuel, rfl⟩ : ∃ k, fuel = k + 3 := ⟨fuel - 3, by omega⟩
    have hvalue := value_chunks h value (depth + 1) fuel
      (membersTail layout (depth + 1) depth members ++ rest)
      (endsNumber_membersTail h (depth + 1) depth members rest) (by omega)
    have hentries := entry_of_value h members (depth + 1) depth fuel key value rest hvalue (by omega)
    rw [List.cons_append, List.append_assoc, List.cons_append, List.append_assoc, Reading.value,
      skipBlanks_cons rfl]
    simp only [Reading.entries, skipBlanks_append (h.gap (depth + 1)), skipBlanks_cons (c := '"') rfl,
      hentries, reading, entriesReading]

/-- The items behind one that has been read. -/
theorem item_of_value (h : layout.IsBlank) : ∀ (items : List Json) (depth outer fuel : Nat)
    (cs : List Char) (v : Reading) (rest : List Char),
    Reading.value fuel cs = (v, some (itemsTail layout depth outer items ++ rest)) →
    3 * (itemsTail layout depth outer items).length ≤ fuel + 3 →
    Reading.item (fuel + 1) cs = (.item v (itemsReading items), some rest)
  | [] => fun _ _ _ _ _ _ hvalue _ => item_nil h hvalue
  | item :: items => by
    intro depth outer fuel cs v rest hvalue hfuel
    rw [itemsTail_cons] at hfuel
    simp only [List.length_cons, List.length_append] at hfuel
    have htail := length_itemsTail_pos layout depth outer items
    obtain ⟨fuel, rfl⟩ : ∃ k, fuel = k + 1 := ⟨fuel - 1, by omega⟩
    have hitem := value_chunks h item depth fuel (itemsTail layout depth outer items ++ rest)
      (endsNumber_itemsTail h depth outer items rest) (by omega)
    rw [← value_blanks (h.gap depth)] at hitem
    exact item_cons hvalue (item_of_value h items depth outer fuel _ _ rest hitem (by omega))

/-- The members behind one whose value can be read. -/
theorem entry_of_value (h : layout.IsBlank) : ∀ (members : List (String × Json))
    (depth outer fuel : Nat) (key : String) (value : Json) (rest : List Char),
    Reading.value fuel (chars (value.chunks layout depth) ++
      (membersTail layout depth outer members ++ rest)) =
        (value.reading, some (membersTail layout depth outer members ++ rest)) →
    3 * (membersTail layout depth outer members).length ≤ fuel + 3 →
    Reading.entry (fuel + 1) (memberChars layout depth key value ++
      (membersTail layout depth outer members ++ rest)) =
        (.entry (quoted key) value.reading (entriesReading members), some rest)
  | [] => fun _ _ _ _ _ _ hvalue _ => entry_nil h hvalue
  | (key', value') :: members => by
    intro depth outer fuel key value rest hvalue hfuel
    rw [membersTail_cons] at hfuel
    simp only [List.length_cons, List.length_append, memberChars] at hfuel
    have htail := length_membersTail_pos layout depth outer members
    obtain ⟨fuel, rfl⟩ : ∃ k, fuel = k + 1 := ⟨fuel - 1, by omega⟩
    have hvalue' := value_chunks h value' depth fuel (membersTail layout depth outer members ++ rest)
      (endsNumber_membersTail h depth outer members rest) (by omega)
    exact entry_cons h hvalue
      (entry_of_value h members depth outer fuel key' value' rest hvalue' (by omega))

end

/-- A whole text, with blanks behind the value. -/
theorem ofText_text (h : layout.IsBlank) (v : Json) {trail : String} (htrail : Blank trail.toList) :
    Reading.ofText (v.text layout ++ trail) = (v.reading, some trail.toList) := by
  have hlist : (v.text layout ++ trail).toList = chars (v.chunks layout 0) ++ trail.toList := by
    rw [String.toList_append, text, String.toList_join]
    rfl
  have hends : EndsNumber trail.toList := by
    have := endsNumber_append htrail (show EndsNumber [] by simp [EndsNumber])
    rwa [List.append_nil] at this
  rw [Reading.ofText, hlist]
  refine value_chunks h v 0 _ _ hends ?_
  rw [List.length_append]
  omega

end Json

end AdviceWeaving
