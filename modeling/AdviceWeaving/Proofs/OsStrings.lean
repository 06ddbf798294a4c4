import AdviceWeaving.OsString
import Mathlib.Tactic.Common

/-!
# Strings that are text

A string of the operating system that is text is shown as this text (`OsString.display_ofString`), so that two of them
are shown alike only if they are the same (`OsString.display_ofString_inj`).
-/

namespace AdviceWeaving

namespace OsString

variable {n : Nat} {bytes : List UInt8}

/-- A byte with a small number. -/
private theorem toNat_ofNat (h : n < 256) : (UInt8.ofNat n).toNat = n :=
  UInt8.toNat_ofNat_of_lt' h

/-! ### One byte -/

/-- What is shown of a character that a byte begins. -/
private theorem shown_begin {u : Unfinished} {byte : Nat} (hbyte : byte < 256) (hlarge : ¬ byte < 0x80)
    (hu : Unfinished.ofFirst? byte = some u) :
    shown none (UInt8.ofNat byte :: bytes) = shown (some u) bytes := by
  simp only [shown, toNat_ofNat hbyte, beginWith, if_neg hlarge, hu, List.nil_append]

private theorem shown_goOn {u : Unfinished} {digit missing : Nat} (hdigit : digit < 64)
    (hlow : u.low ≤ digit + 128) (hhigh : digit + 128 ≤ u.high) (hmissing : u.missing = missing + 1) :
    shown (some u) (UInt8.ofNat (digit + 128) :: bytes) =
      shown (some ⟨u.number * 64 + digit, missing, 0x80, 0xBF⟩) bytes := by
  simp only [shown, toNat_ofNat (show digit + 128 < 256 by omega), Unfinished.goOn?, if_pos (And.intro hlow hhigh),
    hmissing, Nat.add_sub_cancel, List.nil_append]

private theorem shown_finish {u : Unfinished} {digit : Nat} (hdigit : digit < 64)
    (hlow : u.low ≤ digit + 128) (hhigh : digit + 128 ≤ u.high) (hmissing : u.missing = 0) :
    shown (some u) (UInt8.ofNat (digit + 128) :: bytes) = Char.ofNat (u.number * 64 + digit) :: shown none bytes := by
  simp only [shown, toNat_ofNat (show digit + 128 < 256 by omega), Unfinished.goOn?, if_pos (And.intro hlow hhigh),
    hmissing, Nat.add_sub_cancel, List.singleton_append]

/-! ### First bytes -/

section

variable {v : Nat}

private theorem ofFirst?_of_two (hlarge : 0x7F < v) (hsmall : v ≤ 0x7FF) :
    Unfinished.ofFirst? (v / 64 % 32 + 192) = some ⟨v / 64, 0, 0x80, 0xBF⟩ := by
  have hnumber : v / 64 % 32 + 192 - 0xC0 = v / 64 := by omega
  rw [Unfinished.ofFirst?, if_pos (by omega), hnumber]

/-- The second byte of a character of three bytes is none that would make it shorter, or a surrogate. -/
private theorem exists_ofFirst?_of_three (hlarge : 0x7FF < v) (hsmall : v ≤ 0xFFFF)
    (hvalid : v < 0xD800 ∨ 0xDFFF < v) :
    ∃ u, Unfinished.ofFirst? (v / 4096 % 16 + 224) = some u ∧ u.number = v / 4096 ∧ u.missing = 1 ∧
      u.low ≤ v / 64 % 64 + 128 ∧ v / 64 % 64 + 128 ≤ u.high := by
  refine ⟨_, by rw [Unfinished.ofFirst?, if_neg (by omega), if_pos (by omega)], ?_, rfl, ?_, ?_⟩ <;> dsimp only
  · omega
  · split <;> omega
  · split <;> omega

/-- The second byte of a character of four bytes is none that would make it shorter, or too large. -/
private theorem exists_ofFirst?_of_four (hlarge : 0xFFFF < v) (hsmall : v < 0x110000) :
    ∃ u, Unfinished.ofFirst? (v / 262144 % 8 + 240) = some u ∧ u.number = v / 262144 ∧ u.missing = 2 ∧
      u.low ≤ v / 4096 % 64 + 128 ∧ v / 4096 % 64 + 128 ≤ u.high := by
  refine ⟨_, by rw [Unfinished.ofFirst?, if_neg (by omega), if_neg (by omega), if_pos (by omega)],
    ?_, rfl, ?_, ?_⟩ <;> dsimp only
  · omega
  · split <;> omega
  · split <;> omega

end

/-! ### Characters and texts -/

/-- A character is shown as it is. -/
private theorem shown_utf8EncodeChar (c : Char) :
    shown none (String.utf8EncodeChar c ++ bytes) = c :: shown none bytes := by
  obtain ⟨v, hv⟩ : ∃ v, c.val.toNat = v := ⟨_, rfl⟩
  have hc : Char.ofNat v = c := hv ▸ Char.ofNat_toNat c
  have hvalid : v < 0xD800 ∨ 0xDFFF < v ∧ v < 0x110000 := hv ▸ c.valid
  simp only [String.utf8EncodeChar, hv]
  split
  · have hbyte : (UInt8.ofNat v).toNat = v := toNat_ofNat (by omega)
    simp only [List.singleton_append, shown, hbyte, beginWith, if_pos (show v < 0x80 by omega), hc]
  split
  · rw [List.cons_append, List.cons_append,
      shown_begin (by omega) (by omega) (ofFirst?_of_two (by omega) (by omega)),
      shown_finish (by omega) (by dsimp only; omega) (by dsimp only; omega) rfl, ← hc]
    congr 2
    dsimp only
    omega
  split
  · obtain ⟨u, hu, hnumber, hmissing, hlow, hhigh⟩ :=
      exists_ofFirst?_of_three (show 0x7FF < v by omega) (by omega) (by omega)
    rw [List.cons_append, List.cons_append, List.cons_append, shown_begin (by omega) (by omega) hu,
      shown_goOn (by omega) hlow hhigh hmissing,
      shown_finish (by omega) (by dsimp only; omega) (by dsimp only; omega) rfl, hnumber, ← hc]
    congr 2
    dsimp only
    omega
  · obtain ⟨u, hu, hnumber, hmissing, hlow, hhigh⟩ :=
      exists_ofFirst?_of_four (show 0xFFFF < v by omega) (by omega)
    rw [List.cons_append, List.cons_append, List.cons_append, List.cons_append,
      shown_begin (by omega) (by omega) hu, shown_goOn (by omega) hlow hhigh hmissing,
      shown_goOn (by omega) (by dsimp only; omega) (by dsimp only; omega) rfl,
      shown_finish (by omega) (by dsimp only; omega) (by dsimp only; omega) rfl, hnumber, ← hc]
    congr 2
    dsimp only
    omega

/-- Text is shown as it is. -/
theorem display_ofString (text : String) : (ofString text).display = text := by
  have hall (chars : List Char) : shown none (chars.flatMap String.utf8EncodeChar) = chars := by
    induction chars with
    | nil => rfl
    | cons c chars ih => rw [List.flatMap_cons, shown_utf8EncodeChar, ih]
  rw [display, ofString, hall, String.ofList_toList]

/-- Different texts are shown differently. -/
theorem display_ofString_inj {text text' : String} :
    (ofString text).display = (ofString text').display ↔ text = text' := by
  rw [display_ofString, display_ofString]

/-- A byte that begins no character is replaced, and so is a character that breaks off; what follows is shown. -/
example : (OsString.mk [0x61, 0xFF, 0x62]).display = "a\uFFFDb" ∧
    (OsString.mk [0xE2, 0x82, 0x41, 0xC3]).display = "\uFFFDA\uFFFD" := by decide

end OsString

end AdviceWeaving
