import AdviceWeaving.Proofs.LineBreaks
import Mathlib.Data.List.TakeWhile

/-!
# Nothing is lost

The tokens of a source and its stray text stand in it one behind the other, and fill it but for spaces, line ends and
comments (`Tiles`, `lex_loses_nothing`).  Insignificant text is told without the lexer (`Insignificant`); a comment is
one only up to the end of its line.
-/

namespace AdviceWeaving

/-! ### Insignificant text -/

/-- Spaces, line ends and comments.  A comment goes on to the end of its line, or to that of the source; `behind` is the
text behind all of it. -/
inductive Insignificant (behind : List Char) : List Char → Prop
  | nil : Insignificant behind []
  | blank {c : Char} {gap : List Char} (blank : c ∈ [' ', '\t', '\r', '\n']) (rest : Insignificant behind gap) :
      Insignificant behind (c :: gap)
  | comment {words gap : List Char} (line : '\n' ∉ words) (stops : ∀ c ∈ (gap ++ behind).head?, c = '\n')
      (rest : Insignificant behind gap) : Insignificant behind ('/' :: '/' :: (words ++ gap))

private theorem take_runLength (p : Char → Bool) (cs : List Char) : cs.take (runLength p cs) = cs.takeWhile p :=
  (List.prefix_iff_eq_take.1 (List.takeWhile_prefix p)).symm

private theorem drop_runLength (p : Char → Bool) (cs : List Char) : cs.drop (runLength p cs) = cs.dropWhile p := by
  calc cs.drop (runLength p cs) = (cs.takeWhile p ++ cs.dropWhile p).drop (cs.takeWhile p).length := by
        rw [List.takeWhile_append_dropWhile, runLength]
    _ = cs.dropWhile p := List.drop_left

private theorem Verdict.ofValue?_ne_blank (value : Option Token) : ofValue? value ≠ .blank := by
  cases value <;> simp [ofValue?]

private theorem nameVerdict_ne_blank (name : String) (next : Option Char) : nameVerdict name next ≠ .blank := by
  unfold nameVerdict
  split
  · split <;> simp
  · simp

/-- Blank text at the front of a source is a blank, or a comment up to the end of its line. -/
private theorem firstPiece_eq_blank {c : Char} {cs : List Char} {n : Nat} (h : firstPiece c cs = (.blank, n)) :
    (isBlank c ∧ n = 0) ∨
      ∃ words, c :: cs.take n = '/' :: '/' :: words ∧ '\n' ∉ words ∧ ∀ d ∈ (cs.drop n).head?, d = '\n' := by
  revert h
  fun_cases firstPiece c cs with
  | case1 c cs hblank =>
    rintro ⟨⟩
    exact .inl ⟨hblank, rfl⟩
  | case4 rest =>
    rintro ⟨⟩
    refine .inr ⟨rest.takeWhile (· ≠ '\n'), ?_, fun hmem => ?_, fun d hd => ?_⟩
    · rw [Nat.add_comm, List.take_succ_cons, take_runLength]
    · simpa using List.mem_takeWhile_imp hmem
    · rw [Nat.add_comm, List.drop_succ_cons, drop_runLength] at hd
      have hhead := List.head?_dropWhile_not (· ≠ '\n') rest
      rw [Option.mem_def.1 hd] at hhead
      simpa using hhead
  | case2 => exact fun h => absurd (Prod.mk.inj h).1 (nameVerdict_ne_blank _ _)
  | case3 | case8 => exact fun h => absurd (Prod.mk.inj h).1 (Verdict.ofValue?_ne_blank _)
  | case5 cs k hclosed =>
    rw [hclosed]
    exact fun h => absurd (Prod.mk.inj h).1 (Verdict.ofValue?_ne_blank _)
  | case6 cs k hopen =>
    rw [hopen]
    intro h
    cases h
  | case20 cs word token hfind | case21 cs hfind =>
    rw [hfind]
    intro h
    cases h
  | _ =>
    intro h
    cases h

/-! ### Tiles -/

/-- The spans cut a text that starts at the byte `start`.  Each holds some of its characters, and between them is
insignificant text only. -/
inductive Tiles : Nat → List Char → List Span → Prop
  | last {start : Nat} {gap : List Char} (skipped : Insignificant [] gap) : Tiles start gap []
  | span {start : Nat} {gap text rest : List Char} {spans : List Span} (skipped : Insignificant (text ++ rest) gap)
      (ne : text ≠ []) (tiles : Tiles (start + byteLength gap + byteLength text) rest spans) :
      Tiles start (gap ++ (text ++ rest))
        (⟨start + byteLength gap, start + byteLength gap + byteLength text⟩ :: spans)

/-- The span holds something, and the other one does not start in front of its end. -/
def Span.Before (s t : Span) : Prop :=
  s.start < s.stop ∧ s.stop ≤ t.start

/-- The byte is one of those of the span. -/
def Span.Covers (s : Span) (byte : Nat) : Prop :=
  s.start ≤ byte ∧ byte < s.stop

/-- The byte belongs to insignificant text that meets none of the spans. -/
def Skips (start : Nat) (cs : List Char) (spans : List Span) (byte : Nat) : Prop :=
  ∃ before gap behind, cs = before ++ (gap ++ behind) ∧ Insignificant behind gap ∧
    start + byteLength before ≤ byte ∧ byte < start + byteLength before + byteLength gap ∧
    ∀ s ∈ spans, s.stop ≤ start + byteLength before ∨ start + byteLength before + byteLength gap ≤ s.start

private theorem byteLength_pos {cs : List Char} (h : cs ≠ []) : 0 < byteLength cs := by
  obtain ⟨c, cs, rfl⟩ := List.exists_cons_of_ne_nil h
  exact Nat.add_pos_left c.utf8Size_pos _

namespace Tiles

variable {start : Nat} {cs : List Char} {spans : List Span}

/-- Insignificant text may be put in front. -/
private theorem skip {ds : List Char}
    (hds : ∀ gap behind, cs = gap ++ behind → Insignificant behind gap → Insignificant behind (ds ++ gap))
    (h : Tiles (start + byteLength ds) cs spans) : Tiles start (ds ++ cs) spans := by
  cases h with
  | last skipped => exact .last (hds cs [] (List.append_nil cs).symm skipped)
  | @span _ gap text rest spans skipped ne tiles =>
    have hlength : start + byteLength (ds ++ gap) = start + byteLength ds + byteLength gap := by
      rw [byteLength_append, Nat.add_assoc]
    rw [← hlength] at tiles ⊢
    rw [← List.append_assoc]
    exact .span (hds gap (text ++ rest) rfl skipped) ne tiles

private theorem start_le (h : Tiles start cs spans) : ∀ s ∈ spans, start ≤ s.start := by
  induction h with
  | last => exact List.forall_mem_nil _
  | @span start gap text rest spans _ _ _ ih =>
    refine List.forall_mem_cons.2 ⟨Nat.le_add_right _ _, fun s hs => ?_⟩
    have := ih s hs
    omega

/-- The spans stand one behind the other. -/
private theorem pairwise (h : Tiles start cs spans) : spans.Pairwise Span.Before := by
  induction h with
  | last => exact .nil
  | span _ ne tiles ih =>
    refine List.pairwise_cons.2 ⟨fun t ht => ⟨?_, tiles.start_le t ht⟩, ih⟩
    exact Nat.lt_add_of_pos_right (byteLength_pos ne)

private theorem eq_or_before (h : Tiles start cs spans) {s t : Span} (hs : s ∈ spans) (ht : t ∈ spans) :
    s = t ∨ s.Before t ∨ t.Before s := by
  have hpairs := List.pairwise_iff_getElem.1 h.pairwise
  obtain ⟨i, hi, rfl⟩ := List.getElem_of_mem hs
  obtain ⟨j, hj, rfl⟩ := List.getElem_of_mem ht
  obtain hij | rfl | hij := Nat.lt_trichotomy i j
  · exact .inr (.inl (hpairs i j hi hj hij))
  · exact .inl rfl
  · exact .inr (.inr (hpairs j i hj hi hij))

/-- Each span begins and ends between characters, and holds some of them. -/
private theorem exists_split (h : Tiles start cs spans) : ∀ s ∈ spans, ∃ before text behind,
    cs = before ++ (text ++ behind) ∧ text ≠ [] ∧ s.start = start + byteLength before ∧
      s.stop = s.start + byteLength text := by
  induction h with
  | last => exact List.forall_mem_nil _
  | @span start gap text rest spans _ ne _ ih =>
    refine List.forall_mem_cons.2 ⟨⟨gap, text, rest, rfl, ne, rfl, rfl⟩, fun s hs => ?_⟩
    obtain ⟨before, inside, behind, rfl, hne, hstart, hstop⟩ := ih s hs
    refine ⟨gap ++ text ++ before, inside, behind, by simp only [List.append_assoc], hne, ?_, hstop⟩
    rw [hstart, byteLength_append, byteLength_append, Nat.add_assoc, Nat.add_assoc, Nat.add_assoc]

private theorem length_le (h : Tiles start cs spans) : spans.length ≤ cs.length := by
  induction h with
  | last => exact Nat.zero_le _
  | @span _ gap text rest _ _ ne _ ih =>
    have hpos := List.length_pos_iff.2 ne
    simp only [List.length_cons, List.length_append]
    omega

/-- A byte is one of those of a span, or it is skipped. -/
private theorem covers_or_skips (h : Tiles start cs spans) {byte : Nat} (hle : start ≤ byte)
    (hlt : byte < start + byteLength cs) : (∃ s ∈ spans, s.Covers byte) ∨ Skips start cs spans byte := by
  induction h with
  | @last start gap skipped =>
    exact .inr ⟨[], gap, [], (List.append_nil gap).symm, skipped, hle, hlt, List.forall_mem_nil _⟩
  | @span start gap text rest spans skipped ne tiles ih =>
    rw [byteLength_append, byteLength_append] at hlt
    -- the byte lies in front of the first span, in it or behind it
    by_cases hgap : byte < start + byteLength gap
    · refine .inr ⟨[], gap, text ++ rest, rfl, skipped, hle, hgap, ?_⟩
      refine List.forall_mem_cons.2 ⟨.inr (Nat.le_refl _), fun s hs => .inr ?_⟩
      exact Nat.le_trans (Nat.le_add_right _ _) (tiles.start_le s hs)
    by_cases htext : byte < start + byteLength gap + byteLength text
    · exact .inl ⟨_, List.mem_cons_self, Nat.le_of_not_lt hgap, htext⟩
    obtain ⟨s, hs, hcovers⟩ | ⟨before, skipped', behind, rfl, hskipped, hfrom, hto, haway⟩ :=
      ih (Nat.le_of_not_lt htext) (by omega)
    · exact .inl ⟨s, List.mem_cons_of_mem _ hs, hcovers⟩
    · have hlength : start + byteLength (gap ++ text ++ before) =
          start + byteLength gap + byteLength text + byteLength before := by
        rw [byteLength_append, byteLength_append, Nat.add_assoc, Nat.add_assoc, Nat.add_assoc]
      refine .inr ⟨gap ++ text ++ before, skipped', behind, by simp only [List.append_assoc], hskipped, ?_⟩
      rw [hlength]
      exact ⟨hfrom, hto, List.forall_mem_cons.2 ⟨.inl (Nat.le_add_right _ _), haway⟩⟩

end Tiles

/-! ### The spans of a source -/

/-- Where the tokens and the stray text stand, in the order of the source. -/
def Lexed.spans (l : Lexed) : List Span :=
  (l.tokens.map (·.span) ++ l.strays.map (·.span)).mergeSort fun s t => s.start ≤ t.start

/-- The pieces of a text that are not blank tile it. -/
private theorem tiles_pieces (start : Nat) (cs : List Char) :
    Tiles start cs (((located start (pieces cs)).filter (·.2.verdict ≠ .blank)).map (·.1)) := by
  fun_induction pieces cs generalizing start with
  | case1 => exact .last .nil
  | case2 c cs verdict n hpiece ih =>
    have hsplit : c :: cs = (c :: cs.take n) ++ cs.drop n := by rw [List.cons_append, List.take_append_drop]
    rw [located, hsplit]
    by_cases hblank : verdict = .blank
    · rw [List.filter_cons_of_neg (by simpa using hblank)]
      refine (ih _).skip fun gap behind hdrop hgap => ?_
      obtain ⟨hc, rfl⟩ | ⟨words, htext, hline, hstops⟩ := firstPiece_eq_blank (hblank ▸ hpiece)
      · exact .blank (by simpa [isBlank, or_assoc] using hc) hgap
      · rw [htext]
        exact .comment hline (hdrop ▸ hstops) hgap
    · rw [List.filter_cons_of_pos (by simpa using hblank)]
      exact @Tiles.span start [] (c :: cs.take n) (cs.drop n) _ .nil (List.cons_ne_nil _ _) (ih _)

private theorem spans_perm (source : String) :
    ((lex source).tokens.map (·.span) ++ (lex source).strays.map (·.span)).Perm
      (((located 0 (pieces source.toList)).filter (·.2.verdict ≠ .blank)).map (·.1)) := by
  simp only [lex]
  generalize located 0 (pieces source.toList) = l
  induction l with
  | nil => exact .nil
  | cons x l ih =>
    obtain ⟨span, text, verdict⟩ := x
    cases verdict with
    | blank => simpa using ih
    | token t => simpa using ih.cons span
    | stray => simpa using List.perm_middle.trans (ih.cons span)

private theorem spans_lex (source : String) :
    (lex source).spans = ((located 0 (pieces source.toList)).filter (·.2.verdict ≠ .blank)).map (·.1) := by
  have htiles := tiles_pieces 0 source.toList
  have hperm := spans_perm source
  generalize ((located 0 (pieces source.toList)).filter (·.2.verdict ≠ .blank)).map (·.1) = spans at htiles hperm ⊢
  have hstarts : spans.Pairwise fun s t => s.start < t.start :=
    htiles.pairwise.imp fun h => Nat.lt_of_lt_of_le h.1 h.2
  have hsorted : (lex source).spans.Pairwise fun s t => decide (s.start ≤ t.start) = true :=
    List.pairwise_mergeSort (by simpa using fun _ _ _ => Nat.le_trans)
      (by simpa using fun (s t : Span) => Nat.le_total s.start t.start) _
  -- no two spans start at the same byte, so that there is only one way to sort them
  have hsame : (lex source).spans.Perm spans := (List.mergeSort_perm _ _).trans hperm
  refine List.Perm.eq_of_pairwise (fun s t hs ht hst hts => ?_) (hsorted.imp of_decide_eq_true)
    (hstarts.imp Nat.le_of_lt) hsame
  have := htiles.eq_or_before (hsame.mem_iff.1 hs) ht
  grind [Span.Before]

/-- The tokens stand in the order of the source, and so does the stray text. -/
private theorem sublist_spans (source : String) : ((lex source).tokens.map (·.span)).Sublist (lex source).spans ∧
    ((lex source).strays.map (·.span)).Sublist (lex source).spans := by
  rw [spans_lex]
  simp only [lex]
  generalize located 0 (pieces source.toList) = l
  induction l with
  | nil => exact ⟨.slnil, .slnil⟩
  | cons x l ih =>
    obtain ⟨span, text, verdict⟩ := x
    cases verdict with
    | blank => simpa using ih
    | token t => exact ⟨by simpa using ih.1, by simpa using ih.2.cons span⟩
    | stray => exact ⟨by simpa using ih.1.cons span, by simpa using ih.2⟩

private theorem isValid_of_split {source : String} {before behind : List Char} (h : source.toList = before ++ behind) :
    String.Pos.Raw.IsValid source ⟨byteLength before⟩ := by
  refine String.Pos.Raw.isValid_iff_exists_append.2 ⟨String.ofList before, String.ofList behind, ?_, ?_⟩
  · rw [← String.ofList_append, ← h, String.ofList_toList]
  · rw [String.Pos.Raw.ext_iff]
    show byteLength before = (String.ofList before).utf8ByteSize
    rw [← byteLength_toList, String.toList_ofList]

/-- Nothing of a source is lost.  The spans of its tokens and of its stray text, in the order of the source, tile it.
So none of them is empty, each ends in front of the next one, and all lie in the source and are cut between characters;
and each byte belongs to exactly one of them, or to spaces, line ends and comments that stand in front of the first,
between two of them or behind the last.  There are no more of them than characters. -/
theorem lex_loses_nothing (source : String) :
    Tiles 0 source.toList (lex source).spans ∧
    (((lex source).tokens.map (·.span)).Sublist (lex source).spans ∧
      ((lex source).strays.map (·.span)).Sublist (lex source).spans) ∧
    (lex source).spans.Pairwise (fun s t => s.start < t.start ∧ s.stop ≤ t.start) ∧
    (∀ s ∈ (lex source).spans, s.start < s.stop ∧ s.stop ≤ source.utf8ByteSize ∧
      String.Pos.Raw.IsValid source ⟨s.start⟩ ∧ String.Pos.Raw.IsValid source ⟨s.stop⟩) ∧
    (∀ byte < source.utf8ByteSize, (∃! s, s ∈ (lex source).spans ∧ s.Covers byte) ∨
      Skips 0 source.toList (lex source).spans byte) ∧
    (lex source).spans.length ≤ source.length := by
  have htiles : Tiles 0 source.toList (lex source).spans := spans_lex source ▸ tiles_pieces 0 source.toList
  refine ⟨htiles, sublist_spans source, htiles.pairwise.imp fun h => ⟨Nat.lt_of_lt_of_le h.1 h.2, h.2⟩,
    fun s hs => ?_, fun byte hbyte => ?_, ?_⟩
  · obtain ⟨before, text, behind, hsplit, hne, hstart, hstop⟩ := htiles.exists_split s hs
    have hinside : source.toList = (before ++ text) ++ behind := by rw [hsplit, List.append_assoc]
    rw [Nat.zero_add] at hstart
    have hend : s.stop = byteLength (before ++ text) := by rw [hstop, hstart, byteLength_append]
    refine ⟨?_, ?_, hstart ▸ isValid_of_split hsplit, hend ▸ isValid_of_split hinside⟩
    · exact hstop ▸ Nat.lt_add_of_pos_right (byteLength_pos hne)
    · rw [← byteLength_toList, hinside, byteLength_append, hend]
      exact Nat.le_add_right _ _
  · refine (htiles.covers_or_skips (Nat.zero_le byte) ?_).imp_left ?_
    · rwa [Nat.zero_add, byteLength_toList]
    · rintro ⟨s, hs, hcovers⟩
      refine ⟨s, ⟨hs, hcovers⟩, fun t ⟨ht, hcovers'⟩ => ?_⟩
      have := htiles.eq_or_before ht hs
      grind [Span.Before, Span.Covers]
  · exact String.length_toList ▸ htiles.length_le

/-- An integer out of range, a literal with an unknown escape and one that is not closed are stray text. -/
example : (lex "9223372036854775808 \"\\q\" \"open").strays.map (·.span) = [⟨0, 19⟩, ⟨20, 24⟩, ⟨25, 30⟩] := by
  decide +kernel

end AdviceWeaving
