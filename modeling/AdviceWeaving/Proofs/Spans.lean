import AdviceWeaving.Proofs.Lexing

/-!
# Where tokens stand

The pieces of a text fill it, one behind the other, so each stands as many bytes behind the start as those in front
of it have.  If a text that is put behind another is cut there as it is alone, it gives the tokens and the stray text
that it gives alone, moved by the length of the text in front (`lex_append`).

A string literal is such a text in front, whatever follows it: it ends at its own closing quote.  So a string, once
escaped, is read back as one token that spans its literal, and the reading goes on behind it as from a start
(`lex_escapeLiteral_append`).
-/

namespace AdviceWeaving

/-! ### Bytes -/

theorem byteLength_append (cs ds : List Char) : byteLength (cs ++ ds) = byteLength cs + byteLength ds := by
  induction cs with
  | nil => simp [byteLength]
  | cons c cs ih => rw [List.cons_append, byteLength, byteLength, ih, Nat.add_assoc]

/-- The bytes that spans count are those of the text in memory. -/
theorem byteLength_toList (text : String) : byteLength text.toList = text.utf8ByteSize := by
  have hofList (cs : List Char) : (String.ofList cs).utf8ByteSize = byteLength cs := by
    induction cs with
    | nil => rfl
    | cons c cs ih =>
      rw [String.ofList_cons, String.utf8ByteSize_append, ih]
      simp [byteLength]
  rw [← hofList, String.ofList_toList]

/-! ### Moving -/

/-- The same stretch, if `n` bytes are put in front of the source. -/
def Span.shift (n : Nat) (s : Span) : Span :=
  ⟨n + s.start, n + s.stop⟩

def Lexeme.shift (n : Nat) (l : Lexeme) : Lexeme :=
  { l with span := l.span.shift n }

def Stray.shift (n : Nat) (s : Stray) : Stray :=
  { s with span := s.span.shift n }

/-- Stray text is complained about in the same words wherever it stands. -/
@[simp] theorem Stray.message_shift (n : Nat) (s : Stray) : (s.shift n).message = s.message := rfl

/-- The pieces of a text are moved together. -/
private theorem located_add (n start : Nat) (ps : List Piece) :
    located (n + start) ps = (located start ps).map fun x => (x.1.shift n, x.2) := by
  induction ps generalizing start with
  | nil => rfl
  | cons p ps ih =>
    rw [located, located, List.map_cons, Nat.add_assoc, ih]
    rfl

private theorem located_append (start : Nat) (ps qs : List Piece) :
    located start (ps ++ qs) = located start ps ++ located (start + byteLength (ps.flatMap (·.text))) qs := by
  induction ps generalizing start with
  | nil => rfl
  | cons p ps ih =>
    rw [List.cons_append, located, located, ih, List.flatMap_cons, byteLength_append, Nat.add_assoc]
    rfl

/-! ### One text behind another -/

/-- A text that is cut behind another as it is alone gives what it gives alone, moved by the length of the other. -/
theorem lex_append {a b : String} (h : pieces (a ++ b).toList = pieces a.toList ++ pieces b.toList) :
    (lex (a ++ b)).tokens = (lex a).tokens ++ (lex b).tokens.map (·.shift a.utf8ByteSize) ∧
      (lex (a ++ b)).strays = (lex a).strays ++ (lex b).strays.map (·.shift a.utf8ByteSize) := by
  have hlocated : located 0 (pieces (a ++ b).toList) =
      located 0 (pieces a.toList) ++
        (located 0 (pieces b.toList)).map fun x => (x.1.shift a.utf8ByteSize, x.2) := by
    rw [h, located_append, pieces_text, byteLength_toList, Nat.zero_add, ← located_add, Nat.add_zero]
  constructor
  · simp only [lex, hlocated, List.filterMap_append, List.filterMap_map, List.map_filterMap]
    congr 2
    funext x
    cases hverdict : x.2.verdict <;> simp [hverdict, Lexeme.shift]
  · simp only [lex, hlocated, List.filterMap_append, List.filterMap_map, List.map_filterMap]
    congr 2
    funext x
    cases hverdict : x.2.verdict <;> simp [hverdict, Stray.shift]

/-- A text that is one piece in front of another leaves the other as it is. -/
private theorem pieces_append {c : Char} {cs rest : List Char} {verdict : Verdict}
    (h : firstPiece c (cs ++ rest) = (verdict, cs.length)) :
    pieces (c :: cs ++ rest) = ⟨c :: cs, verdict⟩ :: pieces rest := by
  rw [List.cons_append, pieces, h]
  simp

/-! ### String literals -/

/-- A literal is one piece whatever follows: it ends at its own closing quote. -/
private theorem pieces_escapeLiteral_append (text : String) (rest : List Char) :
    pieces ((escapeLiteral text).toList ++ rest) =
      ⟨(escapeLiteral text).toList, .token (.string text)⟩ :: pieces rest := by
  have hlist : (escapeLiteral text).toList = '"' :: (text.toList.flatMap escapeChar ++ ['"']) :=
    String.toList_ofList
  rw [hlist]
  refine pieces_append ?_
  rw [List.append_assoc, List.singleton_append, firstPiece_literal, String.ofList_toList, List.length_append]
  rfl

/-- A literal alone is one token, from its first byte to its last. -/
private theorem lex_escapeLiteral (text : String) :
    lex (escapeLiteral text) = ⟨[⟨.string text, ⟨0, (escapeLiteral text).utf8ByteSize⟩⟩], []⟩ := by
  have hpieces := pieces_escapeLiteral_append text []
  rw [List.append_nil, pieces] at hpieces
  rw [lex, hpieces, located, located, byteLength_toList]
  simp

/-- A string that is escaped is read back, whatever follows: as one token, with the span of its literal.  What follows
is read as if it stood alone, and stands behind the literal. -/
theorem lex_escapeLiteral_append (text rest : String) :
    (lex (escapeLiteral text ++ rest)).tokens =
        ⟨.string text, ⟨0, (escapeLiteral text).utf8ByteSize⟩⟩ ::
          (lex rest).tokens.map (·.shift (escapeLiteral text).utf8ByteSize) ∧
      (lex (escapeLiteral text ++ rest)).strays =
        (lex rest).strays.map (·.shift (escapeLiteral text).utf8ByteSize) := by
  have hpieces : pieces (escapeLiteral text ++ rest).toList =
      pieces (escapeLiteral text).toList ++ pieces rest.toList := by
    have halone := pieces_escapeLiteral_append text []
    rw [List.append_nil, pieces] at halone
    rw [String.toList_append, pieces_escapeLiteral_append, halone, List.singleton_append]
  obtain ⟨htokens, hstrays⟩ := lex_append hpieces
  rw [htokens, hstrays, lex_escapeLiteral]
  exact ⟨rfl, rfl⟩

end AdviceWeaving
