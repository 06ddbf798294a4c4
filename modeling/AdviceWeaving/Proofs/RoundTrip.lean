import AdviceWeaving.Proofs.Parsed

/-!
# Text and back

The text of a module that is `TextWellFormed` is read as the module, numbered anew; a text that is read without a
complaint gives such a module; and a module with a branch out of its body has no text that is read without a
complaint (`Module.parse_text`).
-/

namespace AdviceWeaving

/-! ### Reading a text -/

/-- A text without stray parts is read by its tokens alone. -/
theorem parse_eq_of_read? {source : String} (hstray : (lex source).strays = []) {m : Module}
    {rest : List Lexeme} (h : (Rule.module (lex source).tokens).read? = some (m, rest)) :
    parse source = ⟨some m, []⟩ := by
  unfold parse
  cases hread : Rule.module (lex source).tokens with
  | error fault =>
    rw [hread] at h
    cases h
  | ok found =>
    rw [hread] at h
    cases h
    simp only [hread, hstray, List.map_nil]

/-- A text is complained of unless it has no stray parts and its tokens are a module. -/
theorem read?_of_complaints_eq_nil {source : String} (h : (parse source).complaints = []) :
    (lex source).strays = [] ∧ ∃ m rest,
      (Rule.module (lex source).tokens).read? = some (m, rest) ∧ parse source = ⟨some m, []⟩ := by
  unfold parse at h
  cases hread : Rule.module (lex source).tokens with
  | error fault =>
    simp [hread] at h
  | ok found =>
    simp only [hread, List.map_eq_nil_iff] at h
    have hread' : (Rule.module (lex source).tokens).read? = some (found.1, found.2.val) := by
      rw [hread]
      rfl
    exact ⟨h, found.1, found.2.val, rfl, parse_eq_of_read? h hread'⟩

/-- The lexemes of the text of a well-named module. -/
private theorem lex_text {m : Module} (h : m.WellNamed) :
    (lex m.text).strays = [] ∧ (lex m.text).tokens.map (·.token) = m.tokens := by
  have hverdicts : verdicts m.text.toList = m.tokens.map .token := by
    have := closed_module h []
    rwa [List.append_nil, verdicts_nil, List.append_nil] at this
  rw [strays_lex_eq_nil_iff, tokens_lex, hverdicts, List.filterMap_map]
  exact ⟨by simp, List.filterMap_some⟩

/-- The tokens of a well-named module are read as the module if its branches stay inside their bodies, and not at all
otherwise. -/
private theorem read?_module {m : Module} (h : m.WellNamed) {front : List Lexeme}
    (hfront : front.map (·.token) = m.tokens) :
    (Rule.module front).read? = if m.TargetsInRange then some (m.assignIds, []) else none := by
  rw [Rule.read?_moduleTree m.tree (hfront.trans m.tokens_tree.symm), Module.value_tree h]
  split <;> rfl

/-! ### Numbering -/

private theorem withoutId_numberMethods (ids : IdSupply) (ms : List Method) :
    (ids.numberMethods ms).1.map (·.withoutId) = ms.map (·.withoutId) := by
  induction ms generalizing ids with
  | nil => rfl
  | cons m ms ih => exact congrArg (m.withoutId :: ·) (ih _)

private theorem withoutId_numberTypes (ids : IdSupply) (ts : List TypeDecl) :
    (ids.numberTypes ts).1.map (·.withoutId) = ts.map (·.withoutId) := by
  induction ts generalizing ids with
  | nil => rfl
  | cons t ts ih =>
    have hhead : (ids.numberType t).1.withoutId = t.withoutId := by
      simp only [IdSupply.numberType, TypeDecl.withoutId, withoutId_numberMethods]
    simp only [IdSupply.numberTypes, List.map_cons, hhead, ih]

/-- Numbering keeps all but the identifiers. -/
theorem Module.withoutId_assignIds (m : Module) :
    m.assignIds.types.map (·.withoutId) = m.types.map (·.withoutId) :=
  withoutId_numberTypes {} m.types

theorem Module.assignIds_assignIds (m : Module) : m.assignIds.assignIds = m.assignIds := by
  rw [← ofTypes_withoutId m.assignIds, withoutId_assignIds]
  exact ofTypes_withoutId m

/-- Identifiers are not written. -/
private theorem Module.textWellFormed_iff_withoutId (m : Module) :
    m.TextWellFormed ↔ isName m.name ∧ ∀ t ∈ m.types.map (·.withoutId), Rule.TypeWellFormed t := by
  have htype (t : TypeDecl) : Rule.TypeWellFormed t.withoutId ↔ t.WellNamed ∧ t.TargetsInRange := by
    simp [Rule.TypeWellFormed, TypeDecl.WellNamed, TypeDecl.TargetsInRange, TypeDecl.withoutId,
      Method.WellNamed, Method.TargetsInRange, Method.withoutId]
  simp only [TextWellFormed, WellNamed, TargetsInRange, List.forall_mem_map, htype, and_assoc,
    forall_and]

private theorem Module.textWellFormed_assignIds {m : Module} :
    m.assignIds.TextWellFormed ↔ m.TextWellFormed := by
  rw [textWellFormed_iff_withoutId, textWellFormed_iff_withoutId, withoutId_assignIds]
  rfl

/-! ### Writing and reading -/

theorem parse_text_of_textWellFormed {m : Module} (h : m.TextWellFormed) :
    parse m.text = ⟨some m.assignIds, []⟩ := by
  obtain ⟨hstrays, htokens⟩ := lex_text h.1
  have hread := read?_module h.1 htokens
  rw [if_pos h.2] at hread
  exact parse_eq_of_read? hstrays hread

theorem textWellFormed_of_parse {source : String} (h : (parse source).complaints = []) :
    ∃ m, parse source = ⟨some m, []⟩ ∧ m.TextWellFormed ∧ m.assignIds = m := by
  obtain ⟨hstrays, m, rest, hread, hparse⟩ := read?_of_complaints_eq_nil h
  have hnames : NamesRead (lex source).tokens := by
    intro t ht name hname
    have hmem := List.mem_map_of_mem (f := (·.token)) ht
    rw [tokens_lex] at hmem
    obtain ⟨v, hv, htoken⟩ := List.mem_filterMap.1 hmem
    cases v <;> cases htoken
    exact isName_of_mem_verdicts ((strays_lex_eq_nil_iff source).1 hstrays) (hname ▸ hv)
  obtain ⟨⟨name, ts, rfl, hname, hts⟩, -⟩ := Rule.ensures_module _ m rest hnames hread
  refine ⟨_, hparse, Module.textWellFormed_assignIds.2 ⟨⟨hname, fun t ht => (hts t ht).1⟩,
    fun t ht => (hts t ht).2⟩, Module.assignIds_assignIds _⟩

namespace Module

/-- Text round trip. A well-formed module is read back from its text, with identifiers in declaration order; what is
read without a complaint is well-formed, and its text is read as itself; and a module whose names can be written, but
not the target of some branch, has a text that is complained of. -/
theorem parse_text :
    (∀ m : Module, m.TextWellFormed → parse m.text = ⟨some m.assignIds, []⟩) ∧
    (∀ source, (parse source).complaints = [] →
      ∃ m, parse source = ⟨some m, []⟩ ∧ m.TextWellFormed ∧ parse m.text = ⟨some m, []⟩) ∧
    (∀ m : Module, m.WellNamed → ¬ m.TargetsInRange → (parse m.text).complaints ≠ []) := by
  refine ⟨fun m h => parse_text_of_textWellFormed h, fun source h => ?_, fun m hnamed hrange h => ?_⟩
  · obtain ⟨m, hparse, hwell, hids⟩ := textWellFormed_of_parse h
    refine ⟨m, hparse, hwell, ?_⟩
    rw [parse_text_of_textWellFormed hwell, hids]
  · obtain ⟨-, htokens⟩ := lex_text hnamed
    obtain ⟨-, m', rest, hread, -⟩ := read?_of_complaints_eq_nil h
    rw [read?_module hnamed htokens, if_neg hrange] at hread
    cases hread

/-- A module with every kind of member, argument and operand, in which one branch leads to `target`. -/
def annotated (target : UInt64) : Module where
  name := "demo.app"
  types := [
    { name := "demo.Base", kind := .interfaceType },
    { name := "demo.Probe", base := some "demo.Base"
      attributes := [⟨"demo.Tag", [.int (-9223372036854775808), .string "a\"b\\c\n\t", .member "Mode.Fast"]⟩, ⟨"Plain", []⟩]
      fields := [{ name := "count", type := .int32, isStatic := true }]
      properties := [{ name := "Size", type := .named "demo.Length", attributes := [⟨"Plain", []⟩] }]
      methods := [
        { name := ".ctor", ret := .void
          body := some ⟨#[], false, [.slot .ldarg 0, .call .call ⟨"demo.Base", ".ctor", true, [], .void⟩, .simple .ret]⟩ },
        { name := "run", access := .pub, ret := .int32
          params := [{ name := "x", type := .string, attributes := [⟨"demo.Tag", [.int 7]⟩] }]
          body := some ⟨#[.int64, .object], true,
            [.ldcI8 (-1), .slot .stloc 1, .ldstr "", .simple .pop, .field .ldsfld ⟨"demo.Probe", "count", .int32⟩,
              .ldcI4 (-2147483648), .branch .beq target, .ldcI4 3, .simple .ret]⟩ },
        { name := "idle", isStatic := true, ret := .void, body := some ⟨#[], false, []⟩ },
        { name := "missing", ret := .bool }] }]

/-- With a branch to the first instruction the module is read back from its text; with one behind the last
instruction, its text is complained of. -/
theorem parse_text_annotated :
    ((annotated 0).TextWellFormed ∧ parse (annotated 0).text = ⟨some (annotated 0).assignIds, []⟩) ∧
    ((parse (annotated 0).text).complaints = [] ∧ ∃ m, parse (annotated 0).text = ⟨some m, []⟩ ∧
      m.TextWellFormed ∧ parse m.text = ⟨some m, []⟩) ∧
    ((annotated 9).WellNamed ∧ ¬ (annotated 9).TargetsInRange ∧
      (parse (annotated 9).text).complaints ≠ []) := by
  have hwell : (annotated 0).TextWellFormed := by decide +kernel
  have hparse := parse_text.1 (annotated 0) hwell
  have hcomplaints : (parse (annotated 0).text).complaints = [] := by rw [hparse]
  have hnamed : (annotated 9).WellNamed := by decide +kernel
  have hrange : ¬ (annotated 9).TargetsInRange := by decide
  exact ⟨⟨hwell, hparse⟩, ⟨hcomplaints, parse_text.2.1 _ hcomplaints⟩, hnamed, hrange,
    parse_text.2.2 _ hnamed hrange⟩

end Module

end AdviceWeaving
