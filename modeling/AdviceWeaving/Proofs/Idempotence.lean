import AdviceWeaving.Proofs.Inert
import AdviceWeaving.Proofs.JsonModules
import AdviceWeaving.Proofs.WovenText

/-!
# Weaving twice

What a pass leaves is inert, and it stays so when it is written down and read back: neither identifiers nor the
spelling of types matter for markers.  So a second pass with the same settings finds nothing, whether it gets the
woven module as it is or from a file (`Module.weave_idempotent`).
-/

namespace AdviceWeaving

/-! ### What does not matter for markers -/

private theorem TypeDecl.inert_withoutId {t : TypeDecl} {settings : Settings} :
    t.withoutId.Inert settings ↔ t.Inert settings := by
  have hcount (x : Method) : x.withoutId.countMarkers settings.markers = x.countMarkers settings.markers :=
    rfl
  constructor
  · rintro ⟨hinjection, hadvice⟩
    exact ⟨hinjection, fun hsweeper x hx => hcount x ▸ hadvice hsweeper _ (List.mem_map_of_mem hx)⟩
  · rintro ⟨hinjection, hadvice⟩
    exact ⟨hinjection, fun hsweeper => List.forall_mem_map.2 fun x hx => hadvice hsweeper x hx⟩

private theorem TypeDecl.Inert.respelled {t : TypeDecl} {settings : Settings} (h : t.Inert settings) :
    t.respelled.Inert settings where
  injection := h.injection
  advice hsweeper := List.forall_mem_map.2 fun x hx => by
    have hcount : x.respelled.countMarkers settings.markers = x.countMarkers settings.markers := by
      simp only [Method.countMarkers, Method.respelled, List.flatMap_map, Param.respelled]
    rw [hcount]
    exact h.advice hsweeper x hx

namespace Module

variable {m : Module} {settings : Settings}

private theorem inert_assignIds : m.assignIds.Inert settings ↔ m.Inert settings := by
  have hwithout (m : Module) : m.Inert settings ↔ ∀ t ∈ m.types.map (·.withoutId), t.Inert settings := by
    simp only [Inert, List.forall_mem_map, TypeDecl.inert_withoutId]
  rw [hwithout, withoutId_assignIds, ← hwithout]

private theorem Inert.respelled (h : m.Inert settings) : m.respelled.Inert settings :=
  List.forall_mem_map.2 fun t ht => (h t ht).respelled

private theorem numbered_assignIds (m : Module) : m.assignIds.Numbered :=
  numbered_ofTypes m.name m.types

/-! ### Writing and reading -/

private theorem toJson_assignIds (m : Module) : m.assignIds.toJson = m.toJson := by
  have hmethod (x : Method) : x.withoutId.toJson = x.toJson := rfl
  have htype (t : TypeDecl) : t.withoutId.toJson = t.toJson := by
    simp only [TypeDecl.toJson, TypeDecl.withoutId, Json.ofList, List.map_map, Function.comp_def, hmethod]
  have htypes (ts : List TypeDecl) :
      Json.ofList TypeDecl.toJson (ts.map (·.withoutId)) = Json.ofList TypeDecl.toJson ts := by
    simp only [Json.ofList, List.map_map, Function.comp_def, htype]
  have hname : m.assignIds.name = m.name := rfl
  rw [Module.toJson, ← htypes, withoutId_assignIds, htypes, hname]
  rfl

end Module

/-- What is decoded from a text is written as it is. -/
theorem Encoding.textWellFormed_of_decode {source : String} {m : Module}
    (h : Encoding.decode source .text = .ok m) : m.TextWellFormed := by
  have hparse : parse source = ⟨some m, []⟩ := by
    simp only [decode] at h
    split at h
    · next heq =>
      cases h
      exact heq
    · cases h
  obtain ⟨m', hm', hwell, -⟩ := textWellFormed_of_parse (congrArg Parsed.complaints hparse)
  obtain rfl : m = m' := Option.some.inj (congrArg Parsed.module? (hparse.symm.trans hm'))
  exact hwell

theorem Encoding.decode_encode_text {m : Module} (h : m.Spelled) :
    Encoding.decode (Encoding.encode m .text) .text = .ok m.respelled.assignIds := by
  simp only [decode, encode, h.parse_eq]

namespace Module

variable {encoding : Encoding} {source : String} {m m₁ : Module} {settings : Settings}
  {report : PassReport}

/-- What a pass leaves can be written down and read back; what is read is inert, and is written alike. -/
theorem exists_decode_encode_of_weave (decoded : encoding.decode source = .ok m)
    (woven : m.weave settings = (.ok report, m₁)) :
    ∃ m₂, encoding.decode (encoding.encode m₁) = .ok m₂ ∧ encoding.encode m₂ = encoding.encode m₁ ∧
      m₂.Numbered ∧ m₂.Inert settings := by
  have hm := numbered_of_decode decoded
  have hinert := inert_of_weave hm woven
  cases encoding with
  | text =>
    have hspelled := spelled_of_weave hm (Encoding.textWellFormed_of_decode decoded).spelled woven
    exact ⟨m₁.respelled.assignIds, Encoding.decode_encode_text hspelled,
      (text_assignIds _).trans m₁.text_respelled, numbered_assignIds _, inert_assignIds.2 hinert.respelled⟩
  | json =>
    refine ⟨m₁.assignIds, Encoding.decode_encode_json m₁, ?_, numbered_assignIds _,
      inert_assignIds.2 hinert⟩
    simp only [Encoding.encode, toJson_assignIds]

/-- Weaving is idempotent.  A second pass with the same settings succeeds on the woven module, changes nothing in it,
counts nothing, defines nothing and tells no more than verification does; and so does one on what is read back when
the woven module has been written down in the encoding of the source. -/
theorem weave_idempotent (decoded : encoding.decode source = .ok m)
    (woven : m.weave settings = (.ok report, m₁)) :
    (∃ again, m₁.weave settings = (.ok again, m₁) ∧ again.tally = {} ∧ again.definitions = [] ∧
      again.diagnostics = if settings.verify then m₁.verify.diagnostics else []) ∧
    ∃ m₂, encoding.decode (encoding.encode m₁) = .ok m₂ ∧ encoding.encode m₂ = encoding.encode m₁ ∧
      ∃ again, m₂.weave settings = (.ok again, m₂) ∧ again.tally = {} ∧ again.definitions = [] ∧
        again.diagnostics = if settings.verify then m₂.verify.diagnostics else [] := by
  obtain ⟨vs, _, hvs, -⟩ := weave_eq_ok_iff.1 woven
  have hquiet {m : Module} (hm : m.Numbered) (h : m.Inert settings) :
      ∃ again, m.weave settings = (.ok again, m) ∧ again.tally = {} ∧ again.definitions = [] ∧
        again.diagnostics = if settings.verify then m.verify.diagnostics else [] :=
    ⟨m.quietReport settings, weave_of_inert hm h hvs, rfl, rfl, rfl⟩
  have hm := numbered_of_decode decoded
  obtain ⟨m₂, hdecode, hencode, hm₂, hinert⟩ := exists_decode_encode_of_weave decoded woven
  exact ⟨hquiet (numbered_of_weave hm woven) (inert_of_weave hm woven), m₂, hdecode, hencode,
    hquiet hm₂ hinert⟩

/-- The sample, woven twice, and woven again from the text of what has come out. -/
theorem weave_idempotent_sample :
    ∃ report m₁ again m₂ again', Sample.module.weave Sample.settings = (.ok report, m₁) ∧
      m₁.weave Sample.settings = (.ok again, m₁) ∧ again.tally = {} ∧
      Encoding.text.decode (Encoding.text.encode m₁) = .ok m₂ ∧
      m₂.weave Sample.settings = (.ok again', m₂) ∧ again'.tally = {} := by
  obtain ⟨report, m₁, hweave, _⟩ := Sample.exists_weave
  obtain ⟨⟨again, hagain, htally, -⟩, m₂, hdecode, -, again', hagain', htally', -⟩ :=
    weave_idempotent Sample.decode_source hweave
  exact ⟨report, m₁, again, m₂, again', hweave, hagain, htally, hdecode, hagain', htally'⟩

end Module

end AdviceWeaving
