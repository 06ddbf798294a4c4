import AdviceWeaving.Proofs.JsonModules
import AdviceWeaving.Proofs.Numbering
import AdviceWeaving.Proofs.RoundTrip

/-!
# JSON round trip

Whatever a module is, it is read back from its JSON text, in either layout and with a line break behind it, with all
that is written of it; types and methods are numbered in declaration order.  What has been read is numbered so already,
and is read back as it is (`Module.json_round_trip`).
-/

namespace AdviceWeaving

namespace Module

/-- JSON round trip.  Every module is read back from its JSON text, with identifiers in declaration order and all else
as it was, and what has been read from text, complained of or not, is read back from JSON as the same. -/
theorem json_round_trip :
    (∀ m : Module, ofJson m.toJson.pretty = .ok m.assignIds ∧ ofJson m.toJson.compact = .ok m.assignIds ∧
      Encoding.decode (Encoding.encode m .json) .json = .ok m.assignIds ∧
      m.assignIds.name = m.name ∧ m.assignIds.types.map (·.withoutId) = m.types.map (·.withoutId) ∧
      m.assignIds.types.map (·.id) = (List.range m.types.length).map TypeId.mk ∧
      methodIds m.assignIds.types = (List.range (methodIds m.types).length).map MethodId.mk) ∧
    ∀ source m, (parse source).module? = some m →
      Encoding.decode (Encoding.encode m .json) .json = .ok m := by
  have hlayout (m : Module) {layout : Json.Layout} (h : layout.IsBlank) :
      ofJson (m.toJson.text layout) = .ok m.assignIds := by
    have hofJson : ofJson (m.toJson.text layout ++ "") = .ok m.assignIds :=
      m.ofJson_text h (by simp [Json.Blank])
    rwa [String.append_empty] at hofJson
  refine ⟨fun m => ⟨hlayout m Json.isBlank_pretty, hlayout m Json.isBlank_compact,
    Encoding.decode_encode_json m, rfl, m.withoutId_assignIds, m.ids_assignIds⟩, fun source m h => ?_⟩
  obtain ⟨name, types, rfl⟩ := exists_ofTypes_of_parse h
  rw [Encoding.decode_encode_json, ofTypes, assignIds_assignIds]

/-- Every kind of member, argument and operand, with extreme numbers and with names that are escaped. -/
theorem json_round_trip_annotated :
    ofJson (annotated 18446744073709551615).toJson.pretty = .ok (annotated 18446744073709551615).assignIds ∧
      ∃ m, (parse (annotated 0).text).module? = some m ∧
        Encoding.decode (Encoding.encode m .json) .json = .ok m := by
  have hwell : (annotated 0).TextWellFormed := by decide +kernel
  have hm : (parse (annotated 0).text).module? = some (annotated 0).assignIds := by
    rw [parse_text_of_textWellFormed hwell]
  exact ⟨(json_round_trip.1 _).1, _, hm, json_round_trip.2 _ _ hm⟩

end Module

end AdviceWeaving
