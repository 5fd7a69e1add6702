import EmbeddedStyles.Proofs.Json.Inversion
import EmbeddedStyles.Proofs.Metadata.Decoding

namespace EmbeddedStyles

open Json (Decoder)
open Source (Position Span Replacement)

namespace Source

theorem Position.decoder_inverts : Position.decoder.Inverts Position.toJson := by
  rintro ⟨line, column⟩
  simp [Position.decoder, Position.record, Json.Record.decoder, Position.toJson,
    Json.Record.objectValue, Json.Record.field?, Decoder.map, Decoder.u32_inverts _, Json.required]

theorem Span.decoder_inverts : Span.decoder.Inverts Span.toJson := by
  rintro ⟨start, stop⟩
  simp [Span.decoder, Span.record, Json.Record.decoder, Span.toJson, Json.Record.objectValue,
    Json.Record.field?, Decoder.map, Position.decoder_inverts _, Json.required]

theorem Replacement.decoder_inverts : Replacement.decoder.Inverts Replacement.toJson := by
  rintro ⟨span, length⟩
  simp [Replacement.decoder, Replacement.record, Json.Record.decoder, Replacement.toJson,
    Json.Record.objectValue, Json.Record.field?, Decoder.map, Span.decoder_inverts _,
    Decoder.u32_inverts _, Json.required]

theorem Position.restorable_toJson {limit : Nat} (p : Position) :
    p.toJson.Restorable (limit + 1) := by
  rw [Position.toJson, Json.restorable_object_iff]
  simp [Json.restorable_natJson]

theorem Span.restorable_toJson {limit : Nat} (s : Span) : s.toJson.Restorable (limit + 2) := by
  rw [Span.toJson, Json.restorable_object_iff]
  simp [Position.restorable_toJson]

theorem Replacement.restorable_toJson {limit : Nat} (r : Replacement) :
    r.toJson.Restorable (limit + 3) := by
  rw [Replacement.toJson, Json.restorable_object_iff]
  simp [Span.restorable_toJson, Json.restorable_natJson]

end Source

theorem Rule.decoder_inverts : Rule.decoder.Inverts Rule.toJson := by
  rintro ⟨displayName, cssText, start, className⟩
  have hstart := Position.decoder_inverts.optional (by simp [Position.toJson]) start
  have hclass (name : String) : Decoder.string.optional.value (.string name) = .ok (some name) :=
    rfl
  cases className <;>
    simp [Rule.decoder, Rule.record, Json.Record.decoder, Rule.toJson, Json.Record.objectValue,
      Json.Record.field?, Decoder.map, Decoder.string_inverts _, hstart, hclass, Json.required]

theorem Rule.restorable_toJson {limit : Nat} (r : Rule) : r.toJson.Restorable (limit + 2) := by
  obtain ⟨displayName, cssText, start, className⟩ := r
  rw [Rule.toJson, Json.restorable_object_iff]
  cases start <;> cases className <;>
    simp [Json.restorable_string, Json.restorable_null, Position.restorable_toJson]

namespace Metadata

variable {m : Metadata}

theorem decoder_toJson (h : (m.rules.map Prod.fst).Nodup) : decoder.value m.toJson = .ok m := by
  have hrules := Rule.decoder_inverts.entries m.rules
  have hreplacements : Replacement.decoder.list.value
      (.array (m.replacements.map Replacement.toJson)) = .ok m.replacements :=
    Decoder.value_list_map fun r _ => Replacement.decoder_inverts r
  simp [decoder, record, Json.Record.decoder, Metadata.toJson, Json.Record.objectValue,
    Json.Record.field?, Decoder.map, hrules, hreplacements, Rules.ofEntries_of_nodup h]

theorem restorable_toJson (m : Metadata) : m.toJson.Restorable Json.maxDepth := by
  rw [Metadata.toJson, Json.maxDepth, Json.restorable_object_iff]
  simp only [List.forall_mem_cons, List.not_mem_nil, IsEmpty.forall_iff, implies_true, and_true,
    Json.restorable_object_iff, Json.restorable_array_iff, List.forall_mem_map]
  exact ⟨fun entry _ => entry.2.restorable_toJson, fun r _ => r.restorable_toJson⟩

-- A report that is written and read again is the same report, its rules in the same order.
theorem ofText_compact (m : Metadata) (h : (m.rules.map Prod.fst).Nodup) :
    ofText m.toJson.compact = .ok m :=
  (ofText_eq_ok_iff (Json.parse_compact m.restorable_toJson)).mpr (decoder_toJson h)

-- Quotes, control characters and a character of four bytes, and each optional field once there and
-- once missing.
def escapedReport : Metadata where
  rules := [("b\"", ⟨"😀", "a\n\x1f", none, none⟩),
    ("a", ⟨"", "\\", some ⟨4294967295, 0⟩, some "c"⟩)]
  replacements := [⟨⟨⟨1, 2⟩, ⟨1, 9⟩⟩, 3⟩]

theorem ofText_compact_escapedReport :
    (escapedReport.rules.map Prod.fst).Nodup ∧
    escapedReport.toJson.compact =
      "\x7b\"rules\":\x7b\"b\\\"\":\x7b\"displayName\":\"😀\",\"cssText\":\"a\\n\\u001f\"," ++
      "\"start\":null\x7d,\"a\":\x7b\"displayName\":\"\",\"cssText\":\"\\\\\",\"start\":" ++
      "\x7b\"line\":4294967295,\"column\":0\x7d,\"className\":\"c\"\x7d\x7d,\"replacements\":" ++
      "[\x7b\"original\":\x7b\"start\":\x7b\"line\":1,\"column\":2\x7d,\"end\":\x7b\"line\":1," ++
      "\"column\":9\x7d\x7d,\"length\":3\x7d]\x7d" ∧
    ofText escapedReport.toJson.compact = .ok escapedReport :=
  ⟨by decide, by decide +kernel, ofText_compact escapedReport (by decide)⟩

end Metadata

end EmbeddedStyles
