import StorageSlots.Json.TextLaws
import StorageSlots.Proofs.Spelling

/-!
A source unit is read back from its text.

The value that a unit is written as has only numbers that JSON can spell, so it is read back from its
compact and from its indented text; and it is one of the spellings of the unit.
-/

namespace StorageSlots

theorem Declaration.legible_toJson (d : Declaration) : d.toJson.Legible := by
  refine .fields ?_
  simp only [List.forall_mem_cons]
  exact ⟨.string _, .string _, .option .natural _, .string _, .bool _, .bool _, by simp⟩

theorem RecordDeclaration.legible_toJson (record : RecordDeclaration) : record.toJson.Legible := by
  refine .fields ?_
  simp only [List.forall_mem_cons]
  exact ⟨.string _, .list Declaration.legible_toJson _, by simp⟩

theorem Contract.legible_toJson (contract : Contract) : contract.toJson.Legible := by
  refine .fields ?_
  simp only [List.forall_mem_cons]
  exact ⟨.string _, .list Declaration.legible_toJson _, .list RecordDeclaration.legible_toJson _,
    by simp⟩

namespace SourceUnit

theorem legible_toJson (source : SourceUnit) : source.toJson.Legible := by
  refine .fields ?_
  simp only [List.forall_mem_cons]
  exact ⟨.list Contract.legible_toJson _, by simp⟩

theorem ofJson_toJson {source : SourceUnit} (h : source.SizesFit) :
    ofJson source.toJson = .ok source :=
  ofJson_of_spelled h source.spelled_toJson

theorem parse_render {source : SourceUnit} (h : source.SizesFit) :
    parse source.render = .ok source ∧ parse source.toJson.pretty = .ok source := by
  constructor
  · rw [render, parse_of_read? (Json.read?_compact source.legible_toJson), ofJson_toJson h]
    rfl
  · rw [parse_of_read? (Json.read?_pretty source.legible_toJson), ofJson_toJson h]
    rfl

/-- A unit with all kinds, with the extreme sizes and with characters that have to be escaped. -/
def sample : SourceUnit :=
  let quoted : Declaration := ⟨"a\"b\\c", "line\nbreak", some 0, .elementary, true, false⟩
  let largest : Declaration := ⟨"größe", "bell\x07", some (Text.wordLimit - 1), .array, false, true⟩
  let sizeless : Declaration := ⟨"", "😀\t/", none, .record, true, true⟩
  ⟨[⟨"empty", [], []⟩, ⟨"\x00", [quoted, largest], [⟨"S", [sizeless]⟩, ⟨"T", []⟩]⟩]⟩

theorem parse_render_sample :
    sample.SizesFit ∧ parse sample.render = .ok sample ∧ parse sample.toJson.pretty = .ok sample :=
  have hfit : sample.SizesFit := by decide
  ⟨hfit, parse_render hfit⟩

end SourceUnit

end StorageSlots
