import StorageSlots.Proofs.TypeSizes
import StorageSlots.SizeByte

/-!
How declarations get their sizes.

A record or an array takes whole slots. An elementary declaration has the size that it states, or
else the one of the type that its label names; it is refused if the stated size is out of range or
no type is named. What is kept in one byte is that size, unchanged.
-/

namespace StorageSlots

theorem byte?_eq_some_iff {n : Nat} {byte : UInt8} : byte? n = some byte ↔ byte.toNat = n := by
  rw [byte?, Option.ite_none_right_eq_some]
  constructor
  · rintro ⟨hlt, ⟨⟩⟩
    exact UInt8.toNat_ofNat_of_lt' hlt
  · rintro rfl
    exact ⟨byte.toNat_lt, congrArg some UInt8.ofNat_toNat⟩

theorem sizeByte?_eq_some_iff {size : Nat} {byte : UInt8} :
    sizeByte? size = some byte ↔ byte.toNat = size ∧ 1 ≤ size ∧ size ≤ slotBytes := by
  rw [sizeByte?]
  cases hbyte : byte? size with
  | none =>
    constructor
    · rintro ⟨⟩
    · rintro ⟨hsize, -⟩
      rw [byte?_eq_some_iff.mpr hsize] at hbyte
      cases hbyte
  | some found =>
    obtain rfl := byte?_eq_some_iff.mp hbyte
    dsimp only
    rw [Option.ite_none_right_eq_some, Option.some_inj, UInt8.toNat_inj]
    exact and_comm.trans (and_congr_left' eq_comm)

theorem Item.elementary_of_sizeByte? {name label : String} {size position : Nat} :
    (elementary name label size position).map byteSize =
      match sizeByte? size with
      | none => .error (.invalidByteSize name size)
      | some byte => .ok byte.toNat := by
  rw [elementary]
  cases hbyte : sizeByte? size with
  | none =>
    have hrange : ¬ (1 ≤ size ∧ size ≤ slotBytes) := by
      intro hrange
      have hsome : sizeByte? size = some (UInt8.ofNat size) := by
        refine sizeByte?_eq_some_iff.mpr ⟨UInt8.toNat_ofNat_of_lt' ?_, hrange⟩
        exact Nat.lt_of_le_of_lt hrange.2 (by decide)
      rw [hbyte] at hsome
      cases hsome
    rw [dif_neg hrange]
    rfl
  | some byte =>
    obtain ⟨hsize, hrange⟩ := sizeByte?_eq_some_iff.mp hbyte
    rw [dif_pos hrange]
    exact congrArg Except.ok hsize.symm

namespace Declaration

variable {declaration : Declaration} {position bytes : Nat} {fault : InputFault}

/-- The size that a declaration is laid out with. -/
inductive HasSize (declaration : Declaration) : Nat → Prop
  | whole : declaration.kind ≠ .elementary → HasSize declaration slotBytes
  | stated {size} : declaration.kind = .elementary → declaration.size = some size →
      1 ≤ size → size ≤ slotBytes → HasSize declaration size
  | inferred {type} : declaration.kind = .elementary → declaration.size = none →
      ElementaryType.parse declaration.label = some type → HasSize declaration type.sizeBytes

/-- What keeps a declaration from being laid out. -/
inductive HasFault (declaration : Declaration) : InputFault → Prop
  | invalidByteSize {size} : declaration.kind = .elementary → declaration.size = some size →
      size = 0 ∨ slotBytes < size → HasFault declaration (.invalidByteSize declaration.name size)
  | unknownSize : declaration.kind = .elementary → declaration.size = none →
      ElementaryType.parse declaration.label = none →
      HasFault declaration (.unknownSize declaration.name declaration.label)

theorem HasSize.admits (h : declaration.HasSize bytes) : declaration.kind.Admits bytes := by
  cases h with
  | whole _ => exact ItemKind.admits_slotBytes _
  | stated hkind _ hpos hle => exact ⟨hpos, hle, fun hne => absurd hkind hne⟩
  | inferred hkind _ hparse =>
    obtain ⟨hpos, hle⟩ := (ElementaryType.bounded_of_parse hparse).sizeBytes_mem
    exact ⟨hpos, hle, fun hne => absurd hkind hne⟩

theorem resolve_of_hasSize (h : declaration.HasSize bytes) (position : Nat) :
    declaration.resolve position =
      .ok ⟨declaration.name, declaration.label, bytes, declaration.kind, position, h.admits⟩ := by
  obtain ⟨name, label, size, kind, dynamic, inherited⟩ := declaration
  cases h with
  | whole hkind =>
    cases kind with
    | elementary => exact absurd rfl hkind
    | record | array => rfl
  | stated hkind hsize hpos hle =>
    cases hkind
    cases hsize
    exact dif_pos ⟨hpos, hle⟩
  | inferred hkind hsize hparse =>
    cases hkind
    cases hsize
    simp only [resolve, elementarySize?, hparse, Option.map_some]
    exact dif_pos (ElementaryType.bounded_of_parse hparse).sizeBytes_mem

theorem resolve_of_hasFault (h : declaration.HasFault fault) (position : Nat) :
    declaration.resolve position = .error fault := by
  cases h with
  | invalidByteSize hkind hsize hrange =>
    simp only [resolve, hkind, elementarySize?, hsize]
    exact dif_neg (by omega)
  | unknownSize hkind hsize hparse =>
    simp only [resolve, hkind, elementarySize?, hsize, hparse, Option.map_none]

theorem hasSize_or_hasFault (declaration : Declaration) :
    (∃ size, declaration.HasSize size) ∨ ∃ fault, declaration.HasFault fault := by
  by_cases hkind : declaration.kind = .elementary
  · cases hsize : declaration.size with
    | some size =>
      by_cases hrange : 1 ≤ size ∧ size ≤ slotBytes
      · exact .inl ⟨size, .stated hkind hsize hrange.1 hrange.2⟩
      · exact .inr ⟨_, .invalidByteSize hkind hsize (by omega)⟩
    | none =>
      cases hparse : ElementaryType.parse declaration.label with
      | some type => exact .inl ⟨_, .inferred hkind hsize hparse⟩
      | none => exact .inr ⟨_, .unknownSize hkind hsize hparse⟩
  · exact .inl ⟨slotBytes, .whole hkind⟩

theorem resolve_eq_ok_iff {item : Item} : declaration.resolve position = .ok item ↔
    declaration.HasSize item.byteSize ∧ item.name = declaration.name ∧
      item.label = declaration.label ∧ item.kind = declaration.kind ∧ item.position = position := by
  constructor
  · intro h
    rcases hasSize_or_hasFault declaration with ⟨bytes, hsize⟩ | ⟨fault, hfault⟩
    · rw [resolve_of_hasSize hsize] at h
      cases h
      exact ⟨hsize, rfl, rfl, rfl, rfl⟩
    · rw [resolve_of_hasFault hfault] at h
      cases h
  · rintro ⟨hsize, hname, hlabel, hkind, hposition⟩
    rw [resolve_of_hasSize hsize]
    obtain ⟨name, label, byteSize, kind, place, admitted⟩ := item
    cases hname
    cases hlabel
    cases hkind
    cases hposition
    rfl

theorem exists_resolve_eq_ok_iff :
    (∃ item, declaration.resolve position = .ok item) ↔ ∃ bytes, declaration.HasSize bytes := by
  constructor
  · rintro ⟨item, h⟩
    exact ⟨_, (resolve_eq_ok_iff.mp h).1⟩
  · rintro ⟨bytes, h⟩
    exact ⟨_, resolve_of_hasSize h position⟩

theorem resolve_eq_error_iff : declaration.resolve position = .error fault ↔
    declaration.HasFault fault := by
  constructor
  · intro h
    rcases hasSize_or_hasFault declaration with ⟨bytes, hsize⟩ | ⟨found, hfault⟩
    · rw [resolve_of_hasSize hsize] at h
      cases h
    · rw [resolve_of_hasFault hfault] at h
      cases h
      exact hfault
  · intro h
    exact resolve_of_hasFault h position

theorem resolve_eq_unknownSize_iff (hkind : declaration.kind = .elementary)
    (hsize : declaration.size = none) (position : Nat) :
    declaration.resolve position = .error (.unknownSize declaration.name declaration.label) ↔
      ElementaryType.parse declaration.label = none := by
  rw [resolve_eq_error_iff]
  constructor
  · intro h
    cases h with
    | unknownSize _ _ hparse => exact hparse
  · intro hparse
    exact .unknownSize hkind hsize hparse

theorem map_toNat_sizeByte (declaration : Declaration) (position : Nat) :
    declaration.sizeByte.map UInt8.toNat = (declaration.resolve position).map Item.byteSize := by
  rw [sizeByte, resolve]
  cases declaration.kind with
  | record | array => rfl
  | elementary =>
    cases declaration.elementarySize? with
    | none => rfl
    | some size =>
      dsimp only
      rw [Item.elementary_of_sizeByte?]
      cases sizeByte? size with
      | none => rfl
      | some byte => rfl

theorem resolve_sizes (declaration : Declaration) (position : Nat) :
    (∀ item, declaration.resolve position = .ok item ↔
      declaration.HasSize item.byteSize ∧ item.name = declaration.name ∧
        item.label = declaration.label ∧ item.kind = declaration.kind ∧
          item.position = position) ∧
    ((∃ item, declaration.resolve position = .ok item) ↔ ∃ bytes, declaration.HasSize bytes) ∧
    (∀ fault, declaration.resolve position = .error fault ↔ declaration.HasFault fault) ∧
    declaration.sizeByte.map UInt8.toNat = (declaration.resolve position).map Item.byteSize ∧
    ∀ label type, ElementaryType.parse label = some type →
      1 ≤ type.sizeBytes ∧ type.sizeBytes ≤ slotBytes ∧ 8 * type.sizeBytes = type.storedBits := by
  refine ⟨fun _ => resolve_eq_ok_iff, exists_resolve_eq_ok_iff, fun _ => resolve_eq_error_iff,
    map_toNat_sizeByte declaration position, ?_⟩
  intro label type hparse
  have hbounded := ElementaryType.bounded_of_parse hparse
  obtain ⟨hpos, hle⟩ := hbounded.sizeBytes_mem
  exact ⟨hpos, hle, hbounded.eight_mul_sizeBytes⟩

theorem resolve_sizes_padded :
    ElementaryType.parse " int064\t" = some (.int 64) ∧
    1 ≤ (ElementaryType.int 64).sizeBytes ∧ (ElementaryType.int 64).sizeBytes ≤ slotBytes ∧
      8 * (ElementaryType.int 64).sizeBytes = (ElementaryType.int 64).storedBits ∧
    (∃ item, resolve { name := "fee", label := " int064\t" } 2 = .ok item) ∧
    resolve { name := "tax", label := "int64", size := some 264 } 3 =
      .error (.invalidByteSize "tax" 264) := by
  have hparse : ElementaryType.parse " int064\t" = some (.int 64) := by decide +kernel
  obtain ⟨-, hsuccess, -, -, hbounded⟩ := resolve_sizes { name := "fee", label := " int064\t" } 2
  obtain ⟨-, -, hfault, -, -⟩ :=
    resolve_sizes { name := "tax", label := "int64", size := some 264 } 3
  obtain ⟨hpos, hle, hexact⟩ := hbounded _ _ hparse
  exact ⟨hparse, hpos, hle, hexact, hsuccess.mpr ⟨_, .inferred rfl rfl hparse⟩,
    (hfault _).mpr (.invalidByteSize rfl rfl (.inr (by decide)))⟩

end Declaration

end StorageSlots
