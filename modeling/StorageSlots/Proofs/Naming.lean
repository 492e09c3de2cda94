import StorageSlots.ElementaryType
import StorageSlots.Text.NumeralLaws
import Mathlib.Data.List.Infix

/-!
Which labels name which types.

`Names label type` has one case for each way in which a label without surrounding blanks names a
type. Prefixes overlap: what begins like an integer may be an interface, and what begins like a byte
may be several. But a numeral begins with a digit or a sign, so no label falls under two cases.
-/

namespace StorageSlots.ElementaryType

open Text (Numeral)

inductive Names : List Char → ElementaryType → Prop
  | bool : Names "bool".toList .bool
  | address : Names "address".toList .address
  | payable : Names "address payable".toList .address
  | byte : Names "byte".toList (.bytes 1)
  | uint : Names "uint".toList (.uint slotBits)
  | int : Names "int".toList (.int slotBits)
  | function {rest} : Names ("function".toList ++ rest)
      (.function (isExternal ("function".toList ++ rest)))
  | enum {rest} : Names ("enum ".toList ++ rest) .enum
  | contract {rest} : Names ("contract ".toList ++ rest) .address
  | interface {rest} : Names ("interface ".toList ++ rest) .address
  | sizedUint {cs bits} : Numeral cs bits → 8 ≤ bits → bits ≤ slotBits → bits % 8 = 0 →
      Names ("uint".toList ++ cs) (.uint bits)
  | sizedInt {cs bits} : Numeral cs bits → 8 ≤ bits → bits ≤ slotBits → bits % 8 = 0 →
      Names ("int".toList ++ cs) (.int bits)
  | sizedBytes {cs length} : Numeral cs length → 1 ≤ length → length ≤ slotBytes →
      Names ("bytes".toList ++ cs) (.bytes length)

variable {label cs : List Char} {type : ElementaryType}

/-! ### Numbers in labels -/

theorem bitWidth?_eq_some_iff {bits : Nat} : bitWidth? cs = some bits ↔
    Numeral cs bits ∧ 8 ≤ bits ∧ bits ≤ slotBits ∧ bits % 8 = 0 := by
  have hbind : bitWidth? cs = (Text.word64? cs).bind fun n =>
      if 8 ≤ n ∧ n ≤ slotBits ∧ n % 8 = 0 then some n else none := by
    rw [bitWidth?]
    cases Text.word64? cs <;> rfl
  rw [hbind]
  exact Text.word64?_bounded_eq_some_iff fun _ h => Nat.lt_of_le_of_lt h.2.1 (by decide)

theorem byteLength?_eq_some_iff {length : Nat} : byteLength? cs = some length ↔
    Numeral cs length ∧ 1 ≤ length ∧ length ≤ slotBytes := by
  have hbind : byteLength? cs = (Text.word64? cs).bind fun n =>
      if 1 ≤ n ∧ n ≤ slotBytes then some n else none := by
    rw [byteLength?]
    cases Text.word64? cs <;> rfl
  rw [hbind]
  exact Text.word64?_bounded_eq_some_iff fun _ h => Nat.lt_of_le_of_lt h.2 (by decide)

/-! ### One case per name -/

theorem names_of_sized? (h : sized? label = some type) : Names label type := by
  rw [sized?] at h
  split at h
  · next cs hcs =>
    obtain rfl := List.isPrefixOf?_eq_some_iff_append_eq.mp hcs
    obtain ⟨bits, hbits, rfl⟩ := Option.map_eq_some_iff.mp h
    obtain ⟨hnumeral, hmin, hmax, hwhole⟩ := bitWidth?_eq_some_iff.mp hbits
    exact .sizedUint hnumeral hmin hmax hwhole
  · split at h
    · next cs hcs =>
      obtain rfl := List.isPrefixOf?_eq_some_iff_append_eq.mp hcs
      obtain ⟨bits, hbits, rfl⟩ := Option.map_eq_some_iff.mp h
      obtain ⟨hnumeral, hmin, hmax, hwhole⟩ := bitWidth?_eq_some_iff.mp hbits
      exact .sizedInt hnumeral hmin hmax hwhole
    · split at h
      · next cs hcs =>
        obtain rfl := List.isPrefixOf?_eq_some_iff_append_eq.mp hcs
        obtain ⟨length, hlength, rfl⟩ := Option.map_eq_some_iff.mp h
        obtain ⟨hnumeral, hmin, hmax⟩ := byteLength?_eq_some_iff.mp hlength
        exact .sizedBytes hnumeral hmin hmax
      · cases h

theorem names_of_ite {p : Prop} [Decidable p] {first : ElementaryType}
    {rest : Option ElementaryType} (hfirst : p → Names label first)
    (hrest : rest = some type → Names label type) :
    (if p then some first else rest) = some type → Names label type := by
  intro h
  split at h
  · next hp =>
    cases h
    exact hfirst hp
  · exact hrest h

theorem names_of_ofTrimmed? : ofTrimmed? label = some type → Names label type := by
  have hstart {front : List Char} {first : ElementaryType}
      (hnames : ∀ rest, label = front ++ rest → Names label first) :
      front.isPrefixOf label = true → Names label first := by
    intro h
    obtain ⟨rest, hrest⟩ := List.isPrefixOf_iff_prefix.mp h
    exact hnames rest hrest.symm
  rw [ofTrimmed?]
  refine names_of_ite (fun h => h ▸ .bool) (names_of_ite ?_ ?_)
  · rintro (rfl | rfl)
    · exact .address
    · exact .payable
  refine names_of_ite (fun h => h ▸ .byte) (names_of_ite (fun h => h ▸ .uint) ?_)
  refine names_of_ite (fun h => h ▸ .int) (names_of_ite (hstart ?_) ?_)
  · rintro rest rfl
    exact .function
  refine names_of_ite (hstart ?_) (names_of_ite (hstart ?_) (names_of_ite (hstart ?_) ?_))
  · rintro rest rfl
    exact .enum
  · rintro rest rfl
    exact .contract
  · rintro rest rfl
    exact .interface
  exact names_of_sized?

section Sized

variable {n : Nat} (h : Numeral cs n)
include h

theorem ofTrimmed?_uint : ofTrimmed? ("uint".toList ++ cs) = (bitWidth? cs).map uint := by
  obtain ⟨c, rest, rfl, -⟩ := h.exists_cons
  rfl

theorem ofTrimmed?_int : ofTrimmed? ("int".toList ++ cs) = (bitWidth? cs).map int := by
  obtain ⟨c, rest, rfl, hc⟩ := h.exists_cons
  have hplain : ¬ "interface ".toList.isPrefixOf ("int".toList ++ c :: rest) = true := by
    have hletter : 'e' ≠ c := by
      rintro rfl
      exact absurd hc (by decide)
    simp [hletter]
  exact if_neg hplain

theorem ofTrimmed?_bytes : ofTrimmed? ("bytes".toList ++ cs) = (byteLength? cs).map bytes := by
  obtain ⟨c, rest, rfl, -⟩ := h.exists_cons
  rfl

end Sized

theorem ofTrimmed?_of_names (h : Names label type) : ofTrimmed? label = some type := by
  cases h with
  | bool | address | payable | byte | uint | int => rfl
  | function | enum | contract | interface => rfl
  | sizedUint hnumeral hmin hmax hwhole =>
    rw [ofTrimmed?_uint hnumeral, bitWidth?_eq_some_iff.mpr ⟨hnumeral, hmin, hmax, hwhole⟩]
    rfl
  | sizedInt hnumeral hmin hmax hwhole =>
    rw [ofTrimmed?_int hnumeral, bitWidth?_eq_some_iff.mpr ⟨hnumeral, hmin, hmax, hwhole⟩]
    rfl
  | sizedBytes hnumeral hmin hmax =>
    rw [ofTrimmed?_bytes hnumeral, byteLength?_eq_some_iff.mpr ⟨hnumeral, hmin, hmax⟩]
    rfl

theorem ofTrimmed?_eq_some_iff : ofTrimmed? label = some type ↔ Names label type :=
  ⟨names_of_ofTrimmed?, ofTrimmed?_of_names⟩

end StorageSlots.ElementaryType
