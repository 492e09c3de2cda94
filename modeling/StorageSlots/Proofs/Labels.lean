import StorageSlots.Proofs.Naming
import StorageSlots.Proofs.Sizing
import StorageSlots.Text.BlankLaws

/-!
What labels are read as.

An integer type is `uint` or `int` with its width in bits behind it, or without one if it fills a
slot; a type of fixed bytes is `bytes` with their number, and `byte` is one of them. Labels of other
kinds of types name no type, except those that begin with a word after which nothing is checked.
-/

namespace StorageSlots

namespace ElementaryType

open Text (Numeral Trims)

variable {label : String} {t cs : List Char} {type : ElementaryType} {n : Nat}

theorem parse_eq_some_iff (ht : Trims label.toList t) : parse label = some type ↔ Names t type := by
  rw [parse, ht.trim_eq, ofTrimmed?_eq_some_iff]

theorem parse_eq_none_iff (ht : Trims label.toList t) :
    parse label = none ↔ ¬ ∃ type, Names t type := by
  simp only [Option.eq_none_iff_forall_ne_some, ne_eq, parse_eq_some_iff ht, not_exists]

/-! ### Integers and fixed bytes -/

theorem names_uint_iff : Names t (.uint n) ↔ t = "uint".toList ∧ n = slotBits ∨
    ∃ cs, t = "uint".toList ++ cs ∧ Numeral cs n ∧ 8 ≤ n ∧ n ≤ slotBits ∧ n % 8 = 0 := by
  constructor
  · intro h
    cases h with
    | uint => exact .inl ⟨rfl, rfl⟩
    | sizedUint hnumeral hmin hmax hwhole =>
      exact .inr ⟨_, rfl, hnumeral, hmin, hmax, hwhole⟩
  · rintro (⟨rfl, rfl⟩ | ⟨cs, rfl, hnumeral, hmin, hmax, hwhole⟩)
    · exact .uint
    · exact .sizedUint hnumeral hmin hmax hwhole

theorem names_int_iff : Names t (.int n) ↔ t = "int".toList ∧ n = slotBits ∨
    ∃ cs, t = "int".toList ++ cs ∧ Numeral cs n ∧ 8 ≤ n ∧ n ≤ slotBits ∧ n % 8 = 0 := by
  constructor
  · intro h
    cases h with
    | int => exact .inl ⟨rfl, rfl⟩
    | sizedInt hnumeral hmin hmax hwhole =>
      exact .inr ⟨_, rfl, hnumeral, hmin, hmax, hwhole⟩
  · rintro (⟨rfl, rfl⟩ | ⟨cs, rfl, hnumeral, hmin, hmax, hwhole⟩)
    · exact .int
    · exact .sizedInt hnumeral hmin hmax hwhole

theorem names_bytes_iff : Names t (.bytes n) ↔ t = "byte".toList ∧ n = 1 ∨
    ∃ cs, t = "bytes".toList ++ cs ∧ Numeral cs n ∧ 1 ≤ n ∧ n ≤ slotBytes := by
  constructor
  · intro h
    cases h with
    | byte => exact .inl ⟨rfl, rfl⟩
    | sizedBytes hnumeral hmin hmax => exact .inr ⟨_, rfl, hnumeral, hmin, hmax⟩
  · rintro (⟨rfl, rfl⟩ | ⟨cs, rfl, hnumeral, hmin, hmax⟩)
    · exact .byte
    · exact .sizedBytes hnumeral hmin hmax

theorem bitWidth?_eq_none (h : Numeral cs n) (hn : slotBits < n) : bitWidth? cs = none := by
  rw [Option.eq_none_iff_forall_ne_some]
  intro bits hbits
  obtain ⟨hnumeral, -, hmax, -⟩ := bitWidth?_eq_some_iff.mp hbits
  rw [h.unique hnumeral] at hn
  omega

theorem byteLength?_eq_none (h : Numeral cs n) (hn : slotBytes < n) : byteLength? cs = none := by
  rw [Option.eq_none_iff_forall_ne_some]
  intro length hlength
  obtain ⟨hnumeral, -, hmax⟩ := byteLength?_eq_some_iff.mp hlength
  rw [h.unique hnumeral] at hn
  omega

theorem parse_eq_none_of_overflow (ht : Trims label.toList t) (h : Numeral cs n)
    (hn : Text.wordLimit ≤ n) (hfront : t = "uint".toList ++ cs ∨ t = "int".toList ++ cs ∨
      t = "bytes".toList ++ cs) : parse label = none := by
  have hbits : slotBits < n := Nat.lt_of_lt_of_le (by decide) hn
  have hbytes : slotBytes < n := Nat.lt_of_lt_of_le (by decide) hn
  rw [parse, ht.trim_eq]
  rcases hfront with rfl | rfl | rfl
  · rw [ofTrimmed?_uint h, bitWidth?_eq_none h hbits, Option.map_none]
  · rw [ofTrimmed?_int h, bitWidth?_eq_none h hbits, Option.map_none]
  · rw [ofTrimmed?_bytes h, byteLength?_eq_none h hbytes, Option.map_none]

theorem parse_sized (ht : Trims label.toList t) :
    (∀ n, parse label = some (.uint n) ↔ t = "uint".toList ∧ n = 256 ∨
      ∃ cs, t = "uint".toList ++ cs ∧ Numeral cs n ∧ 8 ≤ n ∧ n ≤ 256 ∧ n % 8 = 0) ∧
    (∀ n, parse label = some (.int n) ↔ t = "int".toList ∧ n = 256 ∨
      ∃ cs, t = "int".toList ++ cs ∧ Numeral cs n ∧ 8 ≤ n ∧ n ≤ 256 ∧ n % 8 = 0) ∧
    (∀ n, parse label = some (.bytes n) ↔ t = "byte".toList ∧ n = 1 ∨
      ∃ cs, t = "bytes".toList ++ cs ∧ Numeral cs n ∧ 1 ≤ n ∧ n ≤ 32) ∧
    ∀ cs n, Numeral cs n → Text.wordLimit ≤ n →
      t = "uint".toList ++ cs ∨ t = "int".toList ++ cs ∨ t = "bytes".toList ++ cs →
        parse label = none :=
  ⟨fun _ => (parse_eq_some_iff ht).trans names_uint_iff,
    fun _ => (parse_eq_some_iff ht).trans names_int_iff,
    fun _ => (parse_eq_some_iff ht).trans names_bytes_iff,
    fun _ _ h hn hfront => parse_eq_none_of_overflow ht h hn hfront⟩

theorem parse_sized_padded :
    Trims " uint+0128\t".toList "uint+0128".toList ∧
    parse " uint+0128\t" = some (.uint 128) ∧
    Trims "bytes18446744073709551617".toList "bytes18446744073709551617".toList ∧
    parse "bytes18446744073709551617" = none := by
  have hpadded : Trims " uint+0128\t".toList "uint+0128".toList := Text.trims_iff.mpr (by decide)
  have hlong : Trims "bytes18446744073709551617".toList "bytes18446744073709551617".toList :=
    Text.trims_iff.mpr (by decide)
  have hwidth : Numeral "+0128".toList 128 := .plus (Text.digits?_eq_some_iff.mp (by decide))
  have hbeyond : Numeral "18446744073709551617".toList (Text.wordLimit + 1) :=
    .plain (Text.digits?_eq_some_iff.mp (by decide))
  obtain ⟨huint, -, -, -⟩ := parse_sized hpadded
  obtain ⟨-, -, -, hoverflow⟩ := parse_sized hlong
  exact ⟨hpadded, (huint 128).mpr (.inr ⟨_, rfl, hwidth, by decide, by decide, by decide⟩), hlong,
    hoverflow _ _ hbeyond (by decide) (.inr (.inr rfl))⟩

/-! ### Other kinds of types -/

def IsIdentifier (t : List Char) : Prop :=
  t ≠ [] ∧ ∀ c ∈ t, c.isAlphanum = true ∨ c = '_' ∨ c = '$'

/-- Labels of arrays, of mappings, of structs, and of types that the source itself names. -/
inductive Foreign (t : List Char) : Prop
  | array : t.getLast? = some ']' → Foreign t
  | mapping : "mapping".toList <+: t → Foreign t
  | struct : "struct ".toList <+: t → Foreign t
  | named : IsIdentifier t →
      t ∉ ["bool".toList, "address".toList, "byte".toList, "function".toList] →
      (∀ front ∈ ["uint".toList, "int".toList, "bytes".toList], ¬ front <+: t) → Foreign t

theorem isIdentifier_iff : IsIdentifier t ↔ t ≠ [] ∧
    t.all fun c => c.isAlphanum || c == '_' || c == '$' := by
  simp [IsIdentifier, or_assoc]

instance (t : List Char) : Decidable (IsIdentifier t) :=
  decidable_of_iff _ isIdentifier_iff.symm

theorem foreign_iff : Foreign t ↔ t.getLast? = some ']' ∨ "mapping".toList <+: t ∨
    "struct ".toList <+: t ∨ IsIdentifier t ∧
      t ∉ ["bool".toList, "address".toList, "byte".toList, "function".toList] ∧
      ∀ front ∈ ["uint".toList, "int".toList, "bytes".toList], ¬ front <+: t := by
  constructor
  · rintro (h | h | h | ⟨hidentifier, hother, hfront⟩)
    · exact .inl h
    · exact .inr (.inl h)
    · exact .inr (.inr (.inl h))
    · exact .inr (.inr (.inr ⟨hidentifier, hother, hfront⟩))
  · rintro (h | h | h | ⟨hidentifier, hother, hfront⟩)
    · exact .array h
    · exact .mapping h
    · exact .struct h
    · exact .named hidentifier hother hfront

instance (t : List Char) : Decidable (Foreign t) :=
  decidable_of_iff _ foreign_iff.symm

/-- The words after which nothing is checked. -/
def leadWords : List (List Char) :=
  ["function".toList, "enum ".toList, "contract ".toList, "interface ".toList]

theorem exists_names_of_leadWord {word : List Char} (hword : word ∈ leadWords)
    (ht : word <+: t) : ∃ type, Names t type := by
  obtain ⟨rest, rfl⟩ := ht
  simp only [leadWords, List.mem_cons, List.not_mem_nil, or_false] at hword
  rcases hword with rfl | rfl | rfl | rfl
  · exact ⟨_, .function⟩
  · exact ⟨_, .enum⟩
  · exact ⟨_, .contract⟩
  · exact ⟨_, .interface⟩

theorem not_foreign_append {front : List Char}
    (hfront : front ∈ ["uint".toList, "int".toList, "bytes".toList]) (h : Numeral cs n) :
    ¬ Foreign (front ++ cs) := by
  rintro (hlast | hstart | hstart | ⟨-, -, hnone⟩)
  · exact absurd (h.isDigit_of_mem_getLast? front _ hlast) (by decide)
  · simp only [List.mem_cons, List.not_mem_nil, or_false] at hfront
    rcases hfront with rfl | rfl | rfl <;> simp at hstart
  · simp only [List.mem_cons, List.not_mem_nil, or_false] at hfront
    rcases hfront with rfl | rfl | rfl <;> simp at hstart
  · exact hnone front hfront (List.prefix_append front cs)

theorem Foreign.exists_leadWord (h : Foreign t) (hnames : Names t type) :
    ∃ word ∈ leadWords, word <+: t := by
  cases hnames with
  | function | enum | contract | interface =>
    exact ⟨_, by simp [leadWords], List.prefix_append _ _⟩
  | bool | address | payable | byte | uint | int => exact absurd h (by decide)
  | sizedUint hnumeral | sizedInt hnumeral | sizedBytes hnumeral =>
    exact absurd h (not_foreign_append (by simp) hnumeral)

theorem Foreign.parse_eq_none_iff (h : Foreign t) (ht : Trims label.toList t) :
    parse label = none ↔ ∀ word ∈ leadWords, ¬ word <+: t := by
  rw [ElementaryType.parse_eq_none_iff ht]
  constructor
  · intro hnone word hword hstart
    exact hnone (exists_names_of_leadWord hword hstart)
  · rintro hall ⟨type, hnames⟩
    obtain ⟨word, hword, hstart⟩ := h.exists_leadWord hnames
    exact hall word hword hstart

theorem not_leadWord_of_start (h : "mapping".toList <+: t ∨ "struct ".toList <+: t) :
    ∀ word ∈ leadWords, ¬ word <+: t := by
  simp only [leadWords, List.forall_mem_cons, List.not_mem_nil, false_implies, implies_true,
    and_true]
  rcases h with ⟨rest, rfl⟩ | ⟨rest, rfl⟩ <;> simp

/-- A label of another kind of type names none, unless it begins with a word after which nothing is
checked. -/
theorem parse_foreign (ht : Trims label.toList t) (h : Foreign t) :
    (parse label = none ↔ ∀ word ∈ leadWords, ¬ word <+: t) ∧
    (∀ declaration : Declaration, declaration.label = label → declaration.kind = .elementary →
      declaration.size = none → ∀ position,
        (declaration.resolve position = .error (.unknownSize declaration.name label) ↔
          ∀ word ∈ leadWords, ¬ word <+: t)) ∧
    ("mapping".toList <+: t ∨ "struct ".toList <+: t → parse label = none) := by
  have hparse := h.parse_eq_none_iff ht
  refine ⟨hparse, ?_, fun hstart => hparse.mpr (not_leadWord_of_start hstart)⟩
  rintro declaration rfl hkind hsize position
  exact (Declaration.resolve_eq_unknownSize_iff hkind hsize position).trans hparse

theorem parse_foreign_array :
    Trims "uint256[]".toList "uint256[]".toList ∧ Foreign "uint256[]".toList ∧
    parse "uint256[]" = none ∧
    Declaration.resolve { name := "list", label := "uint256[]" } 0 =
      .error (.unknownSize "list" "uint256[]") := by
  have ht : Trims "uint256[]".toList "uint256[]".toList := Text.trims_iff.mpr (by decide)
  have hforeign : Foreign "uint256[]".toList := by decide
  have hplain : ∀ word ∈ leadWords, ¬ word <+: "uint256[]".toList := by decide
  obtain ⟨hparse, hresolve, -⟩ := parse_foreign ht hforeign
  exact ⟨ht, hforeign, hparse.mpr hplain,
    (hresolve { name := "list", label := "uint256[]" } rfl rfl rfl 0).mpr hplain⟩

theorem parse_foreign_guessed :
    Foreign "enum Direction[]".toList ∧ parse "enum Direction[]" = some .enum ∧
    (∃ item, Declaration.resolve { name := "moves", label := "enum Direction[]" } 0 = .ok item ∧
      item.byteSize = 1) ∧
    Foreign "functionId".toList ∧ parse "functionId" = some (.function false) ∧
    ∃ item, Declaration.resolve { name := "id", label := "functionId" } 0 = .ok item ∧
      item.byteSize = 8 := by
  have henum : parse "enum Direction[]" = some .enum := by decide +kernel
  have hfunction : parse "functionId" = some (.function false) := by decide +kernel
  have hmoves : Declaration.HasSize { name := "moves", label := "enum Direction[]" }
      (sizeBytes .enum) := .inferred rfl rfl henum
  have hid : Declaration.HasSize { name := "id", label := "functionId" }
      (sizeBytes (.function false)) := .inferred rfl rfl hfunction
  exact ⟨by decide, henum, ⟨_, Declaration.resolve_of_hasSize hmoves 0, rfl⟩, by decide,
    hfunction, _, Declaration.resolve_of_hasSize hid 0, rfl⟩

end ElementaryType

end StorageSlots
