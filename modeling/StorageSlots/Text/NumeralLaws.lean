import StorageSlots.Text.Numeral
import Mathlib.Data.List.Basic
import Mathlib.Data.List.Induction

/-!
The grammar of numerals.

`Decimal cs n` builds a digit sequence of value `n` digit by digit, and `Numeral` adds the optional
sign. `digits?` and `word64?` read exactly these.
-/

namespace StorageSlots.Text

inductive Decimal : List Char → Nat → Prop
  | digit {d} : d < 10 → Decimal [Nat.digitChar d] d
  | snoc {cs n d} : Decimal cs n → d < 10 → Decimal (cs ++ [Nat.digitChar d]) (10 * n + d)

inductive Numeral : List Char → Nat → Prop
  | plain {cs n} : Decimal cs n → Numeral cs n
  | plus {cs n} : Decimal cs n → Numeral ('+' :: cs) n

variable {cs : List Char} {n : Nat}

theorem digitValue_digitChar {d : Nat} (h : d < 10) : digitValue (Nat.digitChar d) = d :=
  Nat.toNat_digitChar_sub_48_of_lt_ten h

theorem isDigit_digitChar {d : Nat} (h : d < 10) : (Nat.digitChar d).isDigit = true := by
  rw [Nat.isDigit_digitChar]
  exact decide_eq_true h

theorem exists_digitChar_eq {c : Char} (h : c.isDigit = true) : ∃ d < 10, Nat.digitChar d = c := by
  have hrange : 48 ≤ c.toNat ∧ c.toNat ≤ 57 := Char.isDigit_iff_toNat.mp h
  refine ⟨c.toNat - 48, by omega, ?_⟩
  apply Char.toNat_inj.mp
  rw [Nat.toNat_digitChar_of_lt_ten (by omega)]
  omega

theorem valueFrom_concat (n : Nat) (cs : List Char) (c : Char) :
    valueFrom n (cs ++ [c]) = 10 * valueFrom n cs + digitValue c := by
  rw [valueFrom, List.foldl_append]
  rfl

theorem digits?_eq_some_iff_valueFrom :
    digits? cs = some n ↔ cs ≠ [] ∧ (∀ c ∈ cs, c.isDigit = true) ∧ valueFrom 0 cs = n := by
  rw [digits?, Option.ite_none_left_eq_some, Option.some_inj]
  simp [and_assoc]

theorem Decimal.valueFrom_eq (h : Decimal cs n) :
    cs ≠ [] ∧ (∀ c ∈ cs, c.isDigit = true) ∧ valueFrom 0 cs = n := by
  induction h with
  | digit hd =>
    refine ⟨by simp, List.forall_mem_singleton.mpr (isDigit_digitChar hd), ?_⟩
    exact (valueFrom_concat 0 [] _).trans (by rw [digitValue_digitChar hd]; simp [valueFrom])
  | snoc _ hd ih =>
    obtain ⟨-, hdigits, hvalue⟩ := ih
    refine ⟨by simp, ?_, by rw [valueFrom_concat, hvalue, digitValue_digitChar hd]⟩
    exact List.forall_mem_append.mpr ⟨hdigits, List.forall_mem_singleton.mpr (isDigit_digitChar hd)⟩

theorem decimal_valueFrom (hne : cs ≠ []) (hdigits : ∀ c ∈ cs, c.isDigit = true) :
    Decimal cs (valueFrom 0 cs) := by
  induction cs using List.reverseRecOn with
  | nil => exact absurd rfl hne
  | append_singleton cs c ih =>
    obtain ⟨hcs, hc⟩ := List.forall_mem_append.mp hdigits
    obtain ⟨d, hd, rfl⟩ := exists_digitChar_eq (hc c (List.mem_singleton_self c))
    rw [valueFrom_concat, digitValue_digitChar hd]
    cases cs with
    | nil => simpa [valueFrom] using Decimal.digit hd
    | cons c cs => exact .snoc (ih (List.cons_ne_nil c cs) hcs) hd

theorem digits?_eq_some_iff : digits? cs = some n ↔ Decimal cs n := by
  rw [digits?_eq_some_iff_valueFrom]
  constructor
  · rintro ⟨hne, hdigits, rfl⟩
    exact decimal_valueFrom hne hdigits
  · exact Decimal.valueFrom_eq

theorem Decimal.exists_cons (h : Decimal cs n) : ∃ c rest, cs = c :: rest ∧ c.isDigit = true := by
  obtain ⟨hne, hdigits, -⟩ := h.valueFrom_eq
  obtain ⟨c, rest, rfl⟩ := List.exists_cons_of_ne_nil hne
  exact ⟨c, rest, rfl, hdigits c List.mem_cons_self⟩

theorem Numeral.exists_cons (h : Numeral cs n) :
    ∃ c rest, cs = c :: rest ∧ (c.isDigit = true ∨ c = '+') := by
  cases h with
  | plain h =>
    obtain ⟨c, rest, rfl, hc⟩ := h.exists_cons
    exact ⟨c, rest, rfl, .inl hc⟩
  | @plus cs _ h => exact ⟨'+', cs, rfl, .inr rfl⟩

theorem Decimal.isDigit_of_mem_getLast? (h : Decimal cs n) :
    ∀ c ∈ cs.getLast?, c.isDigit = true := by
  cases h with
  | digit hd => simpa using isDigit_digitChar hd
  | snoc _ hd => simpa using isDigit_digitChar hd

theorem Numeral.isDigit_of_mem_getLast? (h : Numeral cs n) (front : List Char) :
    ∀ c ∈ (front ++ cs).getLast?, c.isDigit = true := by
  obtain ⟨before, digits, rfl, hdigits⟩ :
      ∃ before digits, cs = before ++ digits ∧ Decimal digits n := by
    cases h with
    | plain h => exact ⟨[], cs, rfl, h⟩
    | @plus digits _ h => exact ⟨['+'], digits, rfl, h⟩
  obtain ⟨c, rest, rfl, -⟩ := hdigits.exists_cons
  rw [← List.append_assoc, List.getLast?_append_cons]
  exact hdigits.isDigit_of_mem_getLast?

/-- The digits that `word64?` reads. -/
def unsigned : List Char → List Char
  | '+' :: cs => cs
  | cs => cs

theorem numeral_iff : Numeral cs n ↔ Decimal (unsigned cs) n := by
  constructor
  · intro h
    cases h with
    | plus h => exact h
    | plain h =>
      obtain ⟨c, rest, rfl, hc⟩ := h.exists_cons
      have hsign : c ≠ '+' := by
        rintro rfl
        exact absurd hc (by decide)
      rwa [unsigned]
      rintro _ ⟨⟩
      exact hsign rfl
  · intro h
    unfold unsigned at h
    split at h
    · exact .plus h
    · exact .plain h

theorem bind_guard_eq_some_iff {p : Nat → Prop} [DecidablePred p] (number : Option Nat) :
    (number.bind fun n => if p n then some n else none) = some n ↔ number = some n ∧ p n := by
  cases number with
  | none => simp
  | some m =>
    rw [Option.bind_some, Option.ite_none_right_eq_some, Option.some_inj, and_comm]
    exact and_congr_right fun hm => by rw [hm]

theorem word64?_eq_bind (cs : List Char) :
    word64? cs = (digits? (unsigned cs)).bind fun n => if n < wordLimit then some n else none := by
  unfold word64?
  split
  · next digits =>
    rw [unsigned]
    dsimp only
    cases digits? digits <;> rfl
  · next hsign =>
    rw [unsigned]
    · dsimp only
      cases digits? cs <;> rfl
    · exact hsign

theorem word64?_eq_some_iff : word64? cs = some n ↔ Numeral cs n ∧ n < wordLimit := by
  rw [word64?_eq_bind, bind_guard_eq_some_iff, numeral_iff, ← digits?_eq_some_iff]

theorem word64?_bounded_eq_some_iff {p : Nat → Prop} [DecidablePred p]
    (hlimit : ∀ n, p n → n < wordLimit) :
    ((word64? cs).bind fun n => if p n then some n else none) = some n ↔ Numeral cs n ∧ p n := by
  rw [bind_guard_eq_some_iff, word64?_eq_some_iff]
  exact ⟨fun h => ⟨h.1.1, h.2⟩, fun h => ⟨⟨h.1, hlimit n h.2⟩, h.2⟩⟩

theorem Numeral.unique {m : Nat} (hn : Numeral cs n) (hm : Numeral cs m) : n = m := by
  rw [numeral_iff, ← digits?_eq_some_iff] at hn hm
  exact Option.some.inj (hn.symm.trans hm)

end StorageSlots.Text
