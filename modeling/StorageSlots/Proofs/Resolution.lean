import StorageSlots.Proofs.Eligibility
import StorageSlots.Proofs.Success
import Mathlib.Data.List.Permutation

/-!
How declarations become items, and when a contract can be analyzed.

Items that are resolved from a list of declarations carry the positions of the declarations that
were kept, each once, and each is the declaration at its position, resolved. Reordering the items
changes nothing of that. A contract is analyzed exactly if it has an eligible state variable.
-/

namespace StorageSlots

theorem Item.position_of_elementary {name label : String} {size position : Nat} {item : Item}
    (h : elementary name label size position = .ok item) : item.position = position := by
  rw [elementary] at h
  split at h
  · cases h
    rfl
  · cases h

theorem Declaration.position_of_resolve {declaration : Declaration} {position : Nat} {item : Item}
    (h : declaration.resolve position = .ok item) : item.position = position := by
  rw [resolve] at h
  cases hkind : declaration.kind with
  | record =>
    rw [hkind] at h
    cases h
    rfl
  | array =>
    rw [hkind] at h
    cases h
    rfl
  | elementary =>
    rw [hkind] at h
    cases hsize : declaration.elementarySize? with
    | none =>
      rw [hsize] at h
      cases h
    | some size =>
      rw [hsize] at h
      exact Item.position_of_elementary h

section Positioned

variable {keep : Declaration → Bool} {declarations : List Declaration}

theorem mem_positioned {d : Declaration × Nat} :
    d ∈ positioned keep declarations ↔ declarations[d.2]? = some d.1 ∧ keep d.1 = true := by
  rw [positioned, List.mem_filter, List.mem_zipIdx_iff_getElem?]

theorem nodup_map_snd_positioned : ((positioned keep declarations).map Prod.snd).Nodup := by
  have hall : (declarations.zipIdx.map Prod.snd).Nodup := by
    rw [List.zipIdx_map_snd]
    exact List.nodup_range'
  exact hall.sublist (List.filter_sublist.map Prod.snd)

theorem isEmpty_positioned_iff :
    (positioned keep declarations).isEmpty = true ↔ ¬ ∃ d ∈ declarations, keep d = true := by
  have hlength := congrArg List.length (map_fst_positioned keep declarations)
  rw [List.length_map] at hlength
  rw [List.isEmpty_iff_length_eq_zero, hlength, List.length_eq_zero_iff, List.filter_eq_nil_iff]
  simp only [not_exists, not_and]

end Positioned

section ResolveAll

variable {declarations : List (Declaration × Nat)} {items : List Item}

theorem resolveAll_eq_ok_iff :
    resolveAll declarations = .ok items ↔
      List.Forall₂ (fun d item => d.1.resolve d.2 = .ok item) declarations items :=
  mapM_eq_ok_iff

theorem exists_ok_of_resolveAll (h : resolveAll declarations = .ok items)
    {d : Declaration × Nat} (hd : d ∈ declarations) : ∃ item, d.1.resolve d.2 = .ok item :=
  exists_ok_of_mapM h d hd

theorem map_position_of_resolveAll (h : resolveAll declarations = .ok items) :
    items.map Item.position = declarations.map Prod.snd := by
  have hall := resolveAll_eq_ok_iff.mp h
  clear h
  induction hall with
  | nil => rfl
  | cons hitem _ ih => rw [List.map_cons, List.map_cons, ih, Declaration.position_of_resolve hitem]

end ResolveAll

/-- The items are the declarations that pass `keep`, each resolved at its position, in any order. -/
structure Represents (keep : Declaration → Bool) (declarations : List Declaration)
    (items : List Item) : Prop where
  once : (items.map Item.position).Nodup
  position_mem_iff : ∀ i, i ∈ items.map Item.position ↔
    ∃ declaration, declarations[i]? = some declaration ∧ keep declaration = true
  resolved : ∀ item ∈ items, ∃ declaration, declarations[item.position]? = some declaration ∧
    declaration.resolve item.position = .ok item

namespace Represents

variable {keep : Declaration → Bool} {declarations : List Declaration} {items other : List Item}

theorem of_resolveAll (h : resolveAll (positioned keep declarations) = .ok items) :
    Represents keep declarations items where
  once := by
    rw [map_position_of_resolveAll h]
    exact nodup_map_snd_positioned
  position_mem_iff := by
    intro i
    rw [map_position_of_resolveAll h]
    constructor
    · intro hi
      obtain ⟨d, hd, rfl⟩ := List.mem_map.mp hi
      exact ⟨d.1, mem_positioned.mp hd⟩
    · rintro ⟨declaration, hdeclaration⟩
      exact List.mem_map.mpr ⟨(declaration, i), mem_positioned.mpr hdeclaration, rfl⟩
  resolved := by
    intro item hitem
    obtain ⟨d, hd, hresolve⟩ := exists_mem_of_forall₂ (resolveAll_eq_ok_iff.mp h) hitem
    rw [Declaration.position_of_resolve hresolve]
    exact ⟨d.1, (mem_positioned.mp hd).1, hresolve⟩

theorem perm (h : Represents keep declarations items) (hperm : items.Perm other) :
    Represents keep declarations other where
  once := (hperm.map Item.position).nodup_iff.mp h.once
  position_mem_iff i := by rw [← (hperm.map Item.position).mem_iff, h.position_mem_iff]
  resolved item hitem := h.resolved item (hperm.mem_iff.mpr hitem)

end Represents

def Unsized (keep : Declaration → Bool) (declarations : List Declaration) : Prop :=
  ∃ i declaration fault, declarations[i]? = some declaration ∧ keep declaration = true ∧
    declaration.resolve i = .error fault

theorem not_unsized_of_resolveAll {keep : Declaration → Bool} {declarations : List Declaration}
    {items : List Item} (h : resolveAll (positioned keep declarations) = .ok items) :
    ¬ Unsized keep declarations := by
  rintro ⟨i, declaration, fault, hget, hkeep, hfault⟩
  have hmem : (declaration, i) ∈ positioned keep declarations := mem_positioned.mpr ⟨hget, hkeep⟩
  obtain ⟨item, hitem⟩ := exists_ok_of_resolveAll h hmem
  rw [hfault] at hitem
  cases hitem

namespace Contract

variable {contract : Contract} {config : Config} {analysis : ContractAnalysis}

def resolved (contract : Contract) : ResolvedContract :=
  ⟨contract.name, contract.eligibleVariables.toOption, contract.recordTypes⟩

def HasEligible (contract : Contract) : Prop :=
  ∃ d ∈ contract.stateVariables, d.isEligible = true

theorem analyze_of_hasEligible (h : contract.HasEligible) :
    contract.analyze config = .ok (contract.resolved.analysis config) := by
  have hsome : ¬ contract.eligibleDeclarations.isEmpty = true := by
    rw [eligibleDeclarations, isEmpty_positioned_iff]
    exact not_not_intro h
  rw [analyze, resolve, if_neg hsome]
  rfl

theorem analyze_of_not_hasEligible (h : ¬ contract.HasEligible) :
    contract.analyze config = .error (.noEligibleVariables contract.name) := by
  have hnone : contract.eligibleDeclarations.isEmpty = true := isEmpty_positioned_iff.mpr h
  rw [analyze, resolve, if_pos hnone]

theorem analyze_eq_ok (h : contract.analyze config = .ok analysis) :
    contract.HasEligible ∧ analysis = contract.resolved.analysis config := by
  by_cases heligible : contract.HasEligible
  · rw [analyze_of_hasEligible heligible] at h
    cases h
    exact ⟨heligible, rfl⟩
  · rw [analyze_of_not_hasEligible heligible] at h
    cases h

end Contract

namespace SourceUnit

variable {source : SourceUnit} {config : Config}

theorem analyze_of_head? {contract : Contract} (h : source.contracts.head? = some contract) :
    source.analyze config = contract.analyze config := by
  obtain ⟨later, hcontracts⟩ := List.head?_eq_some_iff.mp h
  rw [analyze, primary, hcontracts]

theorem analyze_eq_ok {analysis : ContractAnalysis} (h : source.analyze config = .ok analysis) :
    ∃ contract, source.contracts.head? = some contract ∧ contract.HasEligible ∧
      analysis = contract.resolved.analysis config := by
  cases hcontract : source.contracts.head? with
  | none =>
    rw [analyze, primary, List.head?_eq_none_iff.mp hcontract] at h
    cases h
  | some contract =>
    rw [analyze_of_head? hcontract] at h
    exact ⟨contract, rfl, Contract.analyze_eq_ok h⟩

end SourceUnit

end StorageSlots
