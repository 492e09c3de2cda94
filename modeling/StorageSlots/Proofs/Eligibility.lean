import StorageSlots.Proofs.Relabeling

/-!
What takes no part in an analysis.

Dynamic and inherited state variables, the dynamic members of records, and the contracts behind the
first can be put in, taken out or altered: the analysis stays the same but for the positions of the
items in its layouts, and its report stays the same.
-/

namespace StorageSlots

/-- Two lists that differ in nothing that passes `keep`. -/
inductive AgreeOn (keep : Declaration → Bool) : List Declaration → List Declaration → Prop where
  | nil : AgreeOn keep [] []
  | same (declaration : Declaration) {declarations others : List Declaration}
      (rest : AgreeOn keep declarations others) :
      AgreeOn keep (declaration :: declarations) (declaration :: others)
  | inserted {other : Declaration} {declarations others : List Declaration}
      (hother : keep other = false) (rest : AgreeOn keep declarations others) :
      AgreeOn keep declarations (other :: others)
  | removed {declaration : Declaration} {declarations others : List Declaration}
      (hdeclaration : keep declaration = false) (rest : AgreeOn keep declarations others) :
      AgreeOn keep (declaration :: declarations) others
  | altered {declaration other : Declaration} {declarations others : List Declaration}
      (hdeclaration : keep declaration = false) (hother : keep other = false)
      (rest : AgreeOn keep declarations others) :
      AgreeOn keep (declaration :: declarations) (other :: others)

structure RecordDeclaration.Agrees (record other : RecordDeclaration) : Prop where
  name : record.name = other.name
  members : AgreeOn (fun declaration => !declaration.dynamic) record.members other.members

structure Contract.Agrees (contract other : Contract) : Prop where
  name : contract.name = other.name
  stateVariables : AgreeOn Declaration.isEligible contract.stateVariables other.stateVariables
  records : List.Forall₂ RecordDeclaration.Agrees contract.records other.records

inductive SourceUnit.Agrees : SourceUnit → SourceUnit → Prop where
  | empty : Agrees ⟨[]⟩ ⟨[]⟩
  | primary {contract other : Contract} (h : contract.Agrees other) (later others : List Contract) :
      Agrees ⟨contract :: later⟩ ⟨other :: others⟩

/-- Forgets where items were declared. -/
def Relabeling.unplaced : Relabeling where
  apply item := { item with position := 0 }
  byteSize_apply _ := rfl
  kind_apply _ := rfl

open Relabeling (unplaced)

theorem Declaration.resolve_unplaced (declaration : Declaration) (position : Nat) :
    unplaced.apply <$> declaration.resolve position = declaration.resolve 0 := by
  rw [resolve, resolve]
  cases declaration.kind with
  | record => rfl
  | array => rfl
  | elementary =>
    cases declaration.elementarySize? with
    | none => rfl
    | some size =>
      dsimp only
      unfold Item.elementary
      split
      · rfl
      · rfl

theorem resolveAll_unplaced (declarations : List (Declaration × Nat)) :
    List.map unplaced.apply <$> resolveAll declarations =
      (declarations.map Prod.fst).mapM fun declaration => declaration.resolve 0 := by
  induction declarations with
  | nil => rfl
  | cons declaration declarations ih =>
    rw [resolveAll, List.mapM_cons, List.map_cons, List.mapM_cons, ← ih,
      ← declaration.1.resolve_unplaced declaration.2]
    simp [resolveAll]

theorem map_fst_positioned (keep : Declaration → Bool) (declarations : List Declaration) :
    (positioned keep declarations).map Prod.fst = declarations.filter keep := by
  calc (positioned keep declarations).map Prod.fst
      = (declarations.zipIdx.map Prod.fst).filter keep := List.filter_map.symm
    _ = declarations.filter keep := by rw [List.zipIdx_map_fst]

namespace AgreeOn

variable {keep : Declaration → Bool} {declarations others : List Declaration}

theorem filter_eq (h : AgreeOn keep declarations others) :
    declarations.filter keep = others.filter keep := by
  induction h with
  | nil => rfl
  | same declaration _ ih => simp [List.filter_cons, ih]
  | inserted hother _ ih => simp [hother, ih]
  | removed hdeclaration _ ih => simp [hdeclaration, ih]
  | altered hdeclaration hother _ ih => simp [hdeclaration, hother, ih]

theorem of_filter_eq (h : declarations.filter keep = others.filter keep) :
    AgreeOn keep declarations others := by
  induction declarations generalizing others with
  | nil =>
    induction others with
    | nil => exact .nil
    | cons other others ih =>
      obtain ⟨hother, hothers⟩ := List.forall_mem_cons.mp (List.filter_eq_nil_iff.mp h.symm)
      exact .inserted (by simpa using hother) (ih (List.filter_eq_nil_iff.mpr hothers).symm)
  | cons declaration declarations ih =>
    by_cases hkeep : keep declaration = true
    · -- The other list has the same declaration, behind some that do not pass.
      rw [List.filter_cons_of_pos hkeep] at h
      obtain ⟨before, after, rfl, hbefore, _, hafter⟩ := List.filter_eq_cons_iff.mp h.symm
      clear h
      induction before with
      | nil => exact .same declaration (ih hafter.symm)
      | cons other before ih =>
        obtain ⟨hother, hrest⟩ := List.forall_mem_cons.mp hbefore
        exact .inserted (by simpa using hother) (ih hrest)
    · rw [List.filter_cons_of_neg hkeep] at h
      exact .removed (by simpa using hkeep) (ih h)

theorem iff_filter_eq :
    AgreeOn keep declarations others ↔ declarations.filter keep = others.filter keep :=
  ⟨filter_eq, of_filter_eq⟩

instance : Decidable (AgreeOn keep declarations others) :=
  decidable_of_iff _ iff_filter_eq.symm

theorem map_fst_positioned_eq (h : AgreeOn keep declarations others) :
    (positioned keep declarations).map Prod.fst = (positioned keep others).map Prod.fst := by
  rw [map_fst_positioned, map_fst_positioned, h.filter_eq]

theorem isEmpty_positioned_eq (h : AgreeOn keep declarations others) :
    (positioned keep declarations).isEmpty = (positioned keep others).isEmpty := by
  simpa using congrArg List.isEmpty h.map_fst_positioned_eq

theorem resolveAll_positioned_eq (h : AgreeOn keep declarations others) :
    List.map unplaced.apply <$> resolveAll (positioned keep declarations) =
      List.map unplaced.apply <$> resolveAll (positioned keep others) := by
  rw [resolveAll_unplaced, resolveAll_unplaced, h.map_fst_positioned_eq]

end AgreeOn

namespace RecordDeclaration

instance (record other : RecordDeclaration) : Decidable (record.Agrees other) :=
  decidable_of_iff (record.name = other.name ∧
      AgreeOn (fun declaration => !declaration.dynamic) record.members other.members)
    ⟨fun h => ⟨h.1, h.2⟩, fun h => ⟨h.name, h.members⟩⟩

theorem resolve_eq_map (record : RecordDeclaration) (position : Nat) :
    record.resolve position =
      (fun members => ⟨record.name, position, members⟩) <$> resolveAll record.eligibleMembers := by
  rw [resolve]
  cases resolveAll record.eligibleMembers with
  | ok _ => rfl
  | error _ => rfl

theorem Agrees.resolve {record other : RecordDeclaration} (h : record.Agrees other)
    (position : Nat) :
    RecordType.relabel unplaced <$> record.resolve position =
      RecordType.relabel unplaced <$> other.resolve position := by
  have hmembers := congrArg
    (Functor.map fun members => RecordType.mk other.name position members)
    h.members.resolveAll_positioned_eq
  rw [Functor.map_map, Functor.map_map] at hmembers
  rw [resolve_eq_map, resolve_eq_map, Functor.map_map, Functor.map_map, h.name]
  exact hmembers

theorem map_resolve_eq {records others : List RecordDeclaration}
    (h : List.Forall₂ Agrees records others) (first : Nat) :
    (records.zipIdx first).map (fun r => RecordType.relabel unplaced <$> r.1.resolve r.2) =
      (others.zipIdx first).map fun r => RecordType.relabel unplaced <$> r.1.resolve r.2 := by
  induction h generalizing first with
  | nil => rfl
  | cons hrecord _ ih =>
    rw [List.zipIdx_cons, List.zipIdx_cons, List.map_cons, List.map_cons, ih, hrecord.resolve]

end RecordDeclaration

theorem toOption_map {ε α β : Type} (f : α → β) (result : Except ε α) :
    (f <$> result).toOption = result.toOption.map f := by
  cases result with
  | ok _ => rfl
  | error _ => rfl

namespace Contract

instance (contract other : Contract) : Decidable (contract.Agrees other) :=
  decidable_of_iff (contract.name = other.name ∧
      AgreeOn Declaration.isEligible contract.stateVariables other.stateVariables ∧
      List.Forall₂ RecordDeclaration.Agrees contract.records other.records)
    ⟨fun h => ⟨h.1, h.2.1, h.2.2⟩, fun h => ⟨h.name, h.stateVariables, h.records⟩⟩

theorem recordTypes_relabel (contract : Contract) (f : Relabeling) :
    contract.recordTypes.map (RecordType.relabel f) =
      (contract.records.zipIdx.map fun r => RecordType.relabel f <$> r.1.resolve r.2).filterMap
        Except.toOption := by
  rw [recordTypes, resolvedRecords, List.filterMap_map, List.filterMap_map, List.map_filterMap]
  simp only [Function.comp_def, toOption_map]

variable {contract other : Contract}

theorem Agrees.recordTypes (h : contract.Agrees other) :
    contract.recordTypes.map (RecordType.relabel unplaced) =
      other.recordTypes.map (RecordType.relabel unplaced) := by
  rw [recordTypes_relabel, recordTypes_relabel, RecordDeclaration.map_resolve_eq h.records]

theorem Agrees.resolve (h : contract.Agrees other) :
    ResolvedContract.relabel unplaced <$> contract.resolve =
      ResolvedContract.relabel unplaced <$> other.resolve := by
  have hempty : contract.eligibleDeclarations.isEmpty = other.eligibleDeclarations.isEmpty :=
    h.stateVariables.isEmpty_positioned_eq
  have hvariables : contract.eligibleVariables.toOption.map (List.map unplaced.apply) =
      other.eligibleVariables.toOption.map (List.map unplaced.apply) := by
    rw [← toOption_map, ← toOption_map]
    exact congrArg Except.toOption h.stateVariables.resolveAll_positioned_eq
  rw [Contract.resolve, Contract.resolve, hempty, h.name]
  split
  · rfl
  · change Except.ok (ResolvedContract.mk _ _ _) = Except.ok (ResolvedContract.mk _ _ _)
    rw [hvariables, h.recordTypes]

theorem analyze_eq_map (contract : Contract) (config : Config) :
    contract.analyze config =
      (fun resolved => resolved.analysis config) <$> contract.resolve := by
  rw [analyze]
  cases contract.resolve with
  | ok _ => rfl
  | error _ => rfl

theorem Agrees.analyze (h : contract.Agrees other) (config : Config) :
    ContractAnalysis.relabel unplaced <$> contract.analyze config =
      ContractAnalysis.relabel unplaced <$> other.analyze config := by
  have hanalysis (contract : Contract) :
      ContractAnalysis.relabel unplaced <$> contract.analyze config =
        (fun resolved => resolved.analysis config) <$>
          (ResolvedContract.relabel unplaced <$> contract.resolve) := by
    rw [analyze_eq_map, Functor.map_map, Functor.map_map]
    simp only [unplaced.analysis_relabel]
  rw [hanalysis, hanalysis, h.resolve]

end Contract

namespace SourceUnit

theorem analyze_agrees {source other : SourceUnit} (h : source.Agrees other)
    (config : Config) :
    match source.analyze config, other.analyze config with
    | .ok analysis, .ok found =>
      analysis.relabel unplaced = found.relabel unplaced ∧
        ∀ path, (Report.mk path analysis).render = (Report.mk path found).render
    | .error fault, .error found => fault = found
    | _, _ => False := by
  have hanalyze : ContractAnalysis.relabel unplaced <$> source.analyze config =
      ContractAnalysis.relabel unplaced <$> other.analyze config := by
    cases h with
    | empty => rfl
    | primary hcontract _ _ => exact hcontract.analyze config
  have hdisplay (item : Item) : (unplaced.apply item).display = item.display := rfl
  generalize source.analyze config = left at hanalyze ⊢
  generalize other.analyze config = right at hanalyze ⊢
  cases left with
  | ok analysis =>
    cases right with
    | ok found =>
      have heq := Except.ok.inj hanalyze
      refine ⟨heq, fun path => ?_⟩
      rw [← Relabeling.render_relabel hdisplay, heq, Relabeling.render_relabel hdisplay]
    | error fault => cases hanalyze
  | error fault =>
    cases right with
    | ok found => cases hanalyze
    | error found => exact Except.error.inj hanalyze

def vault : Contract where
  name := "Vault"
  stateVariables := [
    { name := "first", label := "uint128", size := some 16 },
    { name := "second", label := "uint256", size := some 32 },
    { name := "third", label := "uint128", size := some 16 }]
  records := [⟨"Entry", [
    { name := "low", label := "uint128", size := some 16 },
    { name := "whole", label := "uint256", size := some 32 },
    { name := "high", label := "uint128", size := some 16 }]⟩]

def vaultWithBalances : Contract where
  name := "Vault"
  stateVariables := [
    { name := "owner", label := "address", inherited := true },
    { name := "first", label := "uint128", size := some 16 },
    { name := "balances", label := "mapping(address => uint256)", dynamic := true },
    { name := "second", label := "uint256", size := some 32 },
    { name := "third", label := "uint128", size := some 16 }]
  records := [⟨"Entry", [
    { name := "low", label := "uint128", size := some 16 },
    { name := "whole", label := "uint256", size := some 32 },
    { name := "values", label := "uint256[]", dynamic := true },
    { name := "high", label := "uint128", size := some 16 }]⟩]

theorem analyze_agrees_vault :
    ∃ analysis found, analyze ⟨[vault]⟩ {} = .ok analysis ∧
      analyze ⟨[vaultWithBalances, .named "Later"]⟩ {} = .ok found ∧
      analysis.relabel unplaced = found.relabel unplaced ∧
      ∀ path, (Report.mk path analysis).render = (Report.mk path found).render := by
  have hcontract : vault.Agrees vaultWithBalances := by decide
  have h := analyze_agrees (.primary hcontract [] [.named "Later"]) {}
  exact ⟨_, _, rfl, rfl, h⟩

end SourceUnit

end StorageSlots
