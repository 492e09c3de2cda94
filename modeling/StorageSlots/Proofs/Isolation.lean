import StorageSlots.Batch

/-!
Units of a batch do not affect each other.

A report is gathered unit by unit. What one unit adds stands behind what is there already and depends
on that unit only, so the report of a batch is the reports of its units, one behind the other.
-/

namespace StorageSlots

namespace BatchReport

def append (report later : BatchReport) : BatchReport :=
  ⟨report.analyses ++ later.analyses, ⟨report.faults.entries ++ later.faults.entries⟩⟩

instance : Append BatchReport :=
  ⟨append⟩

variable {config : Config} {source : Source} {sources : List Source}

@[simp] theorem analyses_append (report later : BatchReport) :
    (report ++ later).analyses = report.analyses ++ later.analyses := rfl

@[simp] theorem entries_append (report later : BatchReport) :
    (report ++ later).faults.entries = report.faults.entries ++ later.faults.entries := rfl

theorem ext_lists {report other : BatchReport} (hanalyses : report.analyses = other.analyses)
    (hfaults : report.faults.entries = other.faults.entries) : report = other := by
  obtain ⟨analyses, ⟨faults⟩⟩ := report
  obtain ⟨otherAnalyses, ⟨otherFaults⟩⟩ := other
  cases hanalyses
  cases hfaults
  rfl

theorem append_assoc (report middle later : BatchReport) :
    report ++ middle ++ later = report ++ (middle ++ later) :=
  ext_lists (by simp) (by simp)

theorem append_empty (report : BatchReport) : report ++ {} = report :=
  ext_lists (by simp) (by simp)

theorem addSource_eq_append (config : Config) (report : BatchReport) (source : Source) :
    addSource config report source = report ++ addSource config {} source := by
  rw [addSource, addSource]
  cases source.analyze config with
  | ok analysis => exact ext_lists (by simp [add]) (by simp [add])
  | error fault => exact ext_lists (by simp [add]) (by simp [add])

theorem foldl_addSource (config : Config) (report : BatchReport) (sources : List Source) :
    sources.foldl (addSource config) report = report ++ ofSources config sources := by
  induction sources generalizing report with
  | nil => exact (append_empty report).symm
  | cons source sources ih =>
    rw [ofSources, List.foldl_cons, List.foldl_cons, ih, ih, addSource_eq_append, append_assoc]

theorem ofSources_append (config : Config) (sources later : List Source) :
    ofSources config (sources ++ later) = ofSources config sources ++ ofSources config later := by
  rw [ofSources, List.foldl_append, foldl_addSource]
  rfl

/-- Each unit is in one of two lists with its own path and result, and both lists keep the order. -/
inductive Splits (config : Config) : List Source → List UnitAnalysis → List LocatedFault → Prop
  | nil : Splits config [] [] []
  | analyzed {source sources analyses faults analysis} :
      source.analyze config = .ok analysis → Splits config sources analyses faults →
      Splits config (source :: sources) (⟨source.path, analysis⟩ :: analyses) faults
  | skipped {source sources analyses faults fault} :
      source.analyze config = .error fault → Splits config sources analyses faults →
      Splits config (source :: sources) analyses (⟨source.path, fault⟩ :: faults)

theorem Splits.length_eq {analyses : List UnitAnalysis} {faults : List LocatedFault}
    (h : Splits config sources analyses faults) :
    analyses.length + faults.length = sources.length := by
  induction h with
  | nil => rfl
  | analyzed _ _ ih =>
    rw [List.length_cons, List.length_cons, ← ih]
    omega
  | skipped _ _ ih =>
    rw [List.length_cons, List.length_cons, ← ih]
    omega

theorem splits_ofSources (config : Config) (sources : List Source) :
    Splits config sources (ofSources config sources).analyses
      (ofSources config sources).faults.entries := by
  induction sources with
  | nil => exact .nil
  | cons source sources ih =>
    have hcons := ofSources_append config [source] sources
    rw [List.singleton_append] at hcons
    rw [hcons, analyses_append, entries_append, ofSources, List.foldl_cons, List.foldl_nil,
      addSource]
    cases hresult : source.analyze config with
    | ok analysis => exact .analyzed hresult ih
    | error fault => exact .skipped hresult ih

theorem foldr_append_ofSources (config : Config) (sources : List Source) :
    (sources.map fun source => ofSources config [source]).foldr (· ++ ·) {} =
      ofSources config sources := by
  induction sources with
  | nil => rfl
  | cons source sources ih =>
    rw [List.map_cons, List.foldr_cons, ih, ← ofSources_append, List.singleton_append]

theorem ofSources_isolated (config : Config) (sources later : List Source) :
    Splits config sources (ofSources config sources).analyses
      (ofSources config sources).faults.entries ∧
    (ofSources config sources).unitCount = sources.length ∧
    ofSources config sources =
      (sources.map fun source => ofSources config [source]).foldr (· ++ ·) {} ∧
    ofSources config (sources ++ later) = ofSources config sources ++ ofSources config later := by
  have hsplits := splits_ofSources config sources
  exact ⟨hsplits, hsplits.length_eq, (foldr_append_ofSources config sources).symm,
    ofSources_append config sources later⟩

end BatchReport

end StorageSlots
