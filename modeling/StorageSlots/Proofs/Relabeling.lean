import StorageSlots.Report
import StorageSlots.Proofs.Arrangement

/-!
What an analysis depends on.

Only the sizes and the kinds of items decide how they are laid out, and how many slots that spares. A
change of the items that leaves these alone changes nothing but the items themselves in the layouts,
and an analysis of the changed items is the analysis with the same change made to it.
-/

namespace StorageSlots

structure Relabeling where
  apply : Item → Item
  byteSize_apply (item : Item) : (apply item).byteSize = item.byteSize
  kind_apply (item : Item) : (apply item).kind = item.kind

section Fields

variable (f : Relabeling)

def Slot.relabel (slot : Slot) : Slot :=
  { slot with members := slot.members.map f.apply }

def Layout.relabel (layout : Layout) : Layout :=
  ⟨layout.slots.map (Slot.relabel f)⟩

def PackingOutcome.relabel (outcome : PackingOutcome) : PackingOutcome :=
  ⟨outcome.sparedSlots, outcome.optimized.map (Layout.relabel f), by
    rw [Option.isSome_map]
    exact outcome.present_iff⟩

def RecordType.relabel (type : RecordType) : RecordType :=
  { type with members := type.members.map f.apply }

def RecordAnalysis.relabel (analysis : RecordAnalysis) : RecordAnalysis :=
  { analysis with outcome := analysis.outcome.relabel f }

def RecordsAnalysis.relabel (analysis : RecordsAnalysis) : RecordsAnalysis :=
  { analysis with improvable := analysis.improvable.map (RecordAnalysis.relabel f) }

def ResolvedContract.relabel (resolved : ResolvedContract) : ResolvedContract :=
  { resolved with
    stateVariables := resolved.stateVariables.map (List.map f.apply)
    recordTypes := resolved.recordTypes.map (RecordType.relabel f) }

def ContractAnalysis.relabel (analysis : ContractAnalysis) : ContractAnalysis :=
  { analysis with
    records := analysis.records.relabel f
    storage := analysis.storage.relabel f }

end Fields

namespace Relabeling

variable (f : Relabeling)

theorem isElementary_apply (item : Item) : (f.apply item).isElementary = item.isElementary := by
  rw [Item.isElementary, f.kind_apply, Item.isElementary]

theorem place_map (free : Nat) (items : List Item) :
    Fill.place free (items.map f.apply) =
      ((Fill.place free items).1.map f.apply,
        (Fill.place free items).2.map (List.map f.apply)) := by
  induction items generalizing free with
  | nil => rfl
  | cons item items ih =>
    rw [List.map_cons, Fill.place, Fill.place, f.isElementary_apply, f.byteSize_apply]
    split
    · split
      · rw [ih]
        rfl
      · rw [ih]
        rfl
    · rw [ih]
      rfl

theorem ofGroups_map (groups : List (List Item)) :
    Layout.ofGroups (groups.map (List.map f.apply)) = (Layout.ofGroups groups).relabel f := by
  have hnumbered (first : Nat) : Layout.numbered first (groups.map (List.map f.apply)) =
      (Layout.numbered first groups).map (Slot.relabel f) := by
    induction groups generalizing first with
    | nil => rfl
    | cons group groups ih =>
      rw [List.map_cons, Layout.numbered, ih]
      rfl
  rw [Layout.ofGroups, hnumbered]
  rfl

theorem ofOrder_map (items : List Item) :
    Layout.ofOrder (items.map f.apply) = (Layout.ofOrder items).relabel f := by
  rw [Layout.ofOrder, Fill.groups, f.place_map]
  exact f.ofGroups_map _

theorem filter_map (keep : Bool → Bool) (items : List Item) :
    (items.map f.apply).filter (fun item => keep item.isElementary) =
      (items.filter fun item => keep item.isElementary).map f.apply := by
  rw [List.filter_map]
  simp only [Function.comp_def, f.isElementary_apply]

theorem elementaryItems_map (items : List Item) :
    elementaryItems (items.map f.apply) = (elementaryItems items).map f.apply :=
  f.filter_map id items

theorem compositeItems_map (items : List Item) :
    compositeItems (items.map f.apply) = (compositeItems items).map f.apply :=
  f.filter_map not items

theorem elementarySizes_map (items : List Item) :
    elementarySizes (items.map f.apply) = elementarySizes items := by
  rw [elementarySizes, f.elementaryItems_map, List.map_map, elementarySizes]
  simp only [Function.comp_def, f.byteSize_apply]

theorem pick_map (items : List Item) :
    Packing.pick (items.map f.apply) = List.map f.apply ∘ Packing.pick items := by
  funext bin
  simp only [Packing.pick, List.getElem?_map, Function.comp_apply, List.map_filterMap]

theorem layout_map (packing : Packing) (items : List Item) :
    packing.layout (items.map f.apply) = (packing.layout items).relabel f := by
  rw [Packing.layout_eq, f.elementaryItems_map, f.compositeItems_map, Packing.layout_eq,
    ← f.ofGroups_map, f.pick_map, List.map_append, List.map_map, List.map_map, List.map_map]
  rfl

@[simp] theorem slotCount_relabel (layout : Layout) :
    (layout.relabel f).slotCount = layout.slotCount :=
  List.length_map _

theorem between_relabel (declared optimized : Layout) :
    PackingOutcome.between (declared.relabel f) (optimized.relabel f) =
      (PackingOutcome.between declared optimized).relabel f := by
  unfold PackingOutcome.between
  simp only [slotCount_relabel]
  split
  · rfl
  · rfl

theorem compare_map (items : List Item) (solver : Solver) :
    compare (items.map f.apply) solver = (compare items solver).relabel f := by
  rw [compare, f.elementarySizes_map, f.ofOrder_map, compare]
  cases solver.validPacking (elementarySizes items) with
  | error _ => rfl
  | ok packing =>
    dsimp only
    rw [f.layout_map, f.between_relabel]

theorem analyze_relabel (solver : Solver) (type : RecordType) :
    (type.relabel f).analyze solver = (type.analyze solver).relabel f := by
  rw [RecordType.analyze, RecordType.relabel, f.compare_map]
  rfl

theorem ofTypes_map (solver : Solver) (types : List RecordType) :
    RecordsAnalysis.ofTypes solver (types.map (RecordType.relabel f)) =
      (RecordsAnalysis.ofTypes solver types).relabel f := by
  have hanalyze : (types.map (RecordType.relabel f)).map (RecordType.analyze solver) =
      (types.map (RecordType.analyze solver)).map (RecordAnalysis.relabel f) := by
    simp only [List.map_map, Function.comp_def, f.analyze_relabel]
  rw [RecordsAnalysis.ofTypes, hanalyze, List.filter_map, List.map_map]
  rfl

theorem storageOutcome_relabel (resolved : ResolvedContract) (config : Config) :
    (resolved.relabel f).storageOutcome config = (resolved.storageOutcome config).relabel f := by
  rw [ResolvedContract.storageOutcome, ResolvedContract.relabel, ResolvedContract.storageOutcome]
  cases resolved.stateVariables with
  | none => rfl
  | some items =>
    rw [Option.map_some]
    dsimp only
    rw [List.length_map, f.compare_map]
    split
    · rfl
    · rfl

theorem analysis_relabel (resolved : ResolvedContract) (config : Config) :
    (resolved.relabel f).analysis config = (resolved.analysis config).relabel f := by
  rw [ResolvedContract.analysis, f.storageOutcome_relabel, ResolvedContract.recordsAnalysis,
    ResolvedContract.relabel, f.ofTypes_map]
  rfl

section Report

variable {f : Relabeling} (hdisplay : ∀ item, (f.apply item).display = item.display)

include hdisplay

theorem orderLines_relabel (outcome : PackingOutcome) :
    Report.orderLines (outcome.relabel f) = Report.orderLines outcome := by
  obtain ⟨spared, optimized, hpresent⟩ := outcome
  cases optimized with
  | none => rfl
  | some layout =>
    have hgroups : (layout.relabel f).groups = layout.groups.map (List.map f.apply) := by
      simp only [Layout.groups, Layout.relabel, List.map_map]
      rfl
    change (layout.relabel f).items.map Item.display = layout.items.map Item.display
    rw [Layout.items, hgroups, ← List.map_flatten, List.map_map]
    simp only [Function.comp_def, hdisplay, Layout.items]

theorem recordsLines_relabel (path : String) (analysis : ContractAnalysis) :
    (Report.mk path (analysis.relabel f)).recordsLines =
      (Report.mk path analysis).recordsLines := by
  have hrecord (record : RecordAnalysis) :
      Report.recordLines analysis.contract (record.relabel f) =
        Report.recordLines analysis.contract record := by
    rw [Report.recordLines, RecordAnalysis.relabel, orderLines_relabel hdisplay]
    rfl
  have himprovable :
      (analysis.records.relabel f).improvable.flatMap (Report.recordLines analysis.contract) =
        analysis.records.improvable.flatMap (Report.recordLines analysis.contract) := by
    rw [RecordsAnalysis.relabel, List.flatMap_map]
    simp only [hrecord]
  simp only [Report.recordsLines, ContractAnalysis.relabel, himprovable]
  rfl

theorem storageLines_relabel (path : String) (analysis : ContractAnalysis) :
    (Report.mk path (analysis.relabel f)).storageLines =
      (Report.mk path analysis).storageLines := by
  simp only [Report.storageLines, ContractAnalysis.relabel, orderLines_relabel hdisplay]
  rfl

theorem render_relabel (path : String) (analysis : ContractAnalysis) :
    (Report.mk path (analysis.relabel f)).render = (Report.mk path analysis).render := by
  rw [Report.render, Report.lines, recordsLines_relabel hdisplay, storageLines_relabel hdisplay]
  rfl

end Report

end Relabeling

end StorageSlots
