import StorageSlots.Packing.Packable
import StorageSlots.Packing.Search

/-!
The search finds packings only, and finds one whenever there is one.

`packInto_eq_some` says what a packing that was found is made of. `packInto_spec` says that without
a find the sizes are not packable, and that what is remembered stays true.
-/

namespace StorageSlots

namespace Search

open FirstFit (Entry load load_cons load_nil)

/-- What is remembered is true: keys name sizes that do not fit. -/
def Known (capacity : Nat) (known : KeySet) : Prop :=
  ∀ bins sizes, known.contains (bins :: sizes) = true → ¬ Packable capacity bins sizes

theorem known_empty (capacity : Nat) : Known capacity .empty := by
  intro bins sizes h
  simp [KeySet.contains_empty] at h

theorem known_insert {capacity bins : Nat} {entries : List Entry} {known : KeySet}
    (hk : Known capacity known) (h : ¬ Packable capacity bins (entries.map Entry.size)) :
    Known capacity (known.insert (key bins entries)) := by
  intro bins' sizes hc
  simp only [KeySet.contains_insert, Bool.or_eq_true, decide_eq_true_eq, key,
    List.cons.injEq] at hc
  rcases hc with ⟨rfl, rfl⟩ | hc
  · exact h
  · exact hk bins' sizes hc

section Choose

variable {close : Nat → List Entry → List Entry → KeySet → Finding} {spare : Nat}

theorem choose_known {P : KeySet → Prop}
    (hclose : ∀ room bin later known, P known → P (close room bin later known).2)
    (pending : List Entry) (room : Nat) (bin later : List Entry) (known : KeySet) (hk : P known) :
    P (choose close spare room bin later pending known).2 := by
  induction pending generalizing room bin later known with
  | nil => exact hclose room bin later known hk
  | cons entry pending ih =>
    have taken : P (if entry.size ≤ room ∧ refusedAlike entry later = false then
        choose close spare (room - entry.size) (entry :: bin) later pending known
      else (none, known)).2 := by
      split
      · exact ih _ _ _ _ hk
      · exact hk
    unfold choose
    revert taken
    generalize (if entry.size ≤ room ∧ refusedAlike entry later = false then
        choose close spare (room - entry.size) (entry :: bin) later pending known
      else (none, known)) = found
    intro taken
    match found, taken with
    | (some bins, known), taken => exact taken
    | (none, known), taken =>
      simp only
      split
      · exact ih _ _ _ _ taken
      · exact taken

variable {room : Nat} {bin later pending : List Entry} {entry : Entry} {known : KeySet}

theorem choose_cons_eq_some {packed : List (List Entry)}
    (h : (choose close spare room bin later (entry :: pending) known).1 = some packed) :
    entry.size ≤ room ∧
      (choose close spare (room - entry.size) (entry :: bin) later pending known).1 = some packed ∨
    ∃ known', (choose close spare room bin (entry :: later) pending known').1 = some packed := by
  have refused (known' : KeySet) (h : (if load (entry :: later) ≤ spare then
        choose close spare room bin (entry :: later) pending known'
      else (none, known')).1 = some packed) :
      ∃ known', (choose close spare room bin (entry :: later) pending known').1 = some packed := by
    split at h
    · exact ⟨known', h⟩
    · cases h
  unfold choose at h
  by_cases hfits : entry.size ≤ room ∧ refusedAlike entry later = false
  · simp only [hfits, and_self, if_true] at h
    cases hfound : choose close spare (room - entry.size) (entry :: bin) later pending known with
    | mk found known' =>
      cases found with
      | some bins => exact .inl ⟨hfits.1, by simpa only [hfound] using h⟩
      | none => exact .inr (refused known' (by simpa only [hfound] using h))
  · simp only [hfits, if_false] at h
    exact .inr (refused known h)

theorem choose_cons_eq_none {P : KeySet → Prop}
    (hclose : ∀ room bin later known, P known → P (close room bin later known).2) (hk : P known)
    (h : (choose close spare room bin later (entry :: pending) known).1 = none) :
    (entry.size ≤ room → refusedAlike entry later = false →
      (choose close spare (room - entry.size) (entry :: bin) later pending known).1 = none) ∧
    (load (entry :: later) ≤ spare → ∃ known', P known' ∧
      (choose close spare room bin (entry :: later) pending known').1 = none) := by
  unfold choose at h
  by_cases hfits : entry.size ≤ room ∧ refusedAlike entry later = false
  · simp only [hfits, and_self, if_true] at h
    have hknown :
        P (choose close spare (room - entry.size) (entry :: bin) later pending known).2 :=
      choose_known hclose pending _ _ _ _ hk
    cases hfound : choose close spare (room - entry.size) (entry :: bin) later pending known with
    | mk found known' =>
      rw [hfound] at hknown
      cases found with
      | some bins => simp [hfound] at h
      | none =>
        simp only [hfound] at h
        exact ⟨fun _ _ => rfl, fun hspare => ⟨known', hknown, by simpa only [if_pos hspare] using h⟩⟩
  · simp only [hfits, if_false] at h
    refine ⟨fun hle halike => absurd ⟨hle, halike⟩ hfits, fun hspare => ⟨known, hk, ?_⟩⟩
    simpa only [if_pos hspare] using h

theorem choose_eq_some (pending : List Entry) (room : Nat) (bin later : List Entry)
    (known : KeySet) {packed : List (List Entry)}
    (h : (choose close spare room bin later pending known).1 = some packed) :
    ∃ room' bin' later' known', (close room' bin' later' known').1 = some packed ∧
      (bin' ++ later').Perm (bin ++ later ++ pending) ∧ load bin' + room' = load bin + room := by
  induction pending generalizing room bin later known with
  | nil => exact ⟨room, bin, later, known, h, by simp, rfl⟩
  | cons entry pending ih =>
    rcases choose_cons_eq_some h with ⟨hle, htaken⟩ | ⟨known', hrefused⟩
    · obtain ⟨room', bin', later', known'', hc, hp, hl⟩ := ih _ _ _ _ htaken
      refine ⟨room', bin', later', known'', hc, hp.trans ?_, ?_⟩
      · simpa using (@List.perm_middle _ entry (bin ++ later) pending).symm
      · rw [load_cons] at hl
        omega
    · obtain ⟨room', bin', later', known'', hc, hp, hl⟩ := ih _ _ _ _ hrefused
      refine ⟨room', bin', later', known'', hc, hp.trans ?_, hl⟩
      simp only [List.append_assoc, List.cons_append]
      exact List.perm_middle.symm.append_left _

theorem refusedAlike_eq_false (h : ∀ last ∈ later.head?, last.size ≠ entry.size) :
    refusedAlike entry later = false := by
  cases later with
  | nil => rfl
  | cons last later => simpa [refusedAlike] using h last rfl

theorem choose_eq_none {P : KeySet → Prop}
    (hclose : ∀ room bin later known, P known → P (close room bin later known).2)
    (pending : List Entry) (room : Nat) (bin later : List Entry) (known : KeySet) (hk : P known)
    (h : (choose close spare room bin later pending known).1 = none) (taken refused : List Nat)
    (hp : (taken ++ refused).Perm (pending.map Entry.size)) (hroom : total taken ≤ room)
    (halike : ∀ entry ∈ later.head?, entry.size ∉ taken)
    (hspare : load later + total refused ≤ spare) :
    ∃ bin' later' known', P known' ∧
      (later'.map Entry.size).Perm (later.map Entry.size ++ refused) ∧
      (close (room - total taken) bin' later' known').1 = none := by
  induction pending generalizing room bin later known taken refused with
  | nil =>
    obtain ⟨rfl, rfl⟩ : taken = [] ∧ refused = [] := by simpa using hp
    exact ⟨bin, later, known, hk, by simp, by simpa [choose] using h⟩
  | cons entry pending ih =>
    obtain ⟨htake, hrefuse⟩ := choose_cons_eq_none hclose hk h
    by_cases hmem : entry.size ∈ taken
    · have herase := List.perm_cons_erase hmem
      have htotal := total_perm herase
      rw [total_cons] at htotal
      have hnone := htake (by omega) (refusedAlike_eq_false fun last hlast heq =>
        halike last hlast (heq ▸ hmem))
      obtain ⟨bin', later', known', hP, hl, hc⟩ :=
        ih (room - entry.size) (entry :: bin) later known hk hnone (taken.erase entry.size) refused
          (List.Perm.cons_inv ((herase.symm.append_right refused).trans hp)) (by omega)
          (fun last hlast hm => halike last hlast (List.mem_of_mem_erase hm)) hspare
      refine ⟨bin', later', known', hP, hl, ?_⟩
      rwa [show room - total taken = room - entry.size - total (taken.erase entry.size) by omega]
    · have hrefused : entry.size ∈ refused := by
        have hany : entry.size ∈ taken ++ refused := hp.mem_iff.mpr (by simp)
        simpa [hmem] using hany
      have herase := List.perm_cons_erase hrefused
      have hload : load (entry :: later) + total (refused.erase entry.size) =
          load later + total refused := by
        rw [total_perm herase]
        rw [load_cons, total_cons]
        omega
      obtain ⟨known', hk', hnone⟩ := hrefuse (by omega)
      obtain ⟨bin', later', known'', hP, hl, hc⟩ :=
        ih room bin (entry :: later) known' hk' hnone taken (refused.erase entry.size)
          (List.Perm.cons_inv
            ((List.perm_middle.symm.trans (herase.symm.append_left _)).trans hp))
          hroom (by simpa using hmem) (by omega)
      refine ⟨bin', later', known'', hP, hl.trans ?_, hc⟩
      simp only [List.map_cons, List.cons_append]
      exact List.perm_middle.symm.trans (herase.symm.append_left _)

end Choose

theorem closeBin_eq_some {pack : List Entry → KeySet → Finding} {room : Nat}
    {bin later : List Entry} {known : KeySet} {packed : List (List Entry)}
    (h : (closeBin pack room bin later known).1 = some packed) :
    ∃ rest, (pack later.reverse known).1 = some rest ∧ packed = bin :: rest := by
  unfold closeBin at h
  split at h
  · simp at h
  · split at h
    · next rest _ hrest =>
      exact ⟨rest, congrArg Prod.fst hrest, by simpa using h.symm⟩
    · simp at h

theorem closeBin_known {P : KeySet → Prop} {pack : List Entry → KeySet → Finding}
    (hpack : ∀ entries known, P known → P (pack entries known).2) (room : Nat)
    (bin later : List Entry) (known : KeySet) (hk : P known) :
    P (closeBin pack room bin later known).2 := by
  have hrest := hpack later.reverse known hk
  unfold closeBin
  split
  · exact hk
  · split
    · next h => simpa only [h] using hrest
    · next h => simpa only [h] using hrest

theorem closeBin_eq_none {pack : List Entry → KeySet → Finding} {room : Nat}
    {bin later : List Entry} {known : KeySet} (hfull : leavesRoom room later = false)
    (h : (closeBin pack room bin later known).1 = none) :
    (pack later.reverse known).1 = none := by
  unfold closeBin at h
  rw [if_neg (by simp [hfull])] at h
  split at h
  · simp at h
  · next hrest => exact congrArg Prod.fst hrest

theorem packInto_eq_some {capacity bins : Nat} {entries : List Entry} {known : KeySet}
    {packed : List (List Entry)} (h : (packInto capacity bins entries known).1 = some packed) :
    packed.flatten.Perm entries ∧ (∀ bin ∈ packed, load bin ≤ capacity) ∧
      packed.length ≤ bins := by
  induction bins generalizing entries known packed with
  | zero =>
    cases entries with
    | nil =>
      obtain rfl : [] = packed := by simpa [packInto] using h
      simp
    | cons entry entries => simp [packInto] at h
  | succ bins ih =>
    cases entries with
    | nil =>
      obtain rfl : [] = packed := by simpa [packInto] using h
      simp
    | cons entry pending =>
      unfold packInto at h
      split at h
      · simp at h
      · next hfits =>
        simp only [not_or, Nat.not_lt] at hfits
        simp only at h
        split at h
        · next found _ hfound =>
          obtain rfl : found = packed := by simpa using h
          obtain ⟨room, bin, later, _, hclose, hp, hload⟩ :=
            choose_eq_some pending _ _ _ _ (congrArg Prod.fst hfound)
          obtain ⟨rest, hrest, rfl⟩ := closeBin_eq_some hclose
          obtain ⟨hflatten, hbins, hlength⟩ := ih hrest
          refine ⟨?_, ?_, by simpa using hlength⟩
          · rw [List.flatten_cons]
            exact ((hflatten.trans (List.reverse_perm _)).append_left _).trans
              (by simpa using hp)
          · have hbin : load bin ≤ capacity := by
              rw [load_cons, load_nil] at hload
              omega
            simpa using ⟨hbin, hbins⟩
        · simp at h

theorem leavesRoom_eq_false {room : Nat} {later : List Entry}
    (h : ∀ entry ∈ later, room < entry.size) : leavesRoom room later = false := by
  cases later with
  | nil => rfl
  | cons last later => simpa [leavesRoom] using h last (by simp)

/-- If every bin around the first entry that refuses what it has no room for fails, there is no
packing at all: the bin of the first entry can be chosen like that. -/
theorem not_packable_of_choose_eq_none {capacity bins : Nat} {entry : Entry} {pending : List Entry}
    {known : KeySet} {pack : List Entry → KeySet → Finding}
    (hpack : ∀ entries known, Known capacity known → Known capacity (pack entries known).2 ∧
      ((pack entries known).1 = none → ¬ Packable capacity bins (entries.map Entry.size)))
    (hk : Known capacity known) (h : (choose (closeBin pack) (bins * capacity)
      (capacity - entry.size) [entry] [] pending known).1 = none) :
    ¬ Packable capacity (bins + 1) ((entry :: pending).map Entry.size) := by
  intro hpackable
  obtain ⟨taken, refused, hp, hle, hrest, hfull⟩ := Packable.choice hpackable
  obtain ⟨bin, later, known', hk', hl, hc⟩ :=
    choose_eq_none (closeBin_known fun entries known hk => (hpack entries known hk).1) pending
      (capacity - entry.size) [entry] [] known hk h taken refused hp (by omega) (by simp)
      (by simpa using hrest.total_le)
  rw [List.map_nil, List.nil_append] at hl
  have hroom : leavesRoom (capacity - entry.size - total taken) later = false := by
    apply leavesRoom_eq_false
    intro last hlast
    have hbeyond := hfull last.size (hl.mem_iff.mp (List.mem_map_of_mem hlast))
    omega
  have hreverse : refused.Perm (later.reverse.map Entry.size) :=
    hl.symm.trans ((List.reverse_perm later).symm.map Entry.size)
  exact (hpack later.reverse known' hk').2 (closeBin_eq_none hroom hc) (hrest.perm hreverse)

theorem packInto_spec (capacity bins : Nat) (entries : List Entry) (known : KeySet)
    (hk : Known capacity known) :
    Known capacity (packInto capacity bins entries known).2 ∧
      ((packInto capacity bins entries known).1 = none →
        ¬ Packable capacity bins (entries.map Entry.size)) := by
  induction bins generalizing entries known with
  | zero =>
    cases entries with
    | nil => exact ⟨hk, by simp [packInto]⟩
    | cons entry entries => exact ⟨hk, fun _ => Packable.not_zero_cons⟩
  | succ bins ih =>
    cases entries with
    | nil => exact ⟨hk, by simp [packInto]⟩
    | cons entry pending =>
      unfold packInto
      split
      · next h =>
        refine ⟨hk, fun _ hpackable => ?_⟩
        rcases h with h | h
        · exact hk _ _ h hpackable
        · obtain ⟨_, _, _, hle, _⟩ := hpackable.split
          omega
      · have hknown : Known capacity (choose (closeBin (packInto capacity bins)) (bins * capacity)
            (capacity - entry.size) [entry] [] pending known).2 :=
          choose_known (closeBin_known fun entries known hk => (ih entries known hk).1) pending
            _ _ _ _ hk
        cases hfound : choose (closeBin (packInto capacity bins)) (bins * capacity)
            (capacity - entry.size) [entry] [] pending known with
        | mk found known' =>
          rw [hfound] at hknown
          cases found with
          | some packed => exact ⟨hknown, by simp⟩
          | none =>
            have hnot := not_packable_of_choose_eq_none ih hk (congrArg Prod.fst hfound)
            exact ⟨known_insert hknown hnot, fun _ => hnot⟩

end Search

end StorageSlots
