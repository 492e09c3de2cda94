import StorageSlots.ParameterScan
import StorageSlots.Proofs.Naming
import StorageSlots.Text.BlankLaws

/-!
The visibility of function types.

Where the parameter list ends is known from the counts of parentheses alone, so what stands in it
cannot count as a visibility, and neither can what stands behind `returns`.
-/

namespace StorageSlots

namespace ElementaryType

open Text (IsWord)

variable {label : String} {a cs m p r t : List Char} {c : Char} {depth left : Nat}

/-! ### Parentheses -/

/-- No start of `p` closes more parentheses than it opens and `depth` others. -/
def Within (depth : Nat) (p : List Char) : Prop :=
  ∀ q, q <+: p → q.count ')' ≤ q.count '(' + depth

structure Balanced (p : List Char) : Prop where
  within : ∀ q, q <+: p → q.count ')' ≤ q.count '('
  total : p.count ')' = p.count '('

theorem balanced_iff : Balanced p ↔
    (∀ q ∈ p.inits, q.count ')' ≤ q.count '(') ∧ p.count ')' = p.count '(' := by
  simp only [List.mem_inits]
  exact ⟨fun h => ⟨h.within, h.total⟩, fun h => ⟨h.1, h.2⟩⟩

instance (p : List Char) : Decidable (Balanced p) :=
  decidable_of_iff _ balanced_iff.symm

theorem within_cons_iff : Within depth (c :: p) ↔
    ∀ q, q <+: p → (c :: q).count ')' ≤ (c :: q).count '(' + depth := by
  constructor
  · intro h q hq
    exact h _ ((List.prefix_cons_inj c).mpr hq)
  · intro h q hq
    rcases List.prefix_cons_iff.mp hq with rfl | ⟨q, rfl, hrest⟩
    · exact Nat.zero_le _
    · exact h q hrest

theorem within_open_iff : Within depth ('(' :: p) ↔ Within (depth + 1) p := by
  rw [within_cons_iff]
  simp [Within, Nat.add_assoc, Nat.add_comm 1]

theorem within_close_iff : Within (depth + 1) (')' :: p) ↔ Within depth p := by
  rw [within_cons_iff]
  simp [Within, ← Nat.add_assoc]

theorem not_within_close : ¬ Within 0 (')' :: p) := by
  intro h
  simpa using h [')'] (List.prefix_append [')'] p)

theorem within_other_iff (hopen : c ≠ '(') (hclose : c ≠ ')') :
    Within depth (c :: p) ↔ Within depth p := by
  rw [within_cons_iff]
  simp [Within, hopen, hclose]

theorem afterClose_other (hopen : c ≠ '(') (hclose : c ≠ ')') :
    afterClose depth (c :: cs) = afterClose depth cs := by
  rw [afterClose] <;> simp [hopen, hclose]

theorem scanDepth_other (hopen : c ≠ '(') (hclose : c ≠ ')') :
    scanDepth depth (c :: cs) = scanDepth depth cs := by
  rw [scanDepth] <;> simp [hopen, hclose]

/-- The scan goes through a part that closes nothing it should not, and keeps the count. -/
theorem afterClose_append (h : Within depth p) (hleft : p.count '(' + depth = p.count ')' + left)
    (rest : List Char) : afterClose (depth + 1) (p ++ rest) = afterClose (left + 1) rest := by
  induction p generalizing depth with
  | nil =>
    obtain rfl : depth = left := by simpa using hleft
    rfl
  | cons c p ih =>
    rw [List.cons_append]
    rcases eq_or_ne c '(' with rfl | hopen
    · rw [afterClose]
      refine ih (within_open_iff.mp h) ?_
      simp only [List.count_cons_self, ne_eq, Char.reduceEq, not_false_eq_true,
        List.count_cons_of_ne] at hleft
      omega
    · rcases eq_or_ne c ')' with rfl | hclose
      · cases depth with
        | zero => exact absurd h not_within_close
        | succ depth =>
          rw [afterClose]
          refine ih (within_close_iff.mp h) ?_
          simp only [List.count_cons_self, ne_eq, Char.reduceEq, not_false_eq_true,
            List.count_cons_of_ne] at hleft
          omega
      · rw [afterClose_other hopen hclose]
        refine ih ((within_other_iff hopen hclose).mp h) ?_
        simpa [hopen, hclose] using hleft

theorem Balanced.afterClose_eq (h : Balanced p) (rest : List Char) :
    afterClose 1 (p ++ ')' :: rest) = some rest := by
  have hwithin : Within 0 p := h.within
  have hleft : p.count '(' + 0 = p.count ')' + 0 := h.total.symm
  rw [afterClose_append hwithin hleft, afterClose]

theorem afterClose_eq_none (h : Within 0 p) : afterClose 1 p = none := by
  have hcount := h p List.prefix_rfl
  obtain ⟨left, hleft⟩ := Nat.exists_eq_add_of_le hcount
  have happend := afterClose_append h hleft []
  rwa [List.append_nil] at happend

theorem scanDepth_succ (depth : Nat) (cs : List Char) :
    scanDepth (depth + 1) cs = some (afterClose (depth + 1) cs) := by
  induction cs generalizing depth with
  | nil => rfl
  | cons c cs ih =>
    rcases eq_or_ne c '(' with rfl | hopen
    · rw [scanDepth, afterClose, ih]
    · rcases eq_or_ne c ')' with rfl | hclose
      · cases depth with
        | zero => rfl
        | succ depth => rw [scanDepth, afterClose, if_neg (Nat.succ_ne_zero depth), ih]
      · rw [scanDepth_other hopen hclose, afterClose_other hopen hclose, ih]

theorem scanParameters_eq (label : List Char) :
    scanParameters label = some (afterParameters? label) := by
  rw [scanParameters, afterParameters?]
  cases hrest : label.dropWhile (· != '(') with
  | nil => rfl
  | cons c cs =>
    have hhead := List.head?_dropWhile_not (· != '(') label
    rw [hrest] at hhead
    obtain rfl : c = '(' := by simpa using hhead
    rw [scanDepth, scanDepth_succ]

/-! ### Labels of functions -/

theorem dropWhile_open (h : '(' ∉ a) (rest : List Char) :
    (a ++ '(' :: rest).dropWhile (· != '(') = '(' :: rest := by
  have hpass : ∀ c ∈ a, (c != '(') = true := by
    intro c hc
    simpa using ne_of_mem_of_not_mem hc h
  rw [List.dropWhile_append_of_pos hpass, List.dropWhile_cons_of_neg (by simp)]

theorem afterParameters?_eq (h : '(' ∉ a) (rest : List Char) :
    afterParameters? (a ++ '(' :: rest) = afterClose 1 rest := by
  rw [afterParameters?, dropWhile_open h]

theorem afterParameters?_eq_none (h : '(' ∉ cs) : afterParameters? cs = none := by
  have hnil : cs.dropWhile (· != '(') = [] := by
    rw [List.dropWhile_eq_nil_iff]
    intro c hc
    simpa using ne_of_mem_of_not_mem hc h
  rw [afterParameters?, hnil]

theorem ne_of_isBlank {d : Char} (hc : Text.isBlank c = true) (hd : Text.isBlank d = false) :
    c ≠ d := by
  rintro rfl
  simp [hc] at hd

theorem afterClose_blanks {blanks : List Char} (h : ∀ c ∈ blanks, Text.isBlank c = true)
    (depth : Nat) : afterClose depth blanks = none := by
  induction blanks with
  | nil => rw [afterClose]
  | cons c blanks ih =>
    obtain ⟨hc, hblanks⟩ := List.forall_mem_cons.mp h
    rw [afterClose_other (ne_of_isBlank hc (by decide)) (ne_of_isBlank hc (by decide)), ih hblanks]

theorem afterClose_append_blanks {blanks : List Char}
    (h : ∀ c ∈ blanks, Text.isBlank c = true) (depth : Nat) (cs : List Char) :
    afterClose depth (cs ++ blanks) = (afterClose depth cs).map (· ++ blanks) := by
  induction cs generalizing depth with
  | nil => rw [List.nil_append, afterClose_blanks h, afterClose, Option.map_none]
  | cons c cs ih =>
    rw [List.cons_append]
    rcases eq_or_ne c '(' with rfl | hopen
    · rw [afterClose, afterClose, ih]
    · rcases eq_or_ne c ')' with rfl | hclose
      · match depth with
        | 0 => rfl
        | 1 => rfl
        | depth + 2 => rw [afterClose, afterClose, ih]
      · rw [afterClose_other hopen hclose, afterClose_other hopen hclose, ih]

theorem afterParameters?_append_blanks {blanks : List Char}
    (h : ∀ c ∈ blanks, Text.isBlank c = true) (t : List Char) :
    afterParameters? (t ++ blanks) = (afterParameters? t).map (· ++ blanks) := by
  by_cases hopen : '(' ∈ t
  · obtain ⟨a, rest, rfl, ha⟩ := List.eq_append_cons_of_mem hopen
    rw [List.append_assoc, List.cons_append, afterParameters?_eq ha, afterParameters?_eq ha,
      afterClose_append_blanks h]
  · have hblanks : '(' ∉ blanks := fun hmem => ne_of_isBlank (h _ hmem) (by decide) rfl
    rw [afterParameters?_eq_none (by simp [hopen, hblanks]), afterParameters?_eq_none hopen,
      Option.map_none]

theorem isExternal_append_blanks {blanks : List Char}
    (h : ∀ c ∈ blanks, Text.isBlank c = true) (t : List Char) :
    isExternal (t ++ blanks) = isExternal t := by
  rw [isExternal, isExternal, afterParameters?_append_blanks h]
  cases afterParameters? t with
  | none => rfl
  | some cs =>
    rw [Option.map_some]
    simp only [Text.words_append_blanks h]

theorem parse_function (h : "function".toList <+: label.toList) :
    parse label = some (.function (isExternal label.toList)) := by
  obtain ⟨blanks, hlabel, hblanks, rest, hrest⟩ :=
    Text.exists_trim_append (by decide) (Text.solid_of_all (by decide)) h
  have hexternal : isExternal label.toList = isExternal (Text.trim label.toList) := by
    conv_lhs => rw [hlabel]
    exact isExternal_append_blanks hblanks _
  rw [hexternal, parse, ← hrest]
  exact ofTrimmed?_of_names .function

/-- Nothing, or blanks and a return list behind them. -/
def IsReturnPart (r : List Char) : Prop :=
  r = [] ∨ ∃ blanks rest, r = blanks ++ ("returns".toList ++ rest) ∧ blanks ≠ [] ∧
    ∀ c ∈ blanks, Text.isBlank c = true

theorem IsReturnPart.isBlank_head? (h : IsReturnPart r) : ∀ c ∈ r.head?, Text.isBlank c = true := by
  rcases h with rfl | ⟨blanks, rest, rfl, hne, hblanks⟩
  · simp
  · intro c hc
    rw [List.head?_append_of_ne_nil _ hne] at hc
    exact hblanks c (List.mem_of_mem_head? hc)

theorem not_isPrefixOf_iff (w : List Char) :
    (!"returns".toList.isPrefixOf w) = true ↔ ¬ "returns".toList <+: w := by
  rw [Bool.not_eq_true', ← Bool.not_eq_true, List.isPrefixOf_iff_prefix]

theorem IsReturnPart.takeWhile_words (h : IsReturnPart r) :
    (Text.words r).takeWhile (fun word => !"returns".toList.isPrefixOf word) = [] := by
  rcases h with rfl | ⟨blanks, rest, rfl, -, hblanks⟩
  · rfl
  · have hsolid : ∀ c ∈ "returns".toList, Text.isBlank c = false :=
      Text.solid_of_all (by decide)
    obtain ⟨first, others, hwords, hfirst⟩ := Text.exists_words_eq_cons (by decide) hsolid rest
    have hblank : ∀ c ∈ blanks.getLast?, Text.isBlank c = true := fun c hc =>
      hblanks c (List.mem_of_mem_getLast? hc)
    have hstop : ¬ (!"returns".toList.isPrefixOf first) = true := by
      rw [not_isPrefixOf_iff]
      exact not_not_intro hfirst
    rw [Text.words_append_of_getLast hblank, Text.words_blanks hblanks, hwords, List.nil_append]
    exact List.takeWhile_cons_of_neg hstop

theorem isExternal_eq_true_iff (ha : '(' ∉ a) (hp : Balanced p)
    (hm : ∀ w, IsWord m w → ¬ "returns".toList <+: w) (hr : IsReturnPart r) :
    isExternal (a ++ '(' :: (p ++ ')' :: (m ++ r))) = true ↔ IsWord m "external".toList := by
  have hpass : ∀ w ∈ Text.words m, (!"returns".toList.isPrefixOf w) = true := fun w hw =>
    (not_isPrefixOf_iff w).mpr (hm w (Text.mem_words_iff.mp hw))
  rw [isExternal, afterParameters?_eq ha, hp.afterClose_eq]
  simp only [Text.words_append_of_head hr.isBlank_head?]
  rw [List.takeWhile_append_of_pos hpass, hr.takeWhile_words, List.append_nil,
    List.contains_iff_mem, Text.mem_words_iff]

theorem isExternal_eq_false (h : '(' ∉ cs ∨ ∃ a p, cs = a ++ '(' :: p ∧ '(' ∉ a ∧
    ∀ q, q <+: p → q.count ')' ≤ q.count '(') : isExternal cs = false := by
  have hnone : afterParameters? cs = none := by
    rcases h with hopen | ⟨a, p, rfl, ha, hp⟩
    · exact afterParameters?_eq_none hopen
    · exact (afterParameters?_eq ha p).trans (afterClose_eq_none hp)
  rw [isExternal, hnone]

theorem parse_visibility :
    (∀ (label : String) a p m r,
      label.toList = "function".toList ++ (a ++ '(' :: (p ++ ')' :: (m ++ r))) →
        '(' ∉ a → Balanced p → (∀ w, IsWord m w → ¬ "returns".toList <+: w) → IsReturnPart r →
          ∃ external, parse label = some (.function external) ∧
            (external = true ↔ IsWord m "external".toList)) ∧
    (∀ label : String, "function".toList <+: label.toList →
      '(' ∉ label.toList ∨ (∃ a p, label.toList = a ++ '(' :: p ∧ '(' ∉ a ∧
        ∀ q, q <+: p → q.count ')' ≤ q.count '(') →
          parse label = some (.function false)) ∧
    ∀ label, scanParameters label = some (afterParameters? label) := by
  refine ⟨?_, ?_, scanParameters_eq⟩
  · intro label a p m r hlabel ha hp hm hr
    have hopen : '(' ∉ "function".toList ++ a := by simpa using ha
    refine ⟨_, parse_function ⟨_, hlabel.symm⟩, ?_⟩
    rw [hlabel, ← List.append_assoc]
    exact isExternal_eq_true_iff hopen hp hm hr
  · intro label hstart hunclosed
    rw [parse_function hstart, isExternal_eq_false hunclosed]

theorem parse_visibility_nested :
    Balanced "function () external".toList ∧
    IsReturnPart " returns (function () external)".toList ∧
    parse "function (function () external) pure returns (function () external)" =
      some (.function false) ∧
    Balanced "function () internal".toList ∧
    parse "function (function () internal) external" = some (.function true) ∧
    parse "function ((uint256) external" = some (.function false) := by
  obtain ⟨hclosed, hopen, -⟩ := parse_visibility
  have hinside : Balanced "function () external".toList := by decide +kernel
  have hinside' : Balanced "function () internal".toList := by decide +kernel
  have hreturns : IsReturnPart " returns (function () external)".toList :=
    .inr ⟨[' '], _, rfl, by decide, by simp [Text.isBlank_space]⟩
  have hpure : ∀ w, IsWord " pure".toList w → ¬ "returns".toList <+: w := by
    simp only [← Text.mem_words_iff]
    decide
  have hexternal : ∀ w, IsWord " external".toList w → ¬ "returns".toList <+: w := by
    simp only [← Text.mem_words_iff]
    decide
  obtain ⟨internal, hinternal, hiff⟩ := hclosed
    "function (function () external) pure returns (function () external)" [' '] _ _ _ rfl
    (by decide) hinside hpure hreturns
  obtain ⟨external, houter, hiff'⟩ := hclosed "function (function () internal) external" [' '] _ _ []
    rfl (by decide) hinside' hexternal (.inl rfl)
  have hfalse : internal = false := by
    rw [Bool.eq_false_iff, ne_eq, hiff, ← Text.mem_words_iff]
    decide
  have htrue : external = true := by
    rw [hiff', ← Text.mem_words_iff]
    decide
  have hunclosed : ∀ q, q <+: "(uint256) external".toList → q.count ')' ≤ q.count '(' := by
    simp only [← List.mem_inits]
    decide +kernel
  exact ⟨hinside, hreturns, hfalse ▸ hinternal, hinside', htrue ▸ houter,
    hopen "function ((uint256) external" ⟨_, rfl⟩
      (.inr ⟨"function ".toList, _, rfl, by decide, hunclosed⟩)⟩

end ElementaryType

end StorageSlots
