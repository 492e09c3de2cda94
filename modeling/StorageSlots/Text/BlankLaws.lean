import StorageSlots.Text.Blank
import Mathlib.Data.List.Induction
import Mathlib.Data.List.TakeWhile

/-!
Trimmed texts and the words of a text, said without the functions that find them.

`Trims cs t` says that `t` is left of `cs` when the blanks at both ends are cut off, and `IsWord cs w`
that `w` is a word of `cs`. Words do not change where a text is split at a blank.
-/

namespace StorageSlots.Text

variable {cs t w : List Char}

theorem solid_of_all (h : w.all fun c => !isBlank c) : ∀ c ∈ w, isBlank c = false := by
  simpa using h

/-! ### Trimming -/

structure Trims (cs t : List Char) : Prop where
  cut : ∃ before after, cs = before ++ t ++ after ∧ (∀ c ∈ before, isBlank c = true) ∧
    ∀ c ∈ after, isBlank c = true
  head : ∀ c ∈ t.head?, isBlank c = false
  last : ∀ c ∈ t.getLast?, isBlank c = false

theorem dropWhile_blanks_append {blanks rest : List Char} (hblanks : ∀ c ∈ blanks, isBlank c = true)
    (hrest : ∀ c ∈ rest.head?, isBlank c = false) :
    (blanks ++ rest).dropWhile isBlank = rest := by
  rw [List.dropWhile_append_of_pos hblanks]
  cases rest with
  | nil => rfl
  | cons c rest => exact List.dropWhile_cons_of_neg (by simpa using hrest c rfl)

theorem head?_dropWhile_isBlank (cs : List Char) :
    ∀ c ∈ (cs.dropWhile isBlank).head?, isBlank c = false := by
  intro c hc
  have hhead := List.head?_dropWhile_not isBlank cs
  rw [Option.mem_def.mp hc] at hhead
  exact hhead

theorem Trims.trim_eq (h : Trims cs t) : trim cs = t := by
  obtain ⟨before, after, rfl, hbefore, hafter⟩ := h.cut
  have hback : ∀ c ∈ after.reverse, isBlank c = true := by simpa using hafter
  have hhead : ∀ c ∈ t.reverse.head?, isBlank c = false := by
    rw [List.head?_reverse]
    exact h.last
  rw [trim, List.append_assoc]
  cases t with
  | nil =>
    rw [List.nil_append,
      List.dropWhile_eq_nil_iff.mpr (List.forall_mem_append.mpr ⟨hbefore, hafter⟩)]
    rfl
  | cons c t =>
    have hfront : ∀ d ∈ (c :: t ++ after).head?, isBlank d = false := h.head
    rw [dropWhile_blanks_append hbefore hfront, List.reverse_append,
      dropWhile_blanks_append hback hhead, List.reverse_reverse]

theorem trims_trim (cs : List Char) : Trims cs (trim cs) := by
  have hfront := List.takeWhile_append_dropWhile (p := isBlank) (l := cs)
  have hback := List.takeWhile_append_dropWhile (p := isBlank)
    (l := (cs.dropWhile isBlank).reverse)
  have htrim : cs.dropWhile isBlank =
      trim cs ++ ((cs.dropWhile isBlank).reverse.takeWhile isBlank).reverse := by
    rw [trim, ← List.reverse_append, hback, List.reverse_reverse]
  refine ⟨⟨cs.takeWhile isBlank, ((cs.dropWhile isBlank).reverse.takeWhile isBlank).reverse,
    ?_, fun c hc => List.mem_takeWhile_imp hc, ?_⟩, ?_, ?_⟩
  · rw [List.append_assoc, ← htrim, hfront]
  · intro c hc
    exact List.mem_takeWhile_imp (List.mem_reverse.mp hc)
  · intro c hc
    refine head?_dropWhile_isBlank cs c ?_
    rw [htrim, List.head?_append, Option.mem_def.mp hc]
    rfl
  · rw [trim, List.getLast?_reverse]
    exact head?_dropWhile_isBlank _

theorem trims_iff : Trims cs t ↔ trim cs = t :=
  ⟨Trims.trim_eq, fun h => h ▸ trims_trim cs⟩

/-- Nothing is cut off in front of a text that begins with something other than blanks. -/
theorem exists_trim_append (hne : w ≠ []) (hsolid : ∀ c ∈ w, isBlank c = false) (h : w <+: cs) :
    ∃ blanks, cs = trim cs ++ blanks ∧ (∀ c ∈ blanks, isBlank c = true) ∧ w <+: trim cs := by
  obtain ⟨before, blanks, hcs, hbefore, hblanks⟩ := (trims_trim cs).cut
  have hnil : before = [] := by
    cases before with
    | nil => rfl
    | cons c before =>
      cases w with
      | nil => exact absurd rfl hne
      | cons d w =>
        rw [hcs, List.append_assoc, List.cons_append, List.cons_prefix_cons] at h
        have hblank := hbefore c List.mem_cons_self
        rw [← h.1, hsolid d List.mem_cons_self] at hblank
        exact absurd hblank (by decide)
  rw [hnil, List.nil_append] at hcs
  refine ⟨blanks, hcs, hblanks, ?_⟩
  rw [hcs] at h
  rcases List.prefix_or_prefix_of_prefix h (List.prefix_append (trim cs) blanks) with
    hstart | ⟨s, hs⟩
  · exact hstart
  · -- What lies behind the trimmed text is blank, so the start does not reach into it.
    have hrest : s <+: blanks := by
      rw [← hs] at h
      exact (List.prefix_append_right_inj _).mp h
    have hs_nil : s = [] := by
      rw [List.eq_nil_iff_forall_not_mem]
      intro c hc
      have hblank := hblanks c (hrest.subset hc)
      rw [hsolid c (hs ▸ List.mem_append_right _ hc)] at hblank
      exact absurd hblank (by decide)
    rw [hs_nil, List.append_nil] at hs
    exact hs ▸ List.prefix_rfl

/-! ### Words -/

structure IsWord (cs w : List Char) : Prop where
  nonempty : w ≠ []
  solid : ∀ c ∈ w, isBlank c = false
  bounded : ∃ before after, cs = before ++ w ++ after ∧
    (∀ c ∈ before.getLast?, isBlank c = true) ∧ ∀ c ∈ after.head?, isBlank c = true

theorem wordsFrom_append_blank {c : Char} (hc : isBlank c = true) (word rest : List Char) :
    wordsFrom word (cs ++ c :: rest) = wordsFrom word cs ++ words rest := by
  induction cs generalizing word with
  | nil => cases word <;> simp [wordsFrom, words, hc]
  | cons d cs ih =>
    rw [List.cons_append, wordsFrom, wordsFrom]
    by_cases hd : isBlank d = true
    · cases word <;> simp [hd, ih]
    · simp [hd, ih]

theorem words_cons_blank {c : Char} (hc : isBlank c = true) (rest : List Char) :
    words (c :: rest) = words rest := by
  rw [words, ← List.nil_append (c :: rest), wordsFrom_append_blank hc, ← words, words_nil,
    List.nil_append]

theorem words_append_of_head {rest : List Char} (h : ∀ c ∈ rest.head?, isBlank c = true) :
    words (cs ++ rest) = words cs ++ words rest := by
  cases rest with
  | nil => simp [words_nil]
  | cons c rest =>
    rw [words_cons_blank (h c rfl), words, wordsFrom_append_blank (h c rfl), ← words]

theorem words_append_of_getLast (h : ∀ c ∈ cs.getLast?, isBlank c = true) (rest : List Char) :
    words (cs ++ rest) = words cs ++ words rest := by
  induction cs using List.reverseRecOn with
  | nil => rfl
  | append_singleton cs c _ =>
    have hc : isBlank c = true := h c (by simp)
    rw [List.append_assoc, List.singleton_append, words, words, wordsFrom_append_blank hc,
      wordsFrom_append_blank hc, words_nil, List.append_nil]

theorem words_blanks {blanks : List Char} (h : ∀ c ∈ blanks, isBlank c = true) :
    words blanks = [] := by
  induction blanks with
  | nil => rfl
  | cons c blanks ih =>
    obtain ⟨hc, hblanks⟩ := List.forall_mem_cons.mp h
    rw [words_cons_blank hc, ih hblanks]

theorem words_append_blanks {blanks : List Char} (h : ∀ c ∈ blanks, isBlank c = true) :
    words (cs ++ blanks) = words cs := by
  rw [words_append_of_head fun c hc => h c (List.mem_of_mem_head? hc), words_blanks h,
    List.append_nil]

theorem wordsFrom_solid_append (hsolid : ∀ c ∈ w, isBlank c = false) (word rest : List Char) :
    wordsFrom word (w ++ rest) = wordsFrom (w.reverse ++ word) rest := by
  induction w generalizing word with
  | nil => rfl
  | cons c w ih =>
    obtain ⟨hc, hw⟩ := List.forall_mem_cons.mp hsolid
    rw [List.cons_append, wordsFrom, if_neg (by simp [hc]), ih hw]
    simp

theorem words_solid (hne : w ≠ []) (hsolid : ∀ c ∈ w, isBlank c = false) : words w = [w] := by
  have h := wordsFrom_solid_append hsolid [] []
  rw [List.append_nil, List.append_nil] at h
  rw [words, h, wordsFrom, List.reverse_reverse, if_neg (by simpa using hne)]

/-- The word under way is the start of the first word. -/
theorem exists_wordsFrom_eq_cons {word : List Char} (hne : word ≠ []) (cs : List Char) :
    ∃ first others, wordsFrom word cs = first :: others ∧ word.reverse <+: first := by
  induction cs generalizing word with
  | nil => exact ⟨word.reverse, [], by simp [wordsFrom, hne], List.prefix_rfl⟩
  | cons c cs ih =>
    by_cases hc : isBlank c = true
    · exact ⟨word.reverse, wordsFrom [] cs, by simp [wordsFrom, hc, hne], List.prefix_rfl⟩
    · obtain ⟨first, others, hfirst, hstart⟩ := ih (List.cons_ne_nil c word)
      refine ⟨first, others, by simp [wordsFrom, hc, hfirst], ?_⟩
      rw [List.reverse_cons] at hstart
      exact (List.prefix_append _ _).trans hstart

theorem exists_words_eq_cons (hne : w ≠ []) (hsolid : ∀ c ∈ w, isBlank c = false)
    (rest : List Char) : ∃ first others, words (w ++ rest) = first :: others ∧ w <+: first := by
  have hreverse : w.reverse ≠ [] := by simpa using hne
  have h := exists_wordsFrom_eq_cons hreverse rest
  rwa [List.reverse_reverse, ← List.append_nil w.reverse, ← wordsFrom_solid_append hsolid] at h

theorem isWord_of_mem_wordsFrom {word : List Char} (hsolid : ∀ c ∈ word, isBlank c = false)
    (h : w ∈ wordsFrom word cs) : IsWord (word.reverse ++ cs) w := by
  induction cs generalizing word with
  | nil =>
    cases word with
    | nil => simp [wordsFrom] at h
    | cons c word =>
      obtain rfl : w = (c :: word).reverse := by simpa [wordsFrom] using h
      exact ⟨by simp, fun d hd => hsolid d (List.mem_reverse.mp hd), [], [], by simp, by simp,
        by simp⟩
  | cons c cs ih =>
    by_cases hc : isBlank c = true
    · -- The blank ends the word under way; any other word lies behind it.
      have hbehind : w ∈ wordsFrom [] cs → IsWord (word.reverse ++ c :: cs) w := by
        intro hw
        obtain ⟨hne, hall, before, after, hcs, hbefore, hafter⟩ := ih (List.forall_mem_nil _) hw
        refine ⟨hne, hall, word.reverse ++ c :: before, after, ?_, ?_, hafter⟩
        · rw [List.reverse_nil, List.nil_append] at hcs
          simp [hcs]
        · cases before with
          | nil => simpa using hc
          | cons d before => simpa using hbefore
      cases word with
      | nil => exact hbehind (by simpa [wordsFrom, hc] using h)
      | cons d word =>
        rw [wordsFrom, if_pos hc] at h
        rcases List.mem_cons.mp h with rfl | hw
        · exact ⟨by simp, fun e he => hsolid e (List.mem_reverse.mp he), [], c :: cs, by simp,
            by simp, by simpa using hc⟩
        · exact hbehind hw
    · have hstep : wordsFrom word (c :: cs) = wordsFrom (c :: word) cs := by
        rw [wordsFrom, if_neg hc]
      rw [hstep] at h
      have hword := ih (List.forall_mem_cons.mpr ⟨Bool.not_eq_true _ ▸ hc, hsolid⟩) h
      simpa using hword

theorem mem_words_iff : w ∈ words cs ↔ IsWord cs w := by
  constructor
  · intro h
    exact isWord_of_mem_wordsFrom (List.forall_mem_nil _) h
  · rintro ⟨hne, hsolid, before, after, rfl, hbefore, hafter⟩
    rw [List.append_assoc, words_append_of_getLast hbefore, words_append_of_head hafter,
      words_solid hne hsolid]
    simp

end StorageSlots.Text
