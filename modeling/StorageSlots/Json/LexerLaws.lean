import StorageSlots.Json.Lexer

/-!
The lexer takes a text of tokens back to the tokens.

Tokens may be written with white space around them. Words, which are numbers and literals, have to
be followed by something that ends them; all other tokens end where they end.
-/

namespace StorageSlots.Json

theorem quote_none : quote none = ['"', '\\', 'u', 'd', '8', '0', '0', '"'] :=
  String.toList_ofList

theorem quote_some (s : String) : quote (some s) = '"' :: (s.toList.flatMap escape ++ ['"']) := rfl

namespace Lexer

def scan (state : State) (cs : List Char) : Option (List Token) :=
  (cs.foldlM step state).bind finish

theorem scan_cons (state : State) (c : Char) (cs : List Char) :
    scan state (c :: cs) = (step state c).bind (scan · cs) := by
  rw [scan, List.foldlM_cons]
  cases step state c <;> rfl

theorem scan_of_step {state next : State} {c : Char} (h : step state c = some next)
    (cs : List Char) : scan state (c :: cs) = scan next cs := by
  rw [scan_cons, h, Option.bind_some]

theorem scan_append {state next : State} {text : List Char}
    (h : text.foldlM step state = some next) (cs : List Char) :
    scan state (text ++ cs) = scan next cs := by
  rw [scan, List.foldlM_append, h]
  rfl

theorem scan_space {c : Char} (h : isSpace c = true) (done : List Token) (cs : List Char) :
    scan ⟨.between, done⟩ (c :: cs) = scan ⟨.between, done⟩ cs := by
  have hstep : step ⟨.between, done⟩ c = some ⟨.between, done⟩ := by
    simp [step, between, h]
  exact scan_of_step hstep cs

/-! ### Strings -/

theorem hexValue?_hexDigit (n : Nat) : hexValue? (hexDigit n) = some (n % 16) := by
  have hall : ∀ digit < 16, hexValue? (Nat.digitChar digit) = some digit := by decide
  exact hall _ (Nat.mod_lt n (by decide))

theorem pushUnit_toNat (draft : Draft) {c : Char} (h : c.toNat < 32) :
    draft.pushUnit c.toNat = draft.push c := by
  have hlead : Draft.isLead c.toNat = false := by
    simp only [Draft.isLead, Bool.and_eq_false_iff, decide_eq_false_iff_not]
    omega
  have htrail : Draft.isTrail c.toNat = false := by
    simp only [Draft.isTrail, Bool.and_eq_false_iff, decide_eq_false_iff_not]
    omega
  simp [Draft.pushUnit, hlead, htrail]

theorem scan_escape (c : Char) (draft : Draft) (done : List Token) (cs : List Char) :
    scan ⟨.string draft, done⟩ (escape c ++ cs) = scan ⟨.string (draft.push c), done⟩ cs := by
  unfold escape
  split
  · subst c
    rfl
  split
  · subst c
    rfl
  split
  · subst c
    rfl
  split
  · subst c
    rfl
  split
  · subst c
    rfl
  split
  · next h =>
    obtain rfl : c = '\x08' := Char.toNat_inj.mp h
    rfl
  split
  · next h =>
    obtain rfl : c = '\x0c' := Char.toNat_inj.mp h
    rfl
  split
  · next h =>
    have hstart (cs : List Char) : scan ⟨.string draft, done⟩ ('\\' :: 'u' :: '0' :: '0' :: cs) =
        scan ⟨.code draft 2 0, done⟩ cs := rfl
    have hvalue : 16 * (c.toNat / 16 % 16) + c.toNat % 16 = c.toNat := by omega
    simp only [List.cons_append, List.nil_append, hstart, scan_cons, step, hexValue?_hexDigit,
      Option.map_some, Option.bind_some]
    simp [hvalue, pushUnit_toNat draft h]
  · next hquote hbackslash _ _ _ _ _ hcontrol =>
    have hstep : step ⟨.string draft, done⟩ c = some ⟨.string (draft.push c), done⟩ := by
      simp [step, hquote, hbackslash, hcontrol]
    exact scan_of_step hstep cs

theorem scan_escapes (text : List Char) (draft : Draft) (done : List Token) (cs : List Char) :
    scan ⟨.string draft, done⟩ (text.flatMap escape ++ cs) =
      scan ⟨.string (text.foldl Draft.push draft), done⟩ cs := by
  induction text generalizing draft with
  | nil => rfl
  | cons c text ih => rw [List.flatMap_cons, List.append_assoc, scan_escape, ih, List.foldl_cons]

theorem finish_foldl_push (text chars : List Char) :
    (text.foldl Draft.push ⟨chars, none, false⟩).finish =
      some (String.ofList (chars.reverse ++ text)) := by
  induction text generalizing chars with
  | nil => simp [Draft.finish]
  | cons c text ih =>
    rw [List.foldl_cons]
    simpa [Draft.push] using ih (c :: chars)

theorem scan_quote (text : JsonText) (done : List Token) (cs : List Char) :
    scan ⟨.between, done⟩ (quote text ++ cs) = scan ⟨.between, .string text :: done⟩ cs := by
  cases text with
  | none =>
    have hrun : (quote none).foldlM step ⟨.between, done⟩ = some ⟨.between, .string none :: done⟩ := by
      rw [quote_none]
      rfl
    exact scan_append hrun cs
  | some s =>
    have hopen : step ⟨.between, done⟩ '"' = some ⟨.string {}, done⟩ := rfl
    have hclose (draft : Draft) :
        step ⟨.string draft, done⟩ '"' = some ⟨.between, .string draft.finish :: done⟩ := rfl
    rw [quote_some, List.cons_append, List.append_assoc, scan_of_step hopen, scan_escapes,
      List.singleton_append, scan_of_step (hclose _), finish_foldl_push, List.reverse_nil,
      List.nil_append, String.ofList_toList]

/-! ### Words -/

def breaks : List Char := [' ', '\t', '\n', '\r', '"', '{', '}', '[', ']', ':', ',']

theorem mem_breaks_of_endsWord {c : Char} (h : endsWord c = true) : c ∈ breaks := by
  revert h
  unfold endsWord isSpace punctuation? breaks
  simp only [List.mem_cons]
  grind

theorem endsWord_of_all {P : Char → Bool} (hbreaks : breaks.any P = false) {cs : List Char}
    (h : ∀ c ∈ cs, P c = true) : ∀ c ∈ cs, endsWord c = false := by
  intro c hc
  refine Bool.eq_false_iff.mpr fun hends => ?_
  exact List.any_eq_false.mp hbreaks c (mem_breaks_of_endsWord hends) (h c hc)

/-- Text that does not go on with a word. -/
def EndsWord (cs : List Char) : Prop :=
  ∀ c ∈ cs.head?, endsWord c = true

theorem scan_word_append {word : List Char} (h : ∀ c ∈ word, endsWord c = false)
    (chars : List Char) (done : List Token) (cs : List Char) :
    scan ⟨.word chars, done⟩ (word ++ cs) = scan ⟨.word (word.reverse ++ chars), done⟩ cs := by
  induction word generalizing chars with
  | nil => rfl
  | cons c word ih =>
    obtain ⟨hc, hword⟩ := List.forall_mem_cons.mp h
    have hstep : step ⟨.word chars, done⟩ c = some ⟨.word (c :: chars), done⟩ := by
      simp [step, hc]
    rw [List.cons_append, scan_of_step hstep, ih hword, List.reverse_cons, List.append_assoc,
      List.singleton_append]

theorem scan_word_end {chars : List Char} {token : Token} (htoken : ofWord? chars.reverse = some token)
    {cs : List Char} (hends : EndsWord cs) (done : List Token) :
    scan ⟨.word chars, done⟩ cs = scan ⟨.between, token :: done⟩ cs := by
  cases cs with
  | nil =>
    rw [scan, scan, List.foldlM_nil, List.foldlM_nil]
    simp [finish, htoken]
  | cons c cs =>
    have hc : endsWord c = true := hends c rfl
    have hstep : step ⟨.word chars, done⟩ c = step ⟨.between, token :: done⟩ c := by
      simp [step, hc, htoken]
    rw [scan_cons, scan_cons, hstep]

theorem between_of_not_endsWord {c : Char} (h : endsWord c = false) (done : List Token) :
    between done c = ⟨.word [c], done⟩ := by
  rw [endsWord, Bool.or_eq_false_iff, Bool.or_eq_false_iff] at h
  obtain ⟨⟨hspace, hquote⟩, hpunctuation⟩ := h
  rw [Option.isSome_eq_false_iff, Option.isNone_iff_eq_none] at hpunctuation
  simp [between, hspace, hpunctuation, beq_eq_false_iff_ne.mp hquote]

theorem scan_word {word : List Char} {token : Token} (hword : ∀ c ∈ word, endsWord c = false)
    (htoken : ofWord? word = some token) {cs : List Char} (hends : EndsWord cs)
    (done : List Token) :
    scan ⟨.between, done⟩ (word ++ cs) = scan ⟨.between, token :: done⟩ cs := by
  cases word with
  | nil => cases htoken
  | cons c word =>
    obtain ⟨hc, hrest⟩ := List.forall_mem_cons.mp hword
    have hstep : step ⟨.between, done⟩ c = some ⟨.word [c], done⟩ :=
      congrArg some (between_of_not_endsWord hc done)
    rw [List.cons_append, scan_of_step hstep, scan_word_append hrest,
      scan_word_end (by simpa using htoken) hends]

/-! ### Numbers -/

theorem isWhole_of_digits {cs : List Char} (hnonempty : cs ≠ [])
    (hdigits : ∀ c ∈ cs, c.isDigit = true) (hhead : ∀ c ∈ cs.head?, c ≠ '0') :
    isWhole cs = true := by
  cases cs with
  | nil => exact absurd rfl hnonempty
  | cons c cs =>
    obtain ⟨hc, hcs⟩ := List.forall_mem_cons.mp hdigits
    have hzero : c ≠ '0' := hhead c rfl
    rw [isWhole]
    · simpa [hzero, hc] using hcs
    · intro heq _
      exact hzero heq

theorem head_toDigits_ne {n : Nat} (hpos : 0 < n) : ∀ c ∈ (Nat.toDigits 10 n).head?, c ≠ '0' := by
  induction n using Nat.strongRecOn with
  | ind n ih =>
    by_cases hlt : n < 10
    · have hall : ∀ digit < 10, 0 < digit → Nat.digitChar digit ≠ '0' := by decide
      rw [Nat.toDigits_of_lt_base hlt]
      rintro c ⟨⟩
      exact hall n hlt hpos
    · have hdigits := Nat.toDigits_of_base_le (by decide) (Nat.not_lt.mp hlt)
      obtain ⟨first, rest, hfirst⟩ := List.exists_cons_of_ne_nil (Nat.toDigits_ne_nil (n := n / 10))
      have hrest := ih (n / 10) (by omega) (by omega)
      rw [hfirst] at hrest hdigits
      rw [hdigits]
      exact hrest

theorem isWhole_toDigits (n : Nat) : isWhole (Nat.toDigits 10 n) = true := by
  rcases Nat.eq_zero_or_pos n with rfl | hpos
  · rfl
  · exact isWhole_of_digits Nat.toDigits_ne_nil
      (fun c hc => Nat.isDigit_of_mem_toDigits (by decide) (by decide) hc) (head_toDigits_ne hpos)

theorem naturalValue_toDigits (n : Nat) : naturalValue (Nat.toDigits 10 n) = n := by
  rw [naturalValue, ← Nat.ofDigitChars_eq_foldl]
  exact Nat.ofDigitChars_ten_toDigits

def isNumberChar (c : Char) : Bool :=
  c.isDigit || ['.', 'e', 'E', '+', '-'].contains c

theorem isNumberChar_of_isDigits {cs : List Char} (h : isDigits cs = true) :
    ∀ c ∈ cs, isNumberChar c = true := by
  intro c hc
  rw [isDigits, Bool.and_eq_true] at h
  simp [isNumberChar, List.all_eq_true.mp h.2 c hc]

theorem isNumberChar_of_isExponent {cs : List Char} (h : isExponent cs = true) :
    ∀ c ∈ cs, isNumberChar c = true := by
  unfold isExponent at h
  split at h
  · exact List.forall_mem_cons.mpr ⟨rfl, isNumberChar_of_isDigits h⟩
  · exact List.forall_mem_cons.mpr ⟨rfl, isNumberChar_of_isDigits h⟩
  · exact isNumberChar_of_isDigits h

theorem isNumberChar_of_exponent {c : Char} {cs : List Char}
    (h : ((c == 'e' || c == 'E') && isExponent cs) = true) :
    ∀ other ∈ c :: cs, isNumberChar other = true := by
  rw [Bool.and_eq_true, Bool.or_eq_true, beq_iff_eq, beq_iff_eq] at h
  refine List.forall_mem_cons.mpr ⟨?_, isNumberChar_of_isExponent h.2⟩
  rcases h.1 with rfl | rfl <;> rfl

theorem isNumberChar_of_isTail {cs : List Char} (h : isTail cs = true) :
    ∀ c ∈ cs, isNumberChar c = true := by
  unfold isTail at h
  split at h
  · simp
  · next cs =>
    rw [Bool.and_eq_true] at h
    refine List.forall_mem_cons.mpr ⟨rfl, ?_⟩
    rw [← List.takeWhile_append_dropWhile (p := Char.isDigit) (l := cs), List.forall_mem_append]
    refine ⟨isNumberChar_of_isDigits h.1, ?_⟩
    have hexponent := h.2
    split at hexponent
    · next hnone => simp [hnone]
    · next hsome =>
      rw [hsome]
      exact isNumberChar_of_exponent hexponent
  · exact isNumberChar_of_exponent h

theorem isNumberChar_of_isUnsigned {cs : List Char} (h : isUnsigned cs = true) :
    ∀ c ∈ cs, isNumberChar c = true := by
  rw [isUnsigned, Bool.and_eq_true] at h
  rw [← List.takeWhile_append_dropWhile (p := Char.isDigit) (l := cs), List.forall_mem_append]
  refine ⟨?_, isNumberChar_of_isTail h.2⟩
  intro c hc
  simp [isNumberChar, List.all_eq_true.mp List.all_takeWhile c hc]

theorem isNumberChar_of_isNumeral {cs : List Char} (h : isNumeral cs = true) :
    ∀ c ∈ cs, isNumberChar c = true := by
  unfold isNumeral at h
  split at h
  · exact List.forall_mem_cons.mpr ⟨rfl, isNumberChar_of_isUnsigned h⟩
  · exact isNumberChar_of_isUnsigned h

theorem ofWord?_of_isNumeral {cs : List Char} (h : isNumeral cs = true)
    (hwhole : isWhole cs = false) : ofWord? cs = some (.numeral (String.ofList cs)) := by
  have hne (word : String) (c : Char) (hc : isNumberChar c = false) (hword : c ∈ word.toList) :
      cs ≠ word.toList := by
    rintro rfl
    rw [isNumberChar_of_isNumeral h c hword] at hc
    cases hc
  rw [ofWord?, if_neg (by simp [hwhole]), if_neg (hne "null" 'n' rfl (by simp)),
    if_neg (hne "true" 't' rfl (by simp)), if_neg (hne "false" 'f' rfl (by simp)), if_pos h]

end Lexer

/-! ### Tokens -/

namespace Token

/-- Whether the token needs something behind it that ends it. -/
def isWord : Token → Bool
  | null | bool _ | natural _ | numeral _ => true
  | _ => false

/-- The token has a text, and is the one that has it. -/
def Legible : Token → Prop
  | numeral literal =>
    Lexer.isNumeral literal.toList = true ∧ Lexer.isWhole literal.toList = false
  | _ => True

theorem text_of_isWord {token : Token} (hword : token.isWord = true) (h : token.Legible) :
    Lexer.ofWord? token.text = some token ∧ ∀ c ∈ token.text, Lexer.endsWord c = false := by
  cases token with
  | null =>
    have hlower : Token.null.text.all Char.isLower = true := by decide
    exact ⟨by decide, Lexer.endsWord_of_all (by decide) (List.all_eq_true.mp hlower)⟩
  | bool b =>
    have hlower : (Token.bool b).text.all Char.isLower = true := by cases b <;> decide
    refine ⟨?_, Lexer.endsWord_of_all (by decide) (List.all_eq_true.mp hlower)⟩
    cases b <;> decide
  | natural n =>
    have htext : (natural n).text = Nat.toDigits 10 n := by
      rw [text, Nat.toString_eq_ofList_toDigits, String.toList_ofList]
    rw [htext]
    refine ⟨?_, Lexer.endsWord_of_all (P := Char.isDigit) (by decide) fun c hc =>
      Nat.isDigit_of_mem_toDigits (by decide) (by decide) hc⟩
    rw [Lexer.ofWord?, if_pos (Lexer.isWhole_toDigits n), Lexer.naturalValue_toDigits]
  | numeral literal =>
    obtain ⟨hnumeral, hwhole⟩ := h
    refine ⟨?_, Lexer.endsWord_of_all (by decide) (Lexer.isNumberChar_of_isNumeral hnumeral)⟩
    rw [text, Lexer.ofWord?_of_isNumeral hnumeral hwhole, String.ofList_toList]
  | _ => cases hword

theorem scan_text {token : Token} (h : token.Legible) {cs : List Char}
    (hends : token.isWord = true → Lexer.EndsWord cs) (done : List Token) :
    Lexer.scan ⟨.between, done⟩ (token.text ++ cs) = Lexer.scan ⟨.between, token :: done⟩ cs := by
  cases hword : token.isWord with
  | true =>
    obtain ⟨htoken, hchars⟩ := text_of_isWord hword h
    exact Lexer.scan_word hchars htoken (hends hword) done
  | false =>
    cases token with
    | openObject | closeObject | openArray | closeArray | colon | comma =>
      exact Lexer.scan_of_step rfl cs
    | string text => exact Lexer.scan_quote text done cs
    | _ => cases hword

theorem endsWord_text (token : Token) (h : token.isWord = false) (cs : List Char) :
    Lexer.EndsWord (token.text ++ cs) := by
  cases token with
  | openObject | closeObject | openArray | closeArray | colon | comma =>
    rintro c ⟨⟩
    rfl
  | string text =>
    cases text with
    | none =>
      rw [Token.text, quote_none]
      rintro c ⟨⟩
      rfl
    | some s =>
      rintro c ⟨⟩
      rfl
  | _ => cases h

end Token

/-- The texts of a sequence of tokens: there may be white space anywhere between them. -/
inductive Written : List Token → List Char → Prop
  | nil : Written [] []
  | space {c tokens cs} : Lexer.isSpace c = true → Written tokens cs → Written tokens (c :: cs)
  | token {token tokens cs} : token.Legible → (token.isWord = true → Lexer.EndsWord cs) →
      Written tokens cs → Written (token :: tokens) (token.text ++ cs)

theorem Written.scan {tokens : List Token} {cs : List Char} (h : Written tokens cs)
    (done : List Token) : Lexer.scan ⟨.between, done⟩ cs = some (done.reverse ++ tokens) := by
  induction h generalizing done with
  | nil => exact congrArg some (List.append_nil _).symm
  | space hspace _ ih => rw [Lexer.scan_space hspace, ih]
  | token hlegible hends _ ih =>
    rw [Token.scan_text hlegible hends, ih, List.reverse_cons, List.append_assoc,
      List.singleton_append]

theorem lex_of_written {tokens : List Token} {cs : List Char} (h : Written tokens cs) :
    lex cs = some tokens :=
  h.scan []

end StorageSlots.Json
