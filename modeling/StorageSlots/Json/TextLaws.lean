import StorageSlots.Json.LexerLaws
import StorageSlots.Json.Pretty
import StorageSlots.Json.ReaderLaws

/-!
Values are read back from their texts, the compact one and the indented one.
-/

namespace StorageSlots.Json

/-- All numbers in the value are spelled as JSON spells them. -/
inductive Legible : Json → Prop
  | null : Legible null
  | bool (b : Bool) : Legible (bool b)
  | natural (n : Nat) : Legible (natural n)
  | numeral {literal : String} : (Token.numeral literal).Legible → Legible (numeral literal)
  | string (text : JsonText) : Legible (string text)
  | array {elements : List Json} : (∀ v ∈ elements, Legible v) → Legible (array elements)
  | object {members : List (JsonText × Json)} : (∀ m ∈ members, Legible m.2) →
      Legible (object members)

theorem Legible.of_array {vs : List Json} (h : Legible (.array vs)) : ∀ v ∈ vs, Legible v := by
  cases h
  assumption

theorem Legible.of_object {ms : List (JsonText × Json)} (h : Legible (.object ms)) :
    ∀ m ∈ ms, Legible m.2 := by
  cases h
  assumption

theorem Legible.fields {members : List (String × Json)} (h : ∀ m ∈ members, Legible m.2) :
    Legible (.fields members) :=
  .object (List.forall_mem_map.mpr h)

theorem Legible.list {encode : α → Json} (h : ∀ x, Legible (encode x)) (xs : List α) :
    Legible (.list encode xs) :=
  .array (List.forall_mem_map.mpr fun x _ => h x)

theorem Legible.option {encode : α → Json} (h : ∀ x, Legible (encode x)) (x : Option α) :
    Legible (.option encode x) := by
  cases x with
  | none => exact .null
  | some x => exact h x

theorem read?_of_written {value : Json} {text : String} (h : Written value.tokens text.toList) :
    read? text = some value := by
  rw [read?, lex_of_written h, Option.bind_some, ofTokens?_tokens]

namespace Written

variable {tokens : List Token} {cs : List Char}

theorem mark (token : Token) (hword : token.isWord = false) (hlegible : token.Legible)
    (h : Written tokens cs) : Written (token :: tokens) (token.text ++ cs) :=
  .token hlegible (fun hword' => absurd (hword.symm.trans hword') Bool.false_ne_true) h

theorem spaces {blanks : List Char} (hblanks : ∀ c ∈ blanks, Lexer.isSpace c = true)
    (h : Written tokens cs) : Written tokens (blanks ++ cs) := by
  induction blanks with
  | nil => exact h
  | cons c blanks ih =>
    obtain ⟨hc, hrest⟩ := List.forall_mem_cons.mp hblanks
    exact .space hc (ih hrest)

end Written

/-! ### Compact texts -/

mutual

theorem written_tokens : ∀ (v : Json) {later : List Token} {cs : List Char}, Legible v →
    Lexer.EndsWord cs → Written later cs →
      Written (tokens v ++ later) ((tokens v).flatMap Token.text ++ cs)
  | .null, _, _, _, hends, h | .bool _, _, _, _, hends, h | .natural _, _, _, _, hends, h => by
    simpa [tokens] using .token (by trivial) (fun _ => hends) h
  | .numeral _, _, _, .numeral hliteral, hends, h => by
    simpa [tokens] using .token hliteral (fun _ => hends) h
  | .string text, _, _, _, _, h => by
    simpa [tokens] using h.mark (.string text) rfl trivial
  | .array [], _, _, _, _, h => by
    simpa [tokens] using (h.mark .closeArray rfl trivial).mark .openArray rfl trivial
  | .object [], _, _, _, _, h => by
    simpa [tokens] using (h.mark .closeObject rfl trivial).mark .openObject rfl trivial
  | .array (v :: vs), _, _, hlegible, _, h => by
    obtain ⟨hv, hvs⟩ := List.forall_mem_cons.mp hlegible.of_array
    obtain ⟨hends, hrest⟩ := written_moreElements vs hvs h
    simpa [tokens] using (written_tokens v hv hends hrest).mark .openArray rfl trivial
  | .object ((key, v) :: ms), _, _, hlegible, _, h => by
    obtain ⟨hv, hms⟩ := List.forall_mem_cons.mp hlegible.of_object
    obtain ⟨hends, hrest⟩ := written_moreMembers ms hms h
    have hvalue := (written_tokens v hv hends hrest).mark .colon rfl trivial
    simpa [tokens] using (hvalue.mark (.string key) rfl trivial).mark .openObject rfl trivial

theorem written_moreElements : ∀ (vs : List Json) {later : List Token} {cs : List Char},
    (∀ v ∈ vs, Legible v) → Written later cs →
      Lexer.EndsWord ((moreElements vs).flatMap Token.text ++ cs) ∧
        Written (moreElements vs ++ later) ((moreElements vs).flatMap Token.text ++ cs)
  | [], _, cs, _, h =>
    ⟨Token.endsWord_text .closeArray rfl cs, h.mark .closeArray rfl trivial⟩
  | v :: vs, _, _, hlegible, h => by
    obtain ⟨hv, hvs⟩ := List.forall_mem_cons.mp hlegible
    obtain ⟨hends, hrest⟩ := written_moreElements vs hvs h
    have hvalue := written_tokens v hv hends hrest
    constructor
    · simpa [moreElements] using Token.endsWord_text .comma rfl _
    · simpa [moreElements] using hvalue.mark .comma rfl trivial

theorem written_moreMembers : ∀ (ms : List (JsonText × Json)) {later : List Token}
    {cs : List Char}, (∀ m ∈ ms, Legible m.2) → Written later cs →
      Lexer.EndsWord ((moreMembers ms).flatMap Token.text ++ cs) ∧
        Written (moreMembers ms ++ later) ((moreMembers ms).flatMap Token.text ++ cs)
  | [], _, cs, _, h =>
    ⟨Token.endsWord_text .closeObject rfl cs, h.mark .closeObject rfl trivial⟩
  | (key, v) :: ms, _, _, hlegible, h => by
    obtain ⟨hv, hms⟩ := List.forall_mem_cons.mp hlegible
    obtain ⟨hends, hrest⟩ := written_moreMembers ms hms h
    have hvalue := (written_tokens v hv hends hrest).mark .colon rfl trivial
    constructor
    · simpa [moreMembers] using Token.endsWord_text .comma rfl _
    · simpa [moreMembers] using (hvalue.mark (.string key) rfl trivial).mark .comma rfl trivial

end

theorem read?_compact {v : Json} (h : Legible v) : read? v.compact = some v := by
  have hwritten := written_tokens v h (by rintro c ⟨⟩) .nil
  rw [List.append_nil, List.append_nil] at hwritten
  apply read?_of_written
  rwa [compact, String.toList_ofList]

/-! ### Indented texts -/

namespace Written

variable {tokens : List Token} {cs : List Char}

theorem newLine (level : Nat) (h : Written tokens cs) :
    Written tokens ((newLine level).toList ++ cs) := by
  refine h.spaces fun c hc => ?_
  rw [Json.newLine, String.toList_append] at hc
  rcases List.mem_append.mp hc with hc | hc
  · obtain rfl : c = '\n' := by simpa using hc
    rfl
  · rw [String.toList_ofList] at hc
    obtain ⟨-, rfl⟩ := List.mem_replicate.mp hc
    rfl

theorem key (level : Nat) (text : JsonText) (h : Written tokens cs) :
    Written (.string text :: .colon :: tokens)
      ((Json.newLine level).toList ++ (quote text ++ ':' :: ' ' :: cs)) :=
  (((h.space rfl).mark .colon rfl trivial).mark (.string text) rfl trivial).newLine level

end Written

theorem endsWord_newLine (level : Nat) (cs : List Char) :
    Lexer.EndsWord ((newLine level).toList ++ cs) := by
  rw [newLine, String.toList_append, List.append_assoc]
  rintro c hc
  obtain rfl : '\n' = c := by simpa using hc
  rfl

mutual

theorem written_prettyAt : ∀ (v : Json) (level : Nat) {later : List Token} {cs : List Char},
    Legible v → Lexer.EndsWord cs → Written later cs →
      Written (tokens v ++ later) ((prettyAt level v).toList ++ cs)
  | .null, _, _, _, _, hends, h => @Written.token .null _ _ trivial (fun _ => hends) h
  | .bool true, _, _, _, _, hends, h => @Written.token (.bool true) _ _ trivial (fun _ => hends) h
  | .bool false, _, _, _, _, hends, h => @Written.token (.bool false) _ _ trivial (fun _ => hends) h
  | .natural n, _, _, _, _, hends, h => @Written.token (.natural n) _ _ trivial (fun _ => hends) h
  | .numeral _, _, _, _, .numeral hliteral, hends, h => by
    simpa [tokens, prettyAt, Token.text] using Written.token hliteral (fun _ => hends) h
  | .string text, _, _, _, _, _, h => by
    simpa [tokens, prettyAt, Token.text] using h.mark (.string text) rfl trivial
  | .array [], _, _, _, _, _, h => by
    simpa [tokens, prettyAt, Token.text] using
      (h.mark .closeArray rfl trivial).mark .openArray rfl trivial
  | .object [], _, _, _, _, _, h => by
    simpa [tokens, prettyAt, Token.text] using
      (h.mark .closeObject rfl trivial).mark .openObject rfl trivial
  | .array (v :: vs), level, _, _, hlegible, _, h => by
    obtain ⟨hv, hvs⟩ := List.forall_mem_cons.mp hlegible.of_array
    obtain ⟨hends, hrest⟩ := written_prettyElements vs level hvs h
    have hvalue := (written_prettyAt v (level + 1) hv hends hrest).newLine (level + 1)
    simpa [tokens, prettyAt, Token.text] using hvalue.mark .openArray rfl trivial
  | .object ((key, v) :: ms), level, _, _, hlegible, _, h => by
    obtain ⟨hv, hms⟩ := List.forall_mem_cons.mp hlegible.of_object
    obtain ⟨hends, hrest⟩ := written_prettyMembers ms level hms h
    have hmember := (written_prettyAt v (level + 1) hv hends hrest).key (level + 1) key
    simpa [tokens, prettyAt, Token.text] using hmember.mark .openObject rfl trivial

theorem written_prettyElements : ∀ (vs : List Json) (level : Nat) {later : List Token}
    {cs : List Char}, (∀ v ∈ vs, Legible v) → Written later cs →
      Lexer.EndsWord ((prettyElements level vs).toList ++ cs) ∧
        Written (moreElements vs ++ later) ((prettyElements level vs).toList ++ cs)
  | [], level, _, cs, _, h => by
    have hclose := (h.mark .closeArray rfl trivial).newLine level
    constructor
    · simpa [prettyElements] using endsWord_newLine level (']' :: cs)
    · simpa [moreElements, prettyElements, Token.text] using hclose
  | v :: vs, level, _, _, hlegible, h => by
    obtain ⟨hv, hvs⟩ := List.forall_mem_cons.mp hlegible
    obtain ⟨hends, hrest⟩ := written_prettyElements vs level hvs h
    have hvalue := (written_prettyAt v (level + 1) hv hends hrest).newLine (level + 1)
    constructor
    · simpa [prettyElements, Token.text] using Token.endsWord_text .comma rfl _
    · simpa [moreElements, prettyElements, Token.text] using hvalue.mark .comma rfl trivial

theorem written_prettyMembers : ∀ (ms : List (JsonText × Json)) (level : Nat) {later : List Token}
    {cs : List Char}, (∀ m ∈ ms, Legible m.2) → Written later cs →
      Lexer.EndsWord ((prettyMembers level ms).toList ++ cs) ∧
        Written (moreMembers ms ++ later) ((prettyMembers level ms).toList ++ cs)
  | [], level, _, cs, _, h => by
    have hclose := (h.mark .closeObject rfl trivial).newLine level
    constructor
    · simpa [prettyMembers] using endsWord_newLine level ('}' :: cs)
    · simpa [moreMembers, prettyMembers, Token.text] using hclose
  | (key, v) :: ms, level, _, _, hlegible, h => by
    obtain ⟨hv, hms⟩ := List.forall_mem_cons.mp hlegible
    obtain ⟨hends, hrest⟩ := written_prettyMembers ms level hms h
    have hmember := (written_prettyAt v (level + 1) hv hends hrest).key (level + 1) key
    constructor
    · simpa [prettyMembers, Token.text] using Token.endsWord_text .comma rfl _
    · simpa [moreMembers, prettyMembers, Token.text] using hmember.mark .comma rfl trivial

end

theorem read?_pretty {v : Json} (h : Legible v) : read? v.pretty = some v := by
  have hwritten := written_prettyAt v 0 h (by rintro c ⟨⟩) .nil
  rw [List.append_nil, List.append_nil] at hwritten
  exact read?_of_written hwritten

end StorageSlots.Json
