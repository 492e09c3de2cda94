import StorageSlots.Json.Reader

/-!
The reader takes the tokens of a value back to the value, whatever is open around it.
-/

namespace StorageSlots.Json

namespace Reader

def run (state : State) (tokens : List Token) : Option State :=
  tokens.foldlM step state

theorem run_cons (state : State) (token : Token) (tokens : List Token) :
    run state (token :: tokens) = (step state token).bind (run · tokens) := rfl

/-- A value may stand right behind an opening bracket. -/
theorem run_arrayStart (stack : List Frame) (v : Json) (rest : List Token) :
    run (.arrayStart stack) (tokens v ++ rest) =
      run (.value (.array [] :: stack)) (tokens v ++ rest) := by
  cases v with
  | array vs => cases vs <;> simp [run_cons, tokens, step, begin]
  | object ms => cases ms <;> simp [run_cons, tokens, step, begin]
  | _ => simp [run_cons, tokens, step, begin]

mutual

theorem run_tokens : ∀ (v : Json) (stack : List Frame) (rest : List Token),
    run (.value stack) (tokens v ++ rest) = run (deliver v stack) rest
  | .null, _, _ | .bool _, _, _ | .natural _, _, _ | .numeral _, _, _ | .string _, _, _ => by
    simp [run_cons, tokens, step, begin]
  | .array [], _, _ | .object [], _, _ => by
    simp [run_cons, tokens, step, begin]
  | .array (v :: vs), stack, rest => by
    have helements := run_elements vs [v] stack rest
    rw [List.reverse_singleton, List.singleton_append] at helements
    rw [← helements]
    simp only [tokens, List.cons_append, List.append_assoc, run_cons, step, begin,
      Option.bind_some]
    rw [run_arrayStart]
    exact run_tokens v (.array [] :: stack) (moreElements vs ++ rest)
  | .object ((key, v) :: ms), stack, rest => by
    have hmembers := run_members ms [(key, v)] stack rest
    rw [List.reverse_singleton, List.singleton_append] at hmembers
    rw [← hmembers]
    simp only [tokens, List.cons_append, List.append_assoc, run_cons, step, begin,
      Option.bind_some]
    exact run_tokens v (.object [] key :: stack) (moreMembers ms ++ rest)

theorem run_elements : ∀ (vs done : List Json) (stack : List Frame) (rest : List Token),
    run (.afterElement done stack) (moreElements vs ++ rest) =
      run (deliver (.array (done.reverse ++ vs)) stack) rest
  | [], _, _, _ => by simp [run_cons, moreElements, step]
  | v :: vs, done, stack, rest => by
    have helements := run_elements vs (v :: done) stack rest
    rw [List.reverse_cons, List.append_assoc, List.singleton_append] at helements
    rw [← helements]
    simp only [moreElements, List.cons_append, List.append_assoc, run_cons, step,
      Option.bind_some]
    exact run_tokens v (.array done :: stack) (moreElements vs ++ rest)

theorem run_members : ∀ (ms done : List (JsonText × Json)) (stack : List Frame)
    (rest : List Token),
    run (.afterMember done stack) (moreMembers ms ++ rest) =
      run (deliver (.object (done.reverse ++ ms)) stack) rest
  | [], _, _, _ => by simp [run_cons, moreMembers, step]
  | (key, v) :: ms, done, stack, rest => by
    have hmembers := run_members ms ((key, v) :: done) stack rest
    rw [List.reverse_cons, List.append_assoc, List.singleton_append] at hmembers
    rw [← hmembers]
    simp only [moreMembers, List.cons_append, List.append_assoc, run_cons, step,
      Option.bind_some]
    exact run_tokens v (.object done key :: stack) (moreMembers ms ++ rest)

end

end Reader

theorem ofTokens?_tokens (v : Json) : ofTokens? v.tokens = some v := by
  have h := Reader.run_tokens v [] []
  rw [List.append_nil] at h
  unfold Reader.run at h
  simp [ofTokens?, h, Reader.deliver, Reader.finish]

end StorageSlots.Json
