/-!
# Cutting a text at a character

## Main definitions

* `splitAt sep cs` — the runs between the occurrences of `sep`; there is always one
  more run than occurrences.
-/

namespace Compliance.Text

/-- The runs of characters between the occurrences of a separator. -/
def splitAt (sep : Char) : List Char → List (List Char)
  | [] => [[]]
  | c :: cs =>
    if c = sep then [] :: splitAt sep cs
    else
      match splitAt sep cs with
      | [] => [[c]]
      | run :: more => (c :: run) :: more

theorem splitAt_ne_nil (sep : Char) (cs : List Char) : splitAt sep cs ≠ [] := by
  cases cs with
  | nil => simp [splitAt]
  | cons c cs =>
    simp only [splitAt]
    split
    · simp
    · split <;> simp

/-- Putting the separator back between the runs gives the text. -/
theorem intercalate_splitAt (sep : Char) (cs : List Char) :
    [sep].intercalate (splitAt sep cs) = cs := by
  induction cs with
  | nil => simp [splitAt, List.intercalate]
  | cons c cs ih =>
    simp only [splitAt]
    obtain ⟨run, more, h⟩ := List.exists_cons_of_ne_nil (splitAt_ne_nil sep cs)
    rw [h] at ih ⊢
    split
    · rename_i hc
      subst hc
      simp only [List.intercalate, List.intersperse_cons_cons, List.flatten_cons, List.nil_append,
        List.singleton_append]
      exact congrArg _ ih
    · cases more with
      | nil => simpa [List.intercalate] using ih
      | cons next more => simpa [List.intercalate] using ih

theorem not_mem_of_mem_splitAt {sep : Char} {cs run : List Char} (h : run ∈ splitAt sep cs) :
    sep ∉ run := by
  induction cs generalizing run with
  | nil => simp_all [splitAt]
  | cons c cs ih =>
    obtain ⟨first, more, hs⟩ := List.exists_cons_of_ne_nil (splitAt_ne_nil sep cs)
    simp only [splitAt, hs] at h ih
    split at h
    · rcases List.mem_cons.mp h with rfl | h
      · exact List.not_mem_nil
      · exact ih h
    · next differ =>
      rcases List.mem_cons.mp h with rfl | h
      · rw [List.mem_cons, not_or]
        exact ⟨fun same => differ same.symm, ih (List.mem_cons_self ..)⟩
      · exact ih (List.mem_cons_of_mem _ h)

theorem splitAt_of_not_mem {sep : Char} {run : List Char} (h : sep ∉ run) :
    splitAt sep run = [run] := by
  induction run with
  | nil => rfl
  | cons c run ih =>
    rw [List.mem_cons, not_or] at h
    rw [splitAt, if_neg fun same => h.1 same.symm, ih h.2]

theorem splitAt_append_cons (sep : Char) (cs ds : List Char) :
    splitAt sep (cs ++ sep :: ds) = splitAt sep cs ++ splitAt sep ds := by
  induction cs with
  | nil => simp [splitAt]
  | cons c cs ih =>
    obtain ⟨run, more, h⟩ := List.exists_cons_of_ne_nil (splitAt_ne_nil sep cs)
    rw [h] at ih
    by_cases hc : c = sep
    · simp [splitAt, hc, ih, h]
    · simp [splitAt, hc, ih, h]

theorem splitAt_append {sep : Char} {run : List Char} (h : sep ∉ run) (cs : List Char) :
    splitAt sep (run ++ sep :: cs) = run :: splitAt sep cs := by
  rw [splitAt_append_cons, splitAt_of_not_mem h, List.singleton_append]

/-- Runs that are put together with the separator between them are found again. -/
theorem splitAt_intercalate {sep : Char} {runs : List (List Char)} (nonempty : runs ≠ [])
    (h : ∀ run ∈ runs, sep ∉ run) : splitAt sep ([sep].intercalate runs) = runs := by
  induction runs with
  | nil => exact absurd rfl nonempty
  | cons run more ih =>
    rw [List.forall_mem_cons] at h
    cases more with
    | nil => rw [List.intercalate_singleton, splitAt_of_not_mem h.1]
    | cons next more =>
      rw [List.intercalate_cons_cons, List.append_assoc, List.singleton_append,
        splitAt_append h.1, ih (by simp) h.2]

end Compliance.Text
