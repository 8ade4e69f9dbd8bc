import Compliance.Proofs.Text.Plain
import Mathlib.Data.List.DropRight
import Mathlib.Data.List.TakeWhile

/-!
# Trimmed texts

Trimming takes blanks from the two ends of a text and nothing else: every visible
character stays, none is added, and what is left begins and ends with one, so there
is nothing to trim from it.

## Main definitions

* `mem_trim`, `mem_of_mem_trim` — what trimming keeps.
* `trim_trim` — a trimmed text stays what it is.
* `trim_ne_empty` — something is left of a text with a visible character.
-/

namespace Compliance.Text

variable {c : Char} {s : String}

theorem mem_trim (hc : c ∈ s.toList) (visible : isBlank c = false) : c ∈ (trim s).toList := by
  have kept {cs : List Char} (hc : c ∈ cs) : c ∈ cs.dropWhile isBlank := by
    rw [← List.takeWhile_append_dropWhile (p := isBlank) (l := cs), List.mem_append] at hc
    rcases hc with blank | hc
    · rw [List.mem_takeWhile_imp blank] at visible
      cases visible
    · exact hc
  rw [toList_trim, trimStart, trimEnd, List.mem_reverse]
  exact kept (List.mem_reverse.mpr (kept hc))

theorem trimEnd_isPrefix (cs : List Char) : trimEnd cs <+: cs := List.rdropWhile_prefix isBlank cs

theorem mem_of_mem_trim (hc : c ∈ (trim s).toList) : c ∈ s.toList := by
  rw [toList_trim] at hc
  exact (List.dropWhile_suffix isBlank).mem ((trimEnd_isPrefix _).mem hc)

private theorem stopsAt_dropWhile (cs : List Char) : StopsAt isBlank (cs.dropWhile isBlank) := by
  intro c hc
  have first := List.head?_dropWhile_not isBlank cs
  rw [hc] at first
  exact first

/-- What a text begins with, a part of it begins with, if there is anything in it. -/
private theorem stopsAt_of_isPrefix {cs ds : List Char} (h : StopsAt isBlank ds)
    (part : cs <+: ds) :
    StopsAt isBlank cs := by
  obtain ⟨rest, rfl⟩ := part
  intro c hc
  exact h c (by rw [List.head?_append, hc]; rfl)

theorem stopsAt_trim (s : String) : StopsAt isBlank (trim s).toList := by
  rw [toList_trim]
  exact stopsAt_of_isPrefix (stopsAt_dropWhile s.toList) (trimEnd_isPrefix _)

/-- **A trimmed text stays what it is.** -/
theorem trim_trim (s : String) : trim (trim s) = trim s := by
  refine trim_of_ends (toList_trim s ▸ stopsAt_trim s) ?_
  rw [trimEnd, List.reverse_reverse]
  exact stopsAt_dropWhile _

theorem trim_ne_empty : trim s ≠ "" ↔ ∃ c ∈ s.toList, isBlank c = false := by
  constructor
  · intro left
    have nonempty : (trim s).toList ≠ [] := fun empty => left (String.toList_injective empty)
    obtain ⟨c, cs, hc⟩ := List.exists_cons_of_ne_nil nonempty
    have within : c ∈ (trim s).toList := hc ▸ List.mem_cons_self
    have first : (trim s).toList.head? = some c := by rw [hc, List.head?_cons]
    exact ⟨c, mem_of_mem_trim within, stopsAt_trim s c first⟩
  · rintro ⟨c, hc, visible⟩ nothing
    have kept := mem_trim hc visible
    rw [nothing] at kept
    cases kept

end Compliance.Text
