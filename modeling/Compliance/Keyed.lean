/-!
# Things in the order of their keys

Lists of things each of which has a key, at most one for each key, in the order of keys.
A thing is put at the place of its key, and takes the place of one that had the key.

## Main definitions

* `Keyed.place key b things` — the things with one more, which replaces that of its key.
* `Keyed.Ordered key things` — things are in the order of their keys.
* `Keyed.Ordered.place` — they stay so when one is put at its place.
* `Keyed.find?_place` — that changes what one key stands for, and nothing else.
-/

namespace Compliance.Keyed

variable {κ β : Type} [Ord κ]

/-- Puts a thing at the place of its key, instead of one that had the key. -/
def place (key : β → κ) (b : β) : List β → List β
  | [] => [b]
  | next :: more =>
    match compare (key b) (key next) with
    | .lt => b :: next :: more
    | .eq => b :: more
    | .gt => next :: place key b more

/-- Things are in the order of their keys, so no key occurs twice. -/
def Ordered (key : β → κ) (things : List β) : Prop :=
  things.Pairwise fun a b => compare (key a) (key b) = .lt

variable {key : β → κ} {b thing : β} {things : List β}

theorem mem_place (h : thing ∈ place key b things) : thing = b ∨ thing ∈ things := by
  induction things with
  | nil => simpa [place] using h
  | cons next more ih =>
    simp only [place] at h
    split at h <;> grind

theorem place_map {γ : Type} (key : β → κ) (f : γ → β) (c : γ) (things : List γ) :
    place key (f c) (things.map f) = (place (key ∘ f) c things).map f := by
  induction things with
  | nil => rfl
  | cons next more ih =>
    simp only [List.map_cons, place, Function.comp]
    cases compare (key (f c)) (key (f next)) with
    | lt => rfl
    | eq => rfl
    | gt => exact congrArg _ ih

variable [Std.LawfulEqOrd κ]

theorem ne_of_compare {k l : κ} (less : compare k l = .lt) : k ≠ l := by
  rintro rfl
  simp at less

variable [Std.TransOrd κ]

/-- Things stay in order when one is put at the place of its key. -/
theorem Ordered.place (h : Ordered key things) (b : β) : Ordered key (place key b things) := by
  induction things with
  | nil => exact List.pairwise_singleton _ _
  | cons next more ih =>
    obtain ⟨least, rest⟩ := List.pairwise_cons.mp h
    simp only [Keyed.place]
    cases order : compare (key b) (key next) with
    | lt =>
      refine List.pairwise_cons.mpr ⟨fun thing inside => ?_, h⟩
      rcases List.mem_cons.mp inside with rfl | behind
      · exact order
      · exact Std.TransCmp.lt_trans order (least thing behind)
    | eq =>
      have same : key b = key next := Std.LawfulEqOrd.eq_of_compare order
      exact List.pairwise_cons.mpr ⟨fun thing behind => same ▸ least thing behind, rest⟩
    | gt =>
      refine List.pairwise_cons.mpr ⟨fun thing inside => ?_, ih rest⟩
      rcases mem_place inside with rfl | behind
      · exact Std.OrientedCmp.gt_iff_lt.mp order
      · exact least thing behind

variable [DecidableEq κ]

/-- **What is put at its place changes what one key stands for**, and nothing else. -/
theorem find?_place (key : β → κ) (b : β) (things : List β) (k : κ) :
    (place key b things).find? (key · = k) =
      if key b = k then some b else things.find? (key · = k) := by
  induction things with
  | nil => by_cases own : key b = k <;> simp [place, own]
  | cons next more ih =>
    simp only [place]
    cases order : compare (key b) (key next) with
    | lt => by_cases own : key b = k <;> simp [List.find?_cons, own]
    | eq =>
      have same : key b = key next := Std.LawfulEqOrd.eq_of_compare order
      by_cases own : key b = k <;> simp [own, ← same]
    | gt =>
      have differ : key next ≠ key b := ne_of_compare (Std.OrientedCmp.gt_iff_lt.mp order)
      by_cases there : key next = k
      · simp [there, Ne.symm (there ▸ differ)]
      · simp [there, ih]

end Compliance.Keyed
