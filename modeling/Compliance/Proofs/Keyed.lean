import Compliance.Keyed
import Mathlib.Data.List.Perm.Basic

/-!
# Known by their keys

Of things in the order of their keys there is one for each key, if any.  So it can be said
what a key stands for, and things in order are known by what their keys stand for.

## Main definitions

* `Keyed.Ordered.mem_iff` — in order, a thing is what its key stands for.
* `Keyed.Ordered.ext` — things in order are known by what there is.
-/

namespace Compliance.Keyed

variable {κ β : Type} [Ord κ] [Std.LawfulEqOrd κ] {key : β → κ} {b : β} {things others : List β}

theorem Ordered.ne_behind (h : Ordered key (b :: things)) : ∀ thing ∈ things, key thing ≠ key b :=
  fun _ behind => (ne_of_compare (List.rel_of_pairwise_cons h behind)).symm

theorem Ordered.nodup (h : Ordered key things) : things.Nodup :=
  h.imp fun less same => ne_of_compare less (congrArg key same)

/-- **Things in order are known by what there is.** -/
theorem Ordered.ext [Std.TransOrd κ] (h : Ordered key things) (h' : Ordered key others)
    (same : ∀ b, b ∈ things ↔ b ∈ others) : things = others := by
  have perm : things.Perm others := (List.perm_ext_iff_of_nodup h.nodup h'.nodup).mpr same
  refine perm.eq_of_pairwise (fun a b _ _ less more => ?_) h h'
  exact absurd rfl (ne_of_compare (Std.TransCmp.lt_trans less more))

variable [DecidableEq κ]

/-- In order, the key of the first thing stands for nothing behind it. -/
theorem Ordered.find?_behind (h : Ordered key (b :: things)) :
    things.find? (key · = key b) = none :=
  List.find?_eq_none.mpr fun thing behind => by simpa using h.ne_behind thing behind

/-- **In order, a thing is what its key stands for.** -/
theorem Ordered.mem_iff (h : Ordered key things) :
    b ∈ things ↔ things.find? (key · = key b) = some b := by
  constructor
  · intro inside
    induction things with
    | nil => cases inside
    | cons next more ih =>
      rw [List.find?_cons]
      rcases List.mem_cons.mp inside with rfl | behind
      · simp
      · have differ : key next ≠ key b := (h.ne_behind b behind).symm
        simpa [differ] using ih (List.pairwise_cons.mp h).2 behind
  · exact List.mem_of_find?_eq_some

end Compliance.Keyed
