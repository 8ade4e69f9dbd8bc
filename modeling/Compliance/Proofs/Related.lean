import Compliance.Proofs.Sequence
import Mathlib.Data.List.Forall2

/-!
# Things related in pairs

Two lists are related if they are equally long and each thing in one is related to the
thing at its place in the other; in the same way two things that may be missing are, if
both are missing or neither.

## Main definitions

* `exists_mem_of_forall₂`, `getElem?_forall₂` — what a thing or a place is related to.
* `rel_comp`, `forall₂_comp` — relations in a row.
* `forall₂_of_mapM_ok`, `forall₂_of_mapM_some` — a list and what it is made into.
-/

namespace Compliance

variable {α β γ : Type} {R : α → β → Prop} {S : β → γ → Prop} {T : α → γ → Prop} {as : List α}
  {bs : List β} {cs : List γ}

/-- What is related to a list one by one has something for each member. -/
theorem exists_mem_of_forall₂ (h : List.Forall₂ R as bs) : ∀ a ∈ as, ∃ b ∈ bs, R a b := by
  induction h with
  | nil => simp
  | cons first _ ih =>
    rw [List.forall_mem_cons]
    refine ⟨⟨_, List.mem_cons_self, first⟩, fun a ha => ?_⟩
    obtain ⟨b, hb, related⟩ := ih a ha
    exact ⟨b, List.mem_cons_of_mem _ hb, related⟩

/-- Lists that are related have related things in each place. -/
theorem getElem?_forall₂ (h : List.Forall₂ R as bs) (i : Nat) : Option.Rel R as[i]? bs[i]? := by
  induction h generalizing i with
  | nil => exact .none
  | cons first _ ih =>
    cases i with
    | zero => exact .some first
    | succ i => exact ih i

/-! ## Relations in a row -/

/-- Relations in a row make one of what may be missing. -/
theorem rel_comp {x : Option α} {y : Option β} {z : Option γ} (h : Option.Rel R x y)
    (h' : Option.Rel S y z) (comp : ∀ a b c, R a b → S b c → T a c) : Option.Rel T x z := by
  cases h with
  | none =>
    cases h'
    exact .none
  | some first =>
    cases h' with
    | some second => exact .some (comp _ _ _ first second)

theorem forall₂_comp (h : List.Forall₂ R as bs) (h' : List.Forall₂ S bs cs)
    (comp : ∀ a b c, R a b → S b c → T a c) : List.Forall₂ T as cs := by
  induction h generalizing cs with
  | nil =>
    cases h'
    exact .nil
  | cons first _ ih =>
    obtain ⟨c, more, second, others, rfl⟩ := List.forall₂_cons_left_iff.mp h'
    exact .cons (comp _ _ _ first second) (ih others)

/-! ## Made one by one -/

theorem forall₂_of_mapM_ok {ε : Type} {f : α → Except ε β} (h : as.mapM f = .ok bs) :
    List.Forall₂ (fun a b => f a = .ok b) as bs := by
  induction as generalizing bs with
  | nil =>
    cases h
    exact .nil
  | cons a more ih =>
    rw [List.mapM_cons, Except.bind_eq_ok] at h
    obtain ⟨b, first, h⟩ := h
    obtain ⟨others, rest, h⟩ := Except.bind_eq_ok.mp h
    cases h
    exact .cons first (ih rest)

theorem forall₂_of_mapM_some {f : α → Option β} (h : as.mapM f = some bs) :
    List.Forall₂ (fun a b => f a = some b) as bs := by
  induction as generalizing bs with
  | nil =>
    cases h
    exact .nil
  | cons a more ih =>
    simp only [List.mapM_cons, Option.bind_eq_bind, Option.bind_eq_some_iff, Option.pure_def,
      Option.some.injEq] at h
    obtain ⟨b, first, others, rest, rfl⟩ := h
    exact .cons first (ih rest)

end Compliance
