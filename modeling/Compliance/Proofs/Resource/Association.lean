import Compliance.Resource
import Mathlib.Data.List.Basic

/-!
# Associations at the end of a path

A path of names leads through nested properties and branches at each into all of their
elements.  A branch is known by the indices of the elements taken, and branches stand in
the order of these.  What an association is at the end of a path is the union of what it
is at the end of each branch: the targets in the order of the branches, each where it
comes first.

## Main definitions

* `Attributes.Follows a path indices b` — one branch of a path, and where it ends.
* `Attributes.branches` — all branches in order.
* `Firsts kept all` — `kept` is `all` without repetitions.
* `Attributes.association?_unites` — what looking an association up comes to.
-/

namespace Compliance

/-! ## First occurrences -/

section

variable {α : Type} [DecidableEq α] {kept all : List α}

/-- The members of a list, in the order in which they come first. -/
structure Firsts (kept all : List α) : Prop where
  mem_iff : ∀ a, a ∈ kept ↔ a ∈ all
  ordered : kept.Pairwise fun a b => all.idxOf a < all.idxOf b

/-- No member of a list comes first at two places. -/
theorem Firsts.nodup (h : Firsts kept all) : kept.Nodup := by
  refine h.ordered.imp ?_
  rintro a b before rfl
  exact Nat.lt_irrefl _ before

/-- Among the members that pass a test, the order in which they come first is the same. -/
private theorem idxOf_lt_of_filter {p : α → Bool} {l : List α} {a b : α} (ha : p a = true)
    (hb : p b = true) (h : (l.filter p).idxOf a < (l.filter p).idxOf b) :
    l.idxOf a < l.idxOf b := by
  induction l with
  | nil => simp at h
  | cons c l ih =>
    by_cases hc : p c = true
    · rw [List.filter_cons_of_pos hc] at h
      by_cases ca : c = a
      · subst ca
        by_cases cb : c = b
        · simp [cb] at h
        · rw [List.idxOf_cons_self, List.idxOf_cons_ne _ cb]
          exact Nat.succ_pos _
      · by_cases cb : c = b
        · subst cb
          simp at h
        · rw [List.idxOf_cons_ne _ ca, List.idxOf_cons_ne _ cb] at h ⊢
          exact Nat.succ_lt_succ (ih (Nat.lt_of_succ_lt_succ h))
    · rw [List.filter_cons_of_neg hc] at h
      have ca : c ≠ a := fun same => hc (same ▸ ha)
      have cb : c ≠ b := fun same => hc (same ▸ hb)
      rw [List.idxOf_cons_ne _ ca, List.idxOf_cons_ne _ cb]
      exact Nat.succ_lt_succ (ih h)

/-- Without repetitions members stand as they come first. -/
theorem firsts_eraseDups (l : List α) : Firsts l.eraseDups l where
  mem_iff _ := List.mem_eraseDups
  ordered := by
    induction size : l.length using Nat.strongRecOn generalizing l with
    | ind size ih =>
      subst size
      cases l with
      | nil => exact .nil
      | cons a l =>
        have other {b : α} (hb : b ∈ (l.filter fun b => !b == a).eraseDups) : a ≠ b := by
          have kept := (List.mem_filter.mp (List.mem_eraseDups.mp hb)).2
          rintro rfl
          simp at kept
        have shorter : (l.filter fun b => !b == a).length < (a :: l).length :=
          Nat.lt_succ_of_le (List.length_filter_le _ _)
        rw [List.eraseDups_cons]
        refine .cons (fun b hb => ?_) ((ih _ shorter _ rfl).imp_of_mem fun {b c} hb hc before => ?_)
        · rw [List.idxOf_cons_self, List.idxOf_cons_ne _ (other hb)]
          exact Nat.succ_pos _
        · rw [List.idxOf_cons_ne _ (other hb), List.idxOf_cons_ne _ (other hc)]
          refine Nat.succ_lt_succ (idxOf_lt_of_filter ?_ ?_ before)
          · exact (List.mem_filter.mp (List.mem_eraseDups.mp hb)).2
          · exact (List.mem_filter.mp (List.mem_eraseDups.mp hc)).2

end

namespace Attributes

variable {a b : Attributes} {path : List String} {indices : List Nat}

/-! ## Branches of a path -/

/-- A path followed from some attributes to others: at each name there is a nested property, of
which one element is taken.  Scalars and names that are absent lead nowhere. -/
inductive Follows : Attributes → List String → List Nat → Attributes → Prop
  | here (a : Attributes) : Follows a [] [] a
  | into {a element b : Attributes} {segment : String} {path : List String} {index : Nat}
    {indices : List Nat} {elements : List Attributes} :
    a.property? segment = some (.nested elements) → elements[index]? = some element →
    Follows element path indices b → Follows a (segment :: path) (index :: indices) b

/-- The branches of a path with the indices of the elements they take, from left to right. -/
def branches (a : Attributes) : List String → List (List Nat × Attributes)
  | [] => [([], a)]
  | segment :: path =>
    (a.elements segment).zipIdx.flatMap fun (element, index) =>
      (element.branches path).map fun (indices, b) => (index :: indices, b)

/-- The elements at a name are those of the nested property there. -/
theorem getElem?_elements {segment : String} {index : Nat} {element : Attributes} :
    (a.elements segment)[index]? = some element ↔
      ∃ elements, a.property? segment = some (.nested elements) ∧
        elements[index]? = some element := by
  rw [elements]
  split
  · next held => simp [held]
  · next unlisted =>
    constructor
    · intro taken
      simp at taken
    · rintro ⟨elements, held, -⟩
      exact absurd held (unlisted elements)

/-- All ways to follow a path are among its branches, and no others. -/
theorem mem_branches : (indices, b) ∈ a.branches path ↔ Follows a path indices b := by
  induction path generalizing a indices with
  | nil =>
    constructor
    · intro h
      obtain ⟨rfl, rfl⟩ : indices = [] ∧ b = a := by simpa [branches] using h
      exact .here b
    · rintro ⟨⟩
      simp [branches]
  | cons segment path ih =>
    simp only [branches, List.mem_flatMap, List.mem_map, Prod.exists, Prod.mk.injEq,
      List.mk_mem_zipIdx_iff_getElem?, getElem?_elements]
    constructor
    · rintro ⟨element, index, ⟨elements, held, taken⟩, more, end', followed, rfl, rfl⟩
      exact .into held taken (ih.mp followed)
    · rintro (_ | ⟨held, taken, followed⟩)
      exact ⟨_, _, ⟨_, held, taken⟩, _, _, ih.mpr followed, rfl, rfl⟩

/-- Members of a list stand in the order of their indices. -/
private theorem pairwise_zipIdx {α : Type} (l : List α) (n : Nat) :
    (l.zipIdx n).Pairwise fun x y => x.2 < y.2 := by
  have indices : ((l.zipIdx n).map Prod.snd).Pairwise (· < ·) := by
    rw [List.zipIdx_map_snd]
    exact List.pairwise_lt_range'
  exact List.pairwise_map.mp indices

/-- Branches stand in the order of the indices they take, those of the outer elements first. -/
theorem pairwise_branches (a : Attributes) (path : List String) :
    (a.branches path).Pairwise fun r s => r.1 < s.1 := by
  induction path generalizing a with
  | nil => exact List.pairwise_singleton _ _
  | cons segment path ih =>
    rw [branches, List.pairwise_flatMap]
    constructor
    · rintro ⟨element, index⟩ -
      rw [List.pairwise_map]
      exact (ih element).imp fun before => List.cons_lt_cons_iff.mpr (.inr ⟨rfl, before⟩)
    · refine (pairwise_zipIdx _ 0).imp fun {x y} before r hr s hs => ?_
      obtain ⟨r', -, rfl⟩ := List.mem_map.mp hr
      obtain ⟨s', -, rfl⟩ := List.mem_map.mp hs
      exact List.cons_lt_cons_iff.mpr (.inl before)

/-- What a path reaches are the ends of its branches. -/
theorem map_branches (a : Attributes) (path : List String) :
    (a.branches path).map (·.2) = a.reach path := by
  induction path generalizing a with
  | nil => rfl
  | cons segment path ih =>
    have inner (x : Attributes × Nat) : ((x.1.branches path).map fun (indices, b) =>
        (x.2 :: indices, b)).map (·.2) = x.1.reach path := by
      rw [List.map_map, ← ih]
      rfl
    rw [branches, reach, List.map_flatMap, List.flatMap_congr fun x _ => inner x]
    have elements := congrArg (List.flatMap fun element => element.reach path)
      (List.zipIdx_map_fst 0 (a.elements segment))
    rwa [List.flatMap_map] at elements

/-! ## Associations -/

variable {name : String} {targets : List ResourceRef}

/-- The branches of a path that end at an association of a name, with its targets. -/
def carried (a : Attributes) (path : List String) (name : String) :
    List (List Nat × List ResourceRef) :=
  (a.branches path).filterMap fun r => (r.2.targets? name).map (r.1, ·)

theorem mem_carried : (indices, targets) ∈ a.carried path name ↔
    ∃ b, Follows a path indices b ∧ b.targets? name = some targets := by
  simp only [carried, List.mem_filterMap, Prod.exists, Option.map_eq_some_iff, Prod.mk.injEq]
  constructor
  · rintro ⟨indices', b, followed, targets', held, rfl, rfl⟩
    exact ⟨b, mem_branches.mp followed, held⟩
  · rintro ⟨b, followed, held⟩
    exact ⟨indices, b, mem_branches.mpr followed, targets, held, rfl, rfl⟩

theorem pairwise_carried (a : Attributes) (path : List String) (name : String) :
    (a.carried path name).Pairwise fun r s => r.1 < s.1 := by
  refine (pairwise_branches a path).filterMap _ fun r s before r' hr s' hs => ?_
  obtain ⟨-, -, rfl⟩ := Option.map_eq_some_iff.mp hr
  obtain ⟨-, -, rfl⟩ := Option.map_eq_some_iff.mp hs
  exact before

/-- Nothing is carried exactly if no branch ends at the association. -/
theorem carried_eq_nil : a.carried path name = [] ↔
    ∀ indices b, Follows a path indices b → b.targets? name = none := by
  constructor
  · intro nothing indices b followed
    refine Option.eq_none_iff_forall_ne_some.mpr fun targets held => ?_
    have carried : (indices, targets) ∈ a.carried path name := mem_carried.mpr ⟨b, followed, held⟩
    rw [nothing] at carried
    cases carried
  · intro absent
    refine List.eq_nil_iff_forall_not_mem.mpr ?_
    rintro ⟨indices, targets⟩ carried
    obtain ⟨b, followed, held⟩ := mem_carried.mp carried
    rw [absent indices b followed] at held
    cases held

/-- The targets that are carried are those of all branches. -/
theorem mem_flatMap_carried {target : ResourceRef} :
    target ∈ (a.carried path name).flatMap (·.2) ↔ ∃ indices b targets,
      Follows a path indices b ∧ b.targets? name = some targets ∧ target ∈ targets := by
  rw [List.mem_flatMap]
  constructor
  · rintro ⟨⟨indices, targets⟩, carried, ht⟩
    obtain ⟨b, followed, held⟩ := mem_carried.mp carried
    exact ⟨indices, b, targets, followed, held, ht⟩
  · rintro ⟨indices, b, targets, followed, held, ht⟩
    exact ⟨(indices, targets), mem_carried.mpr ⟨b, followed, held⟩, ht⟩

/-- Looking an association up goes through what the branches carry. -/
theorem association?_eq (a : Attributes) (path : List String) (name : String) :
    a.association? path name =
      match a.carried path name with
      | [] => none
      | found => some (found.flatMap (·.2)).eraseDups := by
  have ends : (a.reach path).filterMap (fun scope => scope.targets? name) =
      (a.carried path name).map (·.2) := by
    rw [carried, List.map_filterMap, ← map_branches, List.filterMap_map]
    refine List.filterMap_congr fun r _ => ?_
    cases h : r.2.targets? name <;> simp [h]
  rw [association?, ends]
  cases a.carried path name <;> rfl

theorem association?_eq_none :
    a.association? path name = none ↔ a.carried path name = [] := by
  rw [association?_eq]
  cases a.carried path name <;> simp

theorem firsts_of_association? {found : List ResourceRef}
    (h : a.association? path name = some found) :
    Firsts found ((a.carried path name).flatMap (·.2)) := by
  rw [association?_eq] at h
  split at h
  · cases h
  · cases h
    exact firsts_eraseDups _

/-- **An association at the end of a path is the union of those at the ends of its branches.**
There is none exactly if no branch ends at one.  Otherwise the targets are those of all branches, in
the order of the indices that these take, each where it comes first; so none is repeated, none is
missed, and there are none only if no branch has any. -/
theorem association?_unites (a : Attributes) (path : List String) (name : String) :
    (a.association? path name = none ↔
      ∀ indices b, Follows a path indices b → b.targets? name = none) ∧
    ∃ carried : List (List Nat × List ResourceRef),
      (∀ indices targets, (indices, targets) ∈ carried ↔
        ∃ b, Follows a path indices b ∧ b.targets? name = some targets) ∧
      (carried.Pairwise fun r s => r.1 < s.1) ∧
      ∀ found, a.association? path name = some found →
        Firsts found (carried.flatMap (·.2)) ∧ found.Nodup ∧
        (∀ target, target ∈ found ↔ ∃ indices b targets, Follows a path indices b ∧
          b.targets? name = some targets ∧ target ∈ targets) ∧
        (found = [] ↔ ∀ indices b targets, Follows a path indices b →
          b.targets? name = some targets → targets = []) := by
  refine ⟨association?_eq_none.trans carried_eq_nil, a.carried path name, fun _ _ => mem_carried,
    pairwise_carried a path name, fun found h => ?_⟩
  have firsts := firsts_of_association? h
  have members (target : ResourceRef) : target ∈ found ↔ ∃ indices b targets,
      Follows a path indices b ∧ b.targets? name = some targets ∧ target ∈ targets :=
    (firsts.mem_iff target).trans mem_flatMap_carried
  refine ⟨firsts, firsts.nodup, members, ?_⟩
  constructor
  · rintro rfl indices b targets followed held
    refine List.eq_nil_iff_forall_not_mem.mpr fun target ht => ?_
    exact List.not_mem_nil ((members target).mpr ⟨indices, b, targets, followed, held, ht⟩)
  · intro every
    refine List.eq_nil_iff_forall_not_mem.mpr fun target ht => ?_
    obtain ⟨indices, b, targets, followed, held, hm⟩ := (members target).mp ht
    rw [every indices b targets followed held] at hm
    exact List.not_mem_nil hm

/-- An element whose association has no targets has it all the same, and a scalar leads nowhere. -/
example :
    let a : Attributes := ⟨[("disk", .nested [⟨[], []⟩, ⟨[], [("key", [])]⟩]),
      ("tag", .value (.string "disk"))], []⟩
    a.association? ["disk"] "key" = some [] ∧ a.association? ["tag"] "key" = none ∧
      a.association? [] "key" = none := by
  decide +kernel

end Attributes

end Compliance
