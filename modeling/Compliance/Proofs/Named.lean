import Compliance.Named
import Compliance.Proofs.Keyed
import Mathlib.Data.List.Forall2

/-!
# Names that repeat

Pairs put into order by name keep the last of those with one name.  What is in
order has no name twice, so that there the first and the last are the same.

## Main definitions

* `Named.last? name pairs` — what the last pair of a name holds.
* `Named.Ordered.ext` — things in order are known by what their names stand for.
* `Named.last?_rel` — related pairs have related things under each name.
* `Named.get?_ofList` — putting pairs into order keeps the last of each name.
-/

namespace Compliance.Named

variable {α κ : Type}

/-! ## The last of a name -/

/-- What the last pair of a name holds. -/
def last? [DecidableEq κ] (name : κ) : List (κ × α) → Option α
  | [] => none
  | (key, a) :: more => (last? name more).or (if name = key then some a else none)

variable [DecidableEq κ]

@[simp] theorem last?_nil (name : κ) : last? name ([] : List (κ × α)) = none := rfl

theorem last?_cons (name key : κ) (a : α) (more : List (κ × α)) :
    last? name ((key, a) :: more) =
      (last? name more).or (if name = key then some a else none) := rfl

theorem last?_eq_none_iff {name : κ} {pairs : List (κ × α)} :
    last? name pairs = none ↔ ∀ pair ∈ pairs, pair.1 ≠ name := by
  induction pairs with
  | nil => simp
  | cons pair more ih =>
    obtain ⟨key, a⟩ := pair
    rw [last?_cons, Option.or_eq_none_iff, ih, List.forall_mem_cons, and_comm]
    simp [eq_comm]

/-- Of pairs that are made of their names the last has what each of them has. -/
theorem last?_map (f : κ → α) (names : List κ) (name : κ) :
    last? name (names.map fun key => (key, f key)) =
      if name ∈ names then some (f name) else none := by
  induction names with
  | nil => rfl
  | cons key more ih =>
    rw [List.map_cons, last?_cons, ih]
    by_cases same : name = key
    · subst same
      split <;> simp
    · simp [same]

/-- What the last pair of a name is made into is what the last of those made has. -/
theorem last?_map_snd {β : Type} (f : κ → α → β) (pairs : List (κ × α)) (name : κ) :
    last? name (pairs.map fun pair => (pair.1, f pair.1 pair.2)) =
      (last? name pairs).map (f name) := by
  induction pairs with
  | nil => rfl
  | cons pair more ih =>
    obtain ⟨key, a⟩ := pair
    rw [List.map_cons, last?_cons, last?_cons, ih, Option.map_or]
    split
    · next same => rw [same, Option.map_some]
    · rfl

/-- Under one name stands what is related if all pairs are, their names written in another way. -/
theorem last?_rel {β ι : Type} [DecidableEq ι] {f : ι → κ} (inj : Function.Injective f)
    {R : α → β → Prop} {as : List (κ × α)} {bs : List (ι × β)}
    (h : List.Forall₂ (fun a b => a.1 = f b.1 ∧ R a.2 b.2) as bs) (name : ι) :
    Option.Rel R (last? (f name) as) (last? name bs) := by
  induction h with
  | nil => exact .none
  | @cons first second as bs related _ ih =>
    obtain ⟨_, a⟩ := first
    obtain ⟨key, b⟩ := second
    obtain ⟨rfl, related⟩ := related
    rw [last?_cons, last?_cons]
    generalize last? (f name) as = x, last? name bs = y at ih
    cases ih with
    | some behind => exact .some behind
    | none =>
      simp only [Option.none_or, inj.eq_iff]
      split
      · exact .some related
      · exact .none

/-- The thing of a name is related to that of the same name if all things are. -/
theorem get?_rel {β : Type} {R : α → β → Prop} {as : Named α} {bs : Named β}
    (h : List.Forall₂ (fun a b => a.1 = b.1 ∧ R a.2 b.2) as bs) (name : String) :
    Option.Rel R (get? name as) (get? name bs) := by
  induction h with
  | nil => exact .none
  | @cons first second as bs related _ ih =>
    obtain ⟨_, a⟩ := first
    obtain ⟨key, b⟩ := second
    obtain ⟨rfl, related⟩ := related
    rw [get?_cons, get?_cons]
    split
    · exact .some related
    · exact ih

/-! ## In order -/

theorem Ordered.get?_behind {name : String} {a : α} {more : Named α}
    (h : Ordered ((name, a) :: more)) : get? name more = none :=
  Option.map_eq_none_iff.mpr (Keyed.Ordered.find?_behind h)

/-- In order, a name stands for the one thing that has it. -/
theorem Ordered.mem_iff {things : Named α} (h : things.Ordered) {name : String} {a : α} :
    (name, a) ∈ things ↔ get? name things = some a := by
  rw [Keyed.Ordered.mem_iff h, get?, Option.map_eq_some_iff]
  constructor
  · exact fun found => ⟨_, found, rfl⟩
  · rintro ⟨thing, found, rfl⟩
    obtain rfl : thing.1 = name := by simpa using List.find?_some found
    exact found

/-- **Things in order are known by what their names stand for.** -/
theorem Ordered.ext {things others : Named α} (h : things.Ordered) (h' : others.Ordered)
    (same : ∀ name, get? name things = get? name others) : things = others :=
  Keyed.Ordered.ext h h' fun (name, a) => by rw [h.mem_iff, h'.mem_iff, same]

/-- In order, what a name stands for is what its last pair holds. -/
theorem Ordered.last?_eq {things : Named α} (h : things.Ordered) (name : String) :
    last? name things = get? name things := by
  induction things with
  | nil => rfl
  | cons thing more ih =>
    obtain ⟨key, a⟩ := thing
    rw [last?_cons, get?_cons, ih (List.pairwise_cons.mp h).2]
    split
    · next same =>
      subst same
      rw [h.get?_behind, Option.none_or]
    · exact Option.or_none

/-! ## Putting into order -/

private theorem foldl_insert (pairs : List (String × α)) (things : Named α) (h : things.Ordered)
    (name : String) :
    let all := pairs.foldl (fun things pair => insert pair.1 pair.2 things) things
    all.Ordered ∧ get? name all = (last? name pairs).or (get? name things) := by
  induction pairs generalizing things with
  | nil => exact ⟨h, rfl⟩
  | cons pair more ih =>
    obtain ⟨ordered, found⟩ := ih (insert pair.1 pair.2 things) (h.insert _ _)
    refine ⟨ordered, found.trans ?_⟩
    rw [get?_insert, last?_cons, Option.or_assoc]
    split <;> simp

theorem ordered_ofList (pairs : List (String × α)) : (ofList pairs).Ordered :=
  (foldl_insert pairs [] .nil "").1

/-- **Of the pairs with one name the last counts.** -/
theorem get?_ofList (pairs : List (String × α)) (name : String) :
    get? name (ofList pairs) = last? name pairs :=
  (foldl_insert pairs [] .nil name).2.trans Option.or_none

/-- What is put into order holds nothing but what was there. -/
theorem mem_of_mem_ofList {thing : String × α} {pairs : List (String × α)}
    (h : thing ∈ ofList pairs) : thing ∈ pairs := by
  suffices all : ∀ things : Named α,
      thing ∈ pairs.foldl (fun things pair => insert pair.1 pair.2 things) things →
        thing ∈ pairs ∨ thing ∈ things by
    rcases all [] h with inside | inside
    · exact inside
    · cases inside
  clear h
  induction pairs with
  | nil => exact fun things h => .inr h
  | cons pair more ih =>
    intro things h
    rcases ih _ h with inside | inside
    · exact .inl (List.mem_cons_of_mem _ inside)
    · rcases Keyed.mem_place inside with rfl | inside
      · exact .inl (List.mem_cons_self ..)
      · exact .inr inside

/-- All pairs have one name just if a single thing is left of them, with this name. -/
theorem exists_ofList_eq_singleton_iff {name : String} {pairs : List (String × α)} :
    (∃ a, ofList pairs = [(name, a)]) ↔ pairs ≠ [] ∧ ∀ pair ∈ pairs, pair.1 = name := by
  have found {pair : String × α} (inside : pair ∈ pairs) : get? pair.1 (ofList pairs) ≠ none := by
    rw [get?_ofList, Ne, last?_eq_none_iff]
    exact fun empty => empty pair inside rfl
  constructor
  · rintro ⟨a, made⟩
    refine ⟨fun empty => ?_, fun pair inside => Decidable.byContradiction fun differ => ?_⟩
    · rw [empty] at made
      cases made
    · apply found inside
      rw [made, get?_cons, if_neg differ]
      rfl
  · rintro ⟨nonempty, same⟩
    obtain ⟨pair, inside⟩ := List.exists_mem_of_ne_nil pairs nonempty
    have names {thing : String × α} (h : thing ∈ ofList pairs) : thing.1 = name :=
      same thing (mem_of_mem_ofList h)
    match made : ofList pairs, ordered_ofList pairs with
    | [], _ =>
      refine absurd ?_ (found inside)
      rw [made]
      rfl
    | [(key, a)], _ =>
      obtain rfl : key = name := names (made ▸ List.mem_singleton_self _)
      exact ⟨a, rfl⟩
    | first :: second :: more, ordered =>
      have less := List.rel_of_pairwise_cons ordered (List.mem_cons_self ..)
      have front : first.1 = name := names (made ▸ List.mem_cons_self ..)
      have next : second.1 = name := names (made ▸ List.mem_cons_of_mem _ (List.mem_cons_self ..))
      simp [front, next] at less

end Compliance.Named
