import Compliance.Path

/-!
# Normal paths

A path without detours is a walk from the root, from a parent or from where one
stands that only goes down.  Such a walk is what its path describes, so that
taking detours out of a path a second time changes nothing.

## Main definitions

* `IsName` — the names that a walk goes down to.
* `Direct` — walks without detours.
* `Path.steps_normalize` — a normal path describes the walk that it is made of.
* `Path.normalize_normalize` — it is normal once and for all.
-/

namespace Compliance

open Text

/-- A name that a piece of a path can go down to. -/
def IsName (name : String) : Prop := name ≠ "" ∧ name ≠ "." ∧ name ≠ ".." ∧ '/' ∉ name.toList

/-- A walk that only goes down, from the root, from a parent or from where one stands. -/
def Direct (walk : List Step) : Prop :=
  ∃ (start : List Step) (names : List String), (start = [] ∨ start = [.root] ∨ start = [.up]) ∧
    (∀ name ∈ names, IsName name) ∧ walk = start ++ names.map .down

/-- A step inside a path. -/
def IsInner (step : Step) : Prop :=
  step = .here ∨ step = .up ∨ ∃ name, IsName name ∧ step = .down name

namespace Path

/-! ## Steps of a path -/

theorem slash_not_mem_of_mem_pieces {p : Path} {piece : String} (h : piece ∈ p.pieces) :
    '/' ∉ piece.toList := by
  obtain ⟨run, hr, rfl⟩ := List.mem_map.mp h
  rw [String.toList_ofList]
  exact not_mem_of_mem_splitAt hr

theorem isInner_of_innerStep? {piece : String} {step : Step} (slash : '/' ∉ piece.toList)
    (h : innerStep? piece = some step) : IsInner step := by
  rw [innerStep?] at h
  split at h
  · cases h
  · next named =>
    split at h
    · exact Or.inr (Or.inl (Option.some.inj h).symm)
    · next up =>
      rw [not_or] at named
      exact Or.inr (Or.inr ⟨piece, ⟨named.1, named.2, up, slash⟩, (Option.some.inj h).symm⟩)

theorem isInner_of_firstStep? {piece : String} {step : Step} (slash : '/' ∉ piece.toList)
    (h : firstStep? piece = some step) : IsInner step := by
  rw [firstStep?] at h
  split at h
  · exact Or.inl (Option.some.inj h).symm
  · exact isInner_of_innerStep? slash h

/-- Only the first step of a path may go to the root. -/
theorem exists_steps (p : Path) : ∃ start inner, (start = [] ∨ start = [.root]) ∧
    (∀ step ∈ inner, IsInner step) ∧ p.steps = start ++ inner := by
  have inside : ∀ pieces : List String, (∀ piece ∈ pieces, piece ∈ p.pieces) →
      ∀ step ∈ pieces.filterMap innerStep?, IsInner step := by
    intro pieces sub step hs
    obtain ⟨piece, hp, made⟩ := List.mem_filterMap.mp hs
    exact isInner_of_innerStep? (slash_not_mem_of_mem_pieces (sub piece hp)) made
  rw [steps]
  split
  · exact ⟨[.root], _, Or.inr rfl, inside p.pieces fun _ h => h, rfl⟩
  · cases hp : p.pieces with
    | nil => exact ⟨[], [], Or.inl rfl, by simp, rfl⟩
    | cons first more =>
      refine ⟨[], _, Or.inl rfl, fun step hs => ?_, rfl⟩
      rcases List.mem_append.mp hs with hs | hs
      · refine isInner_of_firstStep? (slash_not_mem_of_mem_pieces (p := p) ?_)
          (Option.mem_toList.mp hs)
        rw [hp]
        exact List.mem_cons_self
      · refine inside more (fun piece hm => ?_) step hs
        rw [hp]
        exact List.mem_cons_of_mem _ hm

/-! ## Settled walks -/

theorem settle_down (walk : List Step) (name : String) :
    settle walk (.down name) = .down name :: walk := by
  cases walk with
  | nil => rfl
  | cons last _ => cases last <;> rfl

private theorem direct_settle {walk : List Step} {step : Step} (h : Direct walk.reverse)
    (inner : IsInner step) : Direct (settle walk step).reverse := by
  obtain ⟨start, names, hs, hn, hw⟩ := h
  rcases inner with rfl | rfl | ⟨name, good, rfl⟩
  · have same : settle walk .here = walk := by
      cases walk with
      | nil => rfl
      | cons last _ => cases last <;> rfl
    rw [same]
    exact ⟨start, names, hs, hn, hw⟩
  · rcases List.eq_nil_or_concat names with rfl | ⟨others, last, rfl⟩
    · rw [List.map_nil, List.append_nil] at hw
      obtain rfl := List.reverse_eq_iff.mp hw
      rcases hs with rfl | rfl | rfl
      · exact ⟨[.up], [], Or.inr (Or.inr rfl), by simp, rfl⟩
      · exact ⟨[.root], [], Or.inr (Or.inl rfl), by simp, rfl⟩
      · exact ⟨[.up], [], Or.inr (Or.inr rfl), by simp, rfl⟩
    · rw [List.concat_eq_append] at hn hw
      have taken : walk = .down last :: (start ++ others.map Step.down).reverse := by
        rw [List.reverse_eq_iff.mp hw]
        simp
      rw [taken]
      refine ⟨start, others, hs, fun name hm => hn name (List.mem_append_left _ hm), ?_⟩
      exact List.reverse_reverse _
  · rw [settle_down]
    refine ⟨start, names ++ [name], hs, fun other hm => ?_, by rw [List.reverse_cons, hw]; simp⟩
    rcases List.mem_append.mp hm with hm | hm
    · exact hn other hm
    · obtain rfl := List.mem_singleton.mp hm
      exact good

private theorem direct_foldl_settle {inner : List Step} (h : ∀ step ∈ inner, IsInner step) :
    ∀ walk : List Step, Direct walk.reverse → Direct (inner.foldl settle walk).reverse := by
  induction inner with
  | nil =>
    intro _ hw
    exact hw
  | cons step more ih =>
    rw [List.forall_mem_cons] at h
    intro walk hw
    exact ih h.2 _ (direct_settle hw h.1)

/-- The walk of a path is direct once it is settled. -/
theorem direct_settled (p : Path) : Direct (settled p.steps) := by
  obtain ⟨start, inner, hs, hi, steps⟩ := p.exists_steps
  rw [settled, steps, List.foldl_append]
  refine direct_foldl_settle hi _ ?_
  rcases hs with rfl | rfl
  · exact ⟨[], [], Or.inl rfl, by simp, rfl⟩
  · exact ⟨[.root], [], Or.inr (Or.inl rfl), by simp, rfl⟩

private theorem foldl_settle_down (names : List String) :
    ∀ walk : List Step, (names.map Step.down).foldl settle walk =
      (names.map Step.down).reverse ++ walk := by
  induction names with
  | nil =>
    intro _
    exact rfl
  | cons name more ih =>
    intro walk
    rw [List.map_cons, List.foldl_cons, settle_down, ih, List.reverse_cons, List.append_assoc]
    rfl

/-! ## Walks of normal paths -/

private theorem innerStep?_of_isName {name : String} (h : IsName name) :
    innerStep? name = some (.down name) := by
  rw [innerStep?]
  rw [if_neg (not_or.mpr ⟨h.1, h.2.1⟩), if_neg h.2.2.1]

private theorem filterMap_innerStep? {names : List String} (h : ∀ name ∈ names, IsName name) :
    names.filterMap innerStep? = names.map .down := by
  induction names with
  | nil => rfl
  | cons name more ih =>
    rw [List.forall_mem_cons] at h
    rw [List.filterMap_cons_some (innerStep?_of_isName h.1), ih h.2, List.map_cons]

private theorem splitAt_pieces {pieces : List String} (nonempty : pieces ≠ [])
    (h : ∀ piece ∈ pieces, '/' ∉ piece.toList) :
    (splitAt '/' ("/".intercalate pieces).toList).map String.ofList = pieces := by
  have runs : ∀ run ∈ pieces.map String.toList, '/' ∉ run := by
    intro run hr
    obtain ⟨piece, hp, rfl⟩ := List.mem_map.mp hr
    exact h piece hp
  have slash : "/".toList = ['/'] := rfl
  rw [String.toList_intercalate, slash, splitAt_intercalate (by simpa using nonempty) runs,
    List.map_map]
  have same : String.ofList ∘ String.toList = id := funext fun _ => String.ofList_toList
  rw [same, List.map_id]

/-- A path that starts with a piece is not absolute, and has the pieces it is made of. -/
theorem pieces_intercalate {first : String} {more : List String} (nonempty : first ≠ "")
    (h : ∀ piece ∈ first :: more, '/' ∉ piece.toList) :
    (⟨"/".intercalate (first :: more)⟩ : Path).isAbsolute = false ∧
      (⟨"/".intercalate (first :: more)⟩ : Path).pieces = first :: more := by
  have relative : (⟨"/".intercalate (first :: more)⟩ : Path).isAbsolute = false := by
    obtain ⟨c, cs, hc⟩ := List.exists_cons_of_ne_nil
      fun nil => nonempty (String.toList_eq_nil_iff.mp nil)
    have differ : c ≠ '/' := by
      rintro rfl
      exact h first List.mem_cons_self (by simp [hc])
    obtain ⟨rest, hr⟩ : ∃ rest, "/".intercalate (first :: more) = first ++ rest := by
      cases more with
      | nil => exact ⟨"", by rw [String.intercalate_singleton, String.append_empty]⟩
      | cons next more => exact ⟨_, by rw [String.intercalate_cons_cons, String.append_assoc]⟩
    simp [isAbsolute, hr, String.toList_append, hc, differ]
  refine ⟨relative, ?_⟩
  rw [pieces, relative]
  exact splitAt_pieces (List.cons_ne_nil _ _) h

/-- A relative path describes the step of its first piece, and goes down from there. -/
private theorem steps_intercalate {first : String} {names : List String} {step : Step}
    (nonempty : first ≠ "") (slash : '/' ∉ first.toList) (hf : firstStep? first = some step)
    (h : ∀ name ∈ names, IsName name) :
    (⟨"/".intercalate (first :: names)⟩ : Path).steps = step :: names.map .down := by
  have slashes : ∀ piece ∈ first :: names, '/' ∉ piece.toList := by
    rw [List.forall_mem_cons]
    exact ⟨slash, fun name hm => (h name hm).2.2.2⟩
  obtain ⟨relative, pieces⟩ := pieces_intercalate nonempty slashes
  simp only [steps, relative, pieces, Bool.false_eq_true, if_false, hf, filterMap_innerStep? h]
  rfl

private theorem steps_root {names : List String} (h : ∀ name ∈ names, IsName name) :
    (⟨"/" ++ "/".intercalate names⟩ : Path).steps = .root :: names.map .down := by
  have absolute : (⟨"/" ++ "/".intercalate names⟩ : Path).isAbsolute = true := by
    simp [isAbsolute]
  have tail : ("/" ++ "/".intercalate names).toList.tail = ("/".intercalate names).toList := by
    simp
  simp only [steps, pieces, absolute, if_true, tail]
  cases names with
  | nil => rfl
  | cons name more =>
    rw [splitAt_pieces (List.cons_ne_nil _ _) fun name hm => (h name hm).2.2.2,
      filterMap_innerStep? h]

/-- **The path of a direct walk describes it.** -/
theorem steps_ofSteps {walk : List Step} (h : Direct walk) : (ofSteps walk).steps = walk := by
  obtain ⟨start, names, hs, hn, rfl⟩ := h
  have texts : (names.map Step.down).map pieceOf = names := by
    rw [List.map_map]
    exact List.map_id names
  rcases hs with rfl | rfl | rfl
  · cases names with
    | nil => rfl
    | cons name more =>
      have path : ofSteps ((name :: more).map Step.down) = ⟨"/".intercalate (name :: more)⟩ :=
        congrArg (fun pieces => Path.mk ("/".intercalate pieces)) texts
      have good := hn name List.mem_cons_self
      have first : firstStep? name = some (.down name) := by
        rw [firstStep?, if_neg good.2.1, innerStep?_of_isName good]
      rw [List.nil_append, path, steps_intercalate good.1 good.2.2.2 first fun other hm =>
        hn other (List.mem_cons_of_mem _ hm)]
      rfl
  · have path : ofSteps ([.root] ++ names.map Step.down) = ⟨"/" ++ "/".intercalate names⟩ :=
      congrArg (fun pieces => Path.mk ("/" ++ "/".intercalate pieces)) texts
    rw [path, steps_root hn]
    rfl
  · have path : ofSteps ([.up] ++ names.map Step.down) = ⟨"/".intercalate (".." :: names)⟩ :=
      congrArg (fun pieces => Path.mk ("/".intercalate (".." :: pieces))) texts
    rw [path, steps_intercalate (by decide) (by decide) rfl hn]
    rfl

theorem settled_of_direct {walk : List Step} (h : Direct walk) : settled walk = walk := by
  obtain ⟨start, names, hs, -, rfl⟩ := h
  have first : start.foldl settle [] = start.reverse := by
    rcases hs with rfl | rfl | rfl <;> rfl
  rw [settled, List.foldl_append, first, foldl_settle_down, ← List.reverse_append,
    List.reverse_reverse]

theorem steps_normalize (p : Path) : p.normalize.steps = settled p.steps :=
  steps_ofSteps p.direct_settled

theorem ofSteps_steps_normalize (p : Path) : ofSteps p.normalize.steps = p.normalize := by
  rw [steps_normalize, normalize]

/-- **Normal paths have no detours.** -/
@[simp] theorem normalize_normalize (p : Path) : p.normalize.normalize = p.normalize := by
  have same : settled p.normalize.steps = settled p.steps := by
    rw [steps_normalize, settled_of_direct p.direct_settled]
  simp only [normalize] at same ⊢
  rw [same]

end Path

end Compliance
