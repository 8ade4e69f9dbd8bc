import Compliance.Source
import Mathlib.Data.List.Induction

/-!
# Where paths lead

Walked from a directory, a path leads to another one: to the root, to the parent,
to a name below.  There are no links, and the root is its own parent.  Taking the
detours out of a path keeps where it leads as long as at most one parent of the
starting point is left behind.  A path that goes up further loses all but one of
these steps, and names another place from any directory that has two parents to
leave.

## Main definitions

* `Path.lead p place` — where a path leads from a directory.
* `Bearing` — what a walk comes to, with `Path.lifts` for the parents it leaves behind.
* `Path.lead_normalize` — where a normal path leads.
* `Path.lead_normalize_iff` — when that is where the path leads.
-/

namespace Compliance

/-! ## Walks over directories -/

/-- The directory that a step leads to.  A directory is the names on the way down to it from the
root. -/
def Step.lead (place : List String) : Step → List String
  | .root => []
  | .here => place
  | .up => place.dropLast
  | .down name => place ++ [name]

/-- The directory that a path leads to from another one. -/
def Path.lead (p : Path) (place : List String) : List String := p.steps.foldl Step.lead place

/-- What a walk comes to: whether it goes to the root, how many parents of its start it leaves
behind, and the names that it goes down from there. -/
structure Bearing where
  absolute : Bool
  lifts : Nat
  names : List String
deriving DecidableEq, Repr

namespace Bearing

/-- Nothing walked yet. -/
def start : Bearing := ⟨false, 0, []⟩

/-- One more step.  Going up takes back a name, or leaves one more parent behind; the root has no
parents. -/
def go (b : Bearing) : Step → Bearing
  | .root => ⟨true, 0, []⟩
  | .here => b
  | .up =>
    if b.names ≠ [] then { b with names := b.names.dropLast }
    else if b.absolute then b
    else { b with lifts := b.lifts + 1 }
  | .down name => { b with names := b.names ++ [name] }

/-- What a walk comes to. -/
def ofSteps (walk : List Step) : Bearing := walk.foldl go start

/-- Where a bearing leads from a directory. -/
def lead (b : Bearing) (place : List String) : List String :=
  (if b.absolute then [] else place.take (place.length - b.lifts)) ++ b.names

/-- The walk without detours that keeps at most one step up. -/
def walk (b : Bearing) : List Step :=
  (if b.absolute then [.root] else if b.lifts = 0 then [] else [.up]) ++ b.names.map .down

@[simp] theorem lead_start (place : List String) : start.lead place = place := by
  simp [lead, start]

/-- A bearing leads where its steps lead, one by one. -/
theorem lead_go (b : Bearing) (step : Step) (place : List String) :
    (b.go step).lead place = Step.lead (b.lead place) step := by
  cases step with
  | root => simp [go, lead, Step.lead]
  | here => rfl
  | down name => exact (List.append_assoc _ _ _).symm
  | up =>
    by_cases below : b.names = []
    · by_cases absolute : b.absolute = true
      · simp [go, lead, Step.lead, below, absolute]
      · have parent : (place.take (place.length - b.lifts)).dropLast =
            place.take (place.length - (b.lifts + 1)) := by
          rw [List.dropLast_eq_take, List.length_take, List.take_take]
          congr 1
          omega
        simp [go, lead, Step.lead, below, absolute, parent]
    · simp [go, lead, Step.lead, below, List.dropLast_append_of_ne_nil]

theorem lead_ofSteps (walk : List Step) (place : List String) :
    (ofSteps walk).lead place = walk.foldl Step.lead place := by
  induction walk using List.reverseRecOn with
  | nil => exact lead_start place
  | append_singleton walk step ih =>
    simp only [ofSteps, List.foldl_append, List.foldl_cons, List.foldl_nil] at ih ⊢
    rw [lead_go, ih]

theorem lifts_of_absolute (walk : List Step) :
    (ofSteps walk).absolute = true → (ofSteps walk).lifts = 0 := by
  induction walk using List.reverseRecOn with
  | nil =>
    intro absolute
    cases absolute
  | append_singleton walk step ih =>
    simp only [ofSteps, List.foldl_append, List.foldl_cons, List.foldl_nil] at ih ⊢
    generalize walk.foldl go start = b at ih
    intro absolute
    cases step with
    | root => rfl
    | here => exact ih absolute
    | down name => exact ih absolute
    | up =>
      by_cases below : b.names = []
      · by_cases root : b.absolute = true
        · simpa [go, below, root] using ih root
        · simp [go, below, root] at absolute
      · simp only [go, below, ne_eq, not_false_eq_true, if_true] at absolute ⊢
        exact ih absolute

theorem absolute_foldl_go (walk : List Step) {b : Bearing} (h : b.absolute = true) :
    (walk.foldl go b).absolute = true := by
  induction walk generalizing b with
  | nil => exact h
  | cons step more ih =>
    refine ih ?_
    cases step with
    | root => rfl
    | here => exact h
    | down name => exact h
    | up =>
      simp only [go]
      split <;> simp [h]

/-! ## Detours -/

/-- Inside a path, a step without detours is a step of the bearing. -/
theorem settle_walk (b : Bearing) {step : Step} (h : IsInner step) :
    Path.settle b.walk.reverse step = (b.go step).walk.reverse := by
  obtain rfl | rfl | ⟨name, -, rfl⟩ := h
  · cases hw : b.walk.reverse with
    | nil => simpa [Path.settle, go] using hw
    | cons last _ => cases last <;> simp [Path.settle, go, hw]
  · obtain ⟨absolute, lifts, names⟩ := b
    induction names using List.reverseRecOn with
    | nil =>
      cases absolute with
      | true => rfl
      | false => cases lifts <;> rfl
    | append_singleton names name _ => simp [walk, go, Path.settle]
  · have longer : (b.go (.down name)).walk = b.walk ++ [.down name] := by
      change _ ++ (b.names ++ [name]).map Step.down = _
      rw [List.map_append, ← List.append_assoc]
      rfl
    rw [Path.settle_down, longer, List.reverse_append]
    rfl

/-- **Without detours a path is the walk of its bearing.** -/
theorem settled_steps (p : Path) : Path.settled p.steps = (ofSteps p.steps).walk := by
  obtain ⟨front, inner, hf, hi, steps⟩ := p.exists_steps
  have first : front.foldl Path.settle [] = (ofSteps front).walk.reverse := by
    obtain rfl | rfl := hf <;> rfl
  rw [Path.settled, steps, ofSteps, List.foldl_append, List.foldl_append, first, ofSteps]
  clear steps first
  rw [List.reverse_eq_iff]
  induction inner using List.reverseRecOn with
  | nil => rfl
  | append_singleton inner step ih =>
    simp only [List.forall_mem_append, List.forall_mem_singleton] at hi
    simp only [List.foldl_append, List.foldl_cons, List.foldl_nil]
    rw [ih hi.1, settle_walk _ hi.2]

private theorem foldl_lead_down (names place : List String) :
    (names.map Step.down).foldl Step.lead place = place ++ names := by
  induction names generalizing place with
  | nil => simp
  | cons name more ih => simp [Step.lead, ih]

/-- The walk of a bearing goes up once where the bearing goes up at all. -/
theorem foldl_lead_walk (b : Bearing) (place : List String) : b.walk.foldl Step.lead place =
    (if b.absolute then [] else place.take (place.length - min b.lifts 1)) ++ b.names := by
  rw [walk, List.foldl_append, foldl_lead_down]
  by_cases absolute : b.absolute = true
  · simp [absolute, Step.lead]
  · by_cases noLifts : b.lifts = 0
    · simp [absolute, noLifts]
    · have one : min b.lifts 1 = 1 := by omega
      simp [absolute, noLifts, one, Step.lead, List.dropLast_eq_take]

end Bearing

namespace Path

/-- How many parents of its starting point a path leaves behind. -/
def lifts (p : Path) : Nat := (Bearing.ofSteps p.steps).lifts

/-- **Where a normal path leads**: where its path would, had it left at most one parent behind. -/
theorem lead_normalize (p : Path) (place : List String) : p.normalize.lead place =
    { Bearing.ofSteps p.steps with lifts := min p.lifts 1 }.lead place := by
  rw [lead, steps_normalize, Bearing.settled_steps, Bearing.foldl_lead_walk]
  rfl

theorem lead_eq (p : Path) (place : List String) :
    p.lead place = (Bearing.ofSteps p.steps).lead place :=
  (Bearing.lead_ofSteps p.steps place).symm

/-- **A normal path leads where its path leads** exactly if that leaves at most one parent behind,
or if there are no more to leave. -/
theorem lead_normalize_iff (p : Path) (place : List String) :
    p.normalize.lead place = p.lead place ↔ p.lifts ≤ 1 ∨ place.length ≤ 1 := by
  rw [lead_normalize, lead_eq]
  by_cases absolute : (Bearing.ofSteps p.steps).absolute = true
  · have noLifts : p.lifts = 0 := Bearing.lifts_of_absolute _ absolute
    simp [Bearing.lead, absolute, noLifts]
  · have same : (Bearing.ofSteps p.steps).lifts = p.lifts := rfl
    simp only [Bearing.lead, absolute, same, Bool.false_eq_true, if_false, List.append_left_inj]
    constructor
    · intro taken
      have lengths := congrArg List.length taken
      simp only [List.length_take] at lengths
      omega
    · intro few
      congr 1
      omega

/-- **Paths that leave at most one parent behind are normally the same exactly if they lead to the
same place** from everywhere. -/
theorem normalize_eq_iff {p q : Path} (hp : p.lifts ≤ 1) (hq : q.lifts ≤ 1) :
    p.normalize = q.normalize ↔ ∀ place, p.lead place = q.lead place := by
  constructor
  · intro same place
    rw [← (lead_normalize_iff p place).mpr (.inl hp), ← (lead_normalize_iff q place).mpr (.inl hq),
      same]
  · intro same
    suffices bearings : Bearing.ofSteps p.steps = Bearing.ofSteps q.steps by
      rw [normalize, normalize, Bearing.settled_steps, Bearing.settled_steps, bearings]
    -- The root tells the names, and a directory with two parents what is left of it.
    have names := same []
    have deep := congrArg List.length (same ["", ""])
    have rootP := Bearing.lifts_of_absolute p.steps
    have rootQ := Bearing.lifts_of_absolute q.steps
    rw [lead_eq, lead_eq] at names deep
    rw [lifts] at hp hq
    generalize Bearing.ofSteps p.steps = b at *
    generalize Bearing.ofSteps q.steps = c at *
    obtain ⟨absolute, lifts, down⟩ := b
    obtain ⟨absolute', lifts', down'⟩ := c
    obtain rfl : down = down' := by simpa [Bearing.lead] using names
    cases absolute <;> cases absolute' <;> simp_all [Bearing.lead] <;> omega

/-! ## References -/

/-- The directory that a run of characters between slashes leads to. -/
private def leadRun (place : List String) (run : List Char) : List String :=
  ((innerStep? (String.ofList run)).map (Step.lead place)).getD place

/-- The directory that a text with slashes leads to. -/
private def leadText (place : List String) (cs : List Char) : List String :=
  (Text.splitAt '/' cs).foldl leadRun place

private theorem leadText_nil (place : List String) : leadText place [] = place := rfl

private theorem leadText_append (place : List String) (cs ds : List Char) :
    leadText place (cs ++ '/' :: ds) = leadText (leadText place cs) ds := by
  rw [leadText, Text.splitAt_append_cons, List.foldl_append]
  rfl

private theorem foldl_lead_filterMap (pieces : List String) (place : List String) :
    (pieces.filterMap innerStep?).foldl Step.lead place =
      (pieces.map String.toList).foldl leadRun place := by
  induction pieces generalizing place with
  | nil => rfl
  | cons piece more ih =>
    cases hp : innerStep? piece with
    | none => simp [hp, leadRun, ih]
    | some step => simp [hp, leadRun, ih]

/-- A path leads where its text does, from the root if it is absolute. -/
private theorem lead_eq_leadText (p : Path) (place : List String) :
    p.lead place = leadText (if p.isAbsolute then [] else place) p.text.toList := by
  have runs : ∀ cs, ((Text.splitAt '/' cs).map String.ofList).map String.toList =
      Text.splitAt '/' cs := by
    intro cs
    simp [List.map_map, Function.comp_def]
  by_cases absolute : p.isAbsolute = true
  · obtain ⟨cs, hcs⟩ : ∃ cs, p.text.toList = '/' :: cs := by
      exact List.head?_eq_some_iff.mp (of_decide_eq_true absolute)
    have first := leadText_append [] [] cs
    rw [List.nil_append, leadText_nil] at first
    simp only [lead, steps, pieces, absolute, if_true, hcs, List.tail_cons, List.foldl_cons,
      foldl_lead_filterMap, runs, first]
    rfl
  · simp only [lead, steps, pieces, absolute, Bool.false_eq_true, if_false]
    have first : ∀ piece : String, (firstStep? piece).toList.foldl Step.lead place =
        leadRun place piece.toList := by
      intro piece
      by_cases here : piece = "."
      · subst here
        rfl
      · rw [leadRun, String.ofList_toList, firstStep?, if_neg here]
        cases innerStep? piece <;> rfl
    have all := runs p.text.toList
    cases hs : (Text.splitAt '/' p.text.toList).map String.ofList with
    | nil => exact absurd (all.symm.trans (congrArg _ hs)) (Text.splitAt_ne_nil _ _)
    | cons piece more =>
      rw [hs] at all
      rw [leadText, ← all, List.map_cons, List.foldl_cons, List.foldl_append, first,
        foldl_lead_filterMap]

section

variable {base : Path} {reference : String}

/-- A relative reference is written behind its place. -/
private theorem text_join (relative : isAbsolute ⟨reference⟩ = false) (nonempty : base.text ≠ "") :
    (base.join reference).text = if base.text.toList.getLast? = some '/' then base.text ++ reference
      else base.text ++ "/" ++ reference := by
  by_cases slash : base.text.toList.getLast? = some '/'
  · simp [join, relative, nonempty, slash]
  · simp [join, relative, nonempty, slash]

private theorem isAbsolute_join (relative : isAbsolute ⟨reference⟩ = false) :
    (base.join reference).isAbsolute = base.isAbsolute := by
  by_cases empty : base.text = ""
  · have nowhere : base.isAbsolute = false := by simp [isAbsolute, empty]
    simp [join, relative, empty, nowhere]
  · obtain ⟨c, cs, hc⟩ := List.exists_cons_of_ne_nil
      fun nil => empty (String.toList_eq_nil_iff.mp nil)
    rw [isAbsolute, isAbsolute, text_join relative empty]
    split <;> simp [hc]

private theorem leadText_join (relative : isAbsolute ⟨reference⟩ = false) (place : List String) :
    leadText place (base.join reference).text.toList =
      leadText (leadText place base.text.toList) reference.toList := by
  by_cases empty : base.text = ""
  · simp [join, relative, empty, leadText_nil]
  · rw [text_join relative empty]
    by_cases slash : base.text.toList.getLast? = some '/'
    · obtain ⟨cs, hcs⟩ := List.getLast?_eq_some_iff.mp slash
      have whole := leadText_append place cs []
      rw [leadText_nil, ← hcs] at whole
      rw [if_pos slash, String.toList_append, whole, ← leadText_append, hcs, List.append_assoc]
      rfl
    · rw [if_neg slash, ← leadText_append]
      simp

end

/-- **A reference from a place leads where it would lead from there.** -/
theorem lead_join (base : Path) (reference : String) (place : List String) :
    (base.join reference).lead place = lead ⟨reference⟩ (base.lead place) := by
  cases relative : isAbsolute ⟨reference⟩ with
  | true => simp [join, relative, lead_eq_leadText]
  | false =>
    rw [lead_eq_leadText, leadText_join relative, isAbsolute_join relative, lead_eq_leadText base,
      lead_eq_leadText ⟨reference⟩, relative]
    rfl

/-- **A reference that is followed leads where it would lead from its place**, exactly if together
with the place it leaves at most one parent behind, or if there are no more to leave. -/
theorem lead_locate_iff (base : Path) (reference : String) (place : List String) :
    (Sources.locate base reference).lead place = lead ⟨reference⟩ (base.lead place) ↔
      (base.join reference).lifts ≤ 1 ∨ place.length ≤ 1 := by
  rw [Sources.locate, ← lead_join, lead_normalize_iff]

theorem lifts_of_isAbsolute {p : Path} (h : p.isAbsolute = true) : p.lifts = 0 := by
  refine Bearing.lifts_of_absolute _ ?_
  rw [steps, if_pos h, Bearing.ofSteps, List.foldl_cons]
  exact Bearing.absolute_foldl_go _ rfl

/-- A reference to the root, or from a place at the root, leaves no parents behind. -/
theorem lifts_join {base : Path} {reference : String}
    (h : base.isAbsolute = true ∨ isAbsolute ⟨reference⟩ = true) :
    (base.join reference).lifts = 0 := by
  refine lifts_of_isAbsolute ?_
  cases relative : isAbsolute ⟨reference⟩ with
  | true => rw [join, if_pos relative, relative]
  | false =>
    rw [isAbsolute_join relative]
    simpa [relative] using h

/-- **Paths lead where they are written to lead**, as long as they leave at most one parent behind.

A normal path leads from a directory where its path does, and a reference that is followed leads
where it would lead from its place, exactly if no more than one parent of the directory is left
behind on the way, or if the directory has no more.  Of such paths those are the same include that
lead to the same place from everywhere, and every path at the root is one. -/
theorem walks_kept_up_to_one_parent (p base base' : Path) (reference reference' : String)
    (place : List String) :
    (p.normalize.lead place = p.lead place ↔ p.lifts ≤ 1 ∨ place.length ≤ 1) ∧
    ((Sources.locate base reference).lead place = lead ⟨reference⟩ (base.lead place) ↔
      (base.join reference).lifts ≤ 1 ∨ place.length ≤ 1) ∧
    (base.isAbsolute = true ∨ isAbsolute ⟨reference⟩ = true → (base.join reference).lifts = 0) ∧
    ((base.join reference).lifts ≤ 1 → (base'.join reference').lifts ≤ 1 →
      (Sources.locate base reference = Sources.locate base' reference' ↔
        ∀ start, lead ⟨reference⟩ (base.lead start) = lead ⟨reference'⟩ (base'.lead start))) := by
  refine ⟨lead_normalize_iff p place, lead_locate_iff base reference place, lifts_join, ?_⟩
  intro few few'
  simp only [Sources.locate, normalize_eq_iff few few', lead_join]

/-- **Two parents cannot be left behind**: from a directory in two others, `../../lib` is taken for
the `lib` of the inner one, and for the same include as `../lib`. -/
theorem two_parents_not_left :
    lead ⟨"../../lib"⟩ ["site", "plans"] = ["lib"] ∧
      (normalize ⟨"../../lib"⟩).lead ["site", "plans"] = ["site", "lib"] ∧
      Sources.locate ⟨""⟩ "../../lib" = Sources.locate ⟨""⟩ "../lib" := by
  decide +kernel

end Path

end Compliance
