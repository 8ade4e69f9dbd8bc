import Compliance.Proofs.Access
import Compliance.Verdict

/-!
# What is gathered covers what is asked

Gathering and judging go different ways through a rule.  Gathering keeps a path
inside a resource and takes the targets of all elements on the path together;
judging goes from element to element and looks at the targets of each.  Still
every target that judging asks the store for was looked up before, and where it
passes a target over, there is a note on it.

## Main definitions

* `Finding.Asks` — judging a statement asks the store for a target.
* `Finding.ofStatement_congr` — nothing else of the store matters to a finding.
* `Gathering.Answered` — a target is answered, and noted if it does not exist.
* `Gathering.statement_answers` — what gathering a statement leaves answered.
-/

namespace Compliance

/-! ## What judging asks for -/

/-- Judging a statement on attributes of `base` asks the store for `target`, which an association
of `source` leads to. -/
inductive Finding.Asks (store : Store) :
    (base : Resource) → (scope : Attributes) → Statement → (source target : ResourceRef) → Prop
  /-- A target of the association itself. -/
  | target {base scope name children targets target} :
      children ≠ [] → scope.targets? name = some targets → target ∈ targets →
      Asks store base scope (.association name children) base.ref target
  /-- What a statement about an element asks for. -/
  | element {base scope name children elements element child source target} :
      scope.property? name = some (.nested elements) → element ∈ elements → child ∈ children →
      Asks store base element child source target →
      Asks store base scope (.nested name children) source target
  /-- What a statement about a target asks for. -/
  | behind {base scope name children targets next found child source target} :
      scope.targets? name = some targets → next ∈ targets → store.cached? next = some found →
      child ∈ children → Asks store found found.attributes child source target →
      Asks store base scope (.association name children) source target

namespace Finding

/-- Findings on the same things are the same if each is. -/
private theorem all_map_congr {α : Type} {f g : α → Finding} {things : List α}
    (h : ∀ a ∈ things, f a = g a) : all (things.map f) = all (things.map g) :=
  congrArg all (List.map_congr_left h)

/-- The elements that have a place are those of the property. -/
theorem mem_of_mem_placed {place spot : String} {elements : List Attributes} {element : Attributes}
    (h : (spot, element) ∈ placed place elements) : element ∈ elements := by
  simp only [placed] at h
  split at h
  · simp_all
  · simp only [List.mem_map, Prod.exists, Prod.mk.injEq] at h
    obtain ⟨e, i, he, -, rfl⟩ := h
    exact List.fst_mem_of_mem_zipIdx he

/-- The targets that have a place are those that the store has. -/
theorem mem_placedTargets {store : Store} {place spot : String} {targets : List ResourceRef}
    {scope : Attributes} (h : (spot, scope) ∈ placedTargets store place targets) :
    ∃ next ∈ targets, ∃ found, store.cached? next = some found ∧ scope = found.attributes := by
  simp only [placedTargets, List.mem_filterMap, Option.map_eq_some_iff, Prod.mk.injEq] at h
  obtain ⟨next, hn, found, hf, -, rfl⟩ := h
  exact ⟨next, hn, found, hf, rfl⟩

/-- Stores that have the same targets give them the same places. -/
private theorem placedTargets_congr {store other : Store} {place : String}
    {targets : List ResourceRef} (h : ∀ t ∈ targets, store.cached? t = other.cached? t) :
    placedTargets store place targets = placedTargets other place targets := by
  induction targets with
  | nil => rfl
  | cons t more ih =>
    simp only [List.forall_mem_cons] at h
    simp only [placedTargets, List.filterMap_cons, h.1] at ih ⊢
    rw [ih h.2]

mutual

/-- **A finding depends on the store through what it asks for alone.** -/
theorem ofStatement_congr {store other : Store} (place : String) (base : Resource)
    (scope : Attributes) :
    ∀ s : Statement, (∀ source target, Asks store base scope s source target →
      store.cached? target = other.cached? target) →
      ofStatement store place scope s = ofStatement other place scope s
  | .property _ _, _ => by simp only [ofStatement]
  | .entry _ _ _, _ => by simp only [ofStatement]
  | .nested name children, h => by
    simp only [ofStatement]
    split
    · next elements he =>
      refine all_map_congr fun ⟨spot, element⟩ hm => ?_
      refine ofStatements_congr spot base element children fun s hs source target asked => ?_
      exact h source target (.element he (mem_of_mem_placed hm) hs asked)
    · rfl
  | .association name [], _ => by simp only [ofStatement]
  | .association name (child :: more), h => by
    simp only [ofStatement]
    cases ht : scope.targets? name with
    | none => rfl
    | some targets =>
      have same : placedTargets store (below place name) targets =
          placedTargets other (below place name) targets := by
        refine placedTargets_congr fun target hm => ?_
        exact h base.ref target (.target (List.cons_ne_nil _ _) ht hm)
      simp only [← same]
      refine all_map_congr fun ⟨spot, target⟩ hm => ?_
      obtain ⟨next, hn, found, hf, rfl⟩ := mem_placedTargets hm
      refine ofStatements_congr spot found found.attributes (child :: more) fun s hs a b asked => ?_
      exact h a b (.behind ht hn hf hs asked)

theorem ofStatements_congr {store other : Store} (place : String) (base : Resource)
    (scope : Attributes) :
    ∀ ss : List Statement, (∀ s ∈ ss, ∀ source target, Asks store base scope s source target →
      store.cached? target = other.cached? target) →
      ofStatements store place scope ss = ofStatements other place scope ss
  | [], _ => rfl
  | s :: more, h => by
    rw [ofStatements, ofStatements,
      ofStatement_congr place base scope s (h s (List.mem_cons_self ..)),
      ofStatements_congr place base scope more fun t ht => h t (List.mem_cons_of_mem _ ht)]

end

end Finding

/-! ## Paths of elements -/

namespace Attributes

/-- A path that is one property longer reaches the elements of that property. -/
theorem mem_reach_append {a scope element : Attributes} {path : List String} {name : String}
    (hs : scope ∈ a.reach path) (he : element ∈ scope.elements name) :
    element ∈ a.reach (path ++ [name]) := by
  induction path generalizing a with
  | nil =>
    obtain rfl : scope = a := by simpa [reach] using hs
    simpa [reach] using he
  | cons segment path ih =>
    simp only [reach, List.mem_flatMap, List.cons_append] at hs ⊢
    obtain ⟨next, hn, hs⟩ := hs
    exact ⟨next, hn, ih hs⟩

/-- The targets on one of the elements that a path reaches are among those of the path. -/
theorem association?_of_mem_reach {a scope : Attributes} {path : List String} {name : String}
    {targets : List ResourceRef} (hs : scope ∈ a.reach path)
    (ht : scope.targets? name = some targets) :
    ∃ refs, a.association? path name = some refs ∧ ∀ target ∈ targets, target ∈ refs := by
  have hm : targets ∈ (a.reach path).filterMap fun scope => scope.targets? name :=
    List.mem_filterMap.mpr ⟨scope, hs, ht⟩
  rw [association?]
  split
  · next none => simp [none] at hm
  · refine ⟨_, rfl, fun target h => ?_⟩
    exact List.mem_eraseDups.mpr (List.mem_flatten.mpr ⟨targets, hm, h⟩)

end Attributes

/-! ## What gathering leaves answered -/

namespace Gathering

/-- The store has an answer for a target, and if the answer is that it does not exist, there is a
note that says so and names the resource it was reached from. -/
def Answered (store : Store) (rule : String) (notes : List Note) (source target : ResourceRef) :
    Prop :=
  ∃ found, store.answer? target = some (.ok found) ∧
    (found = none → .targetMissing rule source target ∈ notes)

variable {registry : Registry} {rule : String} {source target : ResourceRef}

theorem Answered.mono {before after : Store} {notes more : List Note}
    (h : Answered before rule notes source target) (hs : before.KeptBy after) (hn : notes ⊆ more) :
    Answered after rule more source target := by
  obtain ⟨found, ha, hm⟩ := h
  exact ⟨found, hs.answer ha, fun none => hn (hm none)⟩

/-- What is asked for leaves the answers that there were before. -/
theorem keptBy_of_yields {α : Type} {x : Inquiry α} {s t : Session} {a : α}
    (h : (x.access registry).Yields s a t) : s.store.KeptBy t.store :=
  (Inquiry.access_preserves (registry.preserves_keptBy s.store) x).of_yields h (.refl _)

/-- The targets of an association are all looked up: those that exist are handed on, and on each
of the others there is a note. -/
theorem targets_answers {base : ResourceRef} {refs : List ResourceRef} {s t : Session}
    {found : List Resource} {notes : List Note}
    (h : ((Inquiry.targets rule base refs).access registry).Yields s (found, notes) t) :
    ∀ ref ∈ refs, Answered t.store rule notes base ref ∧
      ∀ resource, t.store.cached? ref = some resource → resource ∈ found := by
  induction refs generalizing s found notes with
  | nil => simp
  | cons ref refs ih =>
    simp only [Inquiry.targets, Inquiry.access_bind, Inquiry.access_lookup, Access.yields_bind] at h
    obtain ⟨answer, u, hu, ⟨others, rest⟩, v, hv, h⟩ := h
    have kept : u.store.KeptBy v.store := keptBy_of_yields hv
    have looked := kept.answer (Access.answer?_of_yields_lookup hu)
    cases answer with
    | some resource =>
      simp only [Inquiry.access_pure, Access.yields_pure, Prod.mk.injEq] at h
      obtain ⟨⟨rfl, rfl⟩, rfl⟩ := h
      rintro ref' (_ | ⟨_, hm⟩)
      · refine ⟨⟨some resource, looked, by simp⟩, fun r hr => ?_⟩
        simp only [Store.cached?, looked, Option.some.injEq] at hr
        simp [hr]
      · obtain ⟨answered, here⟩ := ih hv ref' hm
        exact ⟨answered, fun r hr => List.mem_cons_of_mem _ (here r hr)⟩
    | none =>
      simp only [Inquiry.access_pure, Access.yields_pure, Prod.mk.injEq] at h
      obtain ⟨⟨rfl, rfl⟩, rfl⟩ := h
      rintro ref' (_ | ⟨_, hm⟩)
      · exact ⟨⟨none, looked, by simp⟩, by simp [Store.cached?, looked]⟩
      · obtain ⟨answered, here⟩ := ih hv ref' hm
        exact ⟨answered.mono (.refl _) (List.subset_cons_self _ _), here⟩

/-- Each of some resources is visited, and what the visit notes is in the notes on all. -/
theorem exists_of_yields_each {visit : Resource → Inquiry (List Note)} {resources : List Resource}
    {s t : Session} {notes : List Note}
    (h : ((Inquiry.each visit resources).access registry).Yields s notes t) :
    ∀ resource ∈ resources, ∃ u own v, ((visit resource).access registry).Yields u own v ∧
      v.store.KeptBy t.store ∧ own ⊆ notes := by
  induction resources generalizing s notes with
  | nil => simp
  | cons resource more ih =>
    simp only [Inquiry.each, Inquiry.access_bind, Inquiry.access_pure, Access.yields_bind,
      Access.yields_pure] at h
    obtain ⟨own, u, hu, others, v, hv, rfl, rfl⟩ := h
    rintro resource' (_ | ⟨_, hm⟩)
    · exact ⟨s, own, u, hu, keptBy_of_yields hv, List.subset_append_left _ _⟩
    · obtain ⟨w, own', x, hw, kept, sub⟩ := ih hv resource' hm
      exact ⟨w, own', x, hw, kept, fun n hn => List.mem_append_right _ (sub hn)⟩

/-- Each of some statements is followed, and what it notes is in the notes on all. -/
theorem exists_of_yields_statements {base : Resource} {path : List String} {ss : List Statement}
    {x y : Session} {notes : List Note}
    (h : ((Inquiry.statements rule base path ss).access registry).Yields x notes y) :
    ∀ s ∈ ss, ∃ u own v, ((Inquiry.statement rule base path s).access registry).Yields u own v ∧
      v.store.KeptBy y.store ∧ own ⊆ notes := by
  induction ss generalizing x notes with
  | nil => simp
  | cons s more ih =>
    simp only [Inquiry.statements, Inquiry.access_bind, Inquiry.access_pure, Access.yields_bind,
      Access.yields_pure] at h
    obtain ⟨own, u, hu, others, v, hv, rfl, rfl⟩ := h
    rintro s' (_ | ⟨_, hm⟩)
    · exact ⟨x, own, u, hu, keptBy_of_yields hv, List.subset_append_left _ _⟩
    · obtain ⟨w, own', z, hw, kept, sub⟩ := ih hv s' hm
      exact ⟨w, own', z, hw, kept, fun n hn => List.mem_append_right _ (sub hn)⟩

/-- **What a statement asks for was answered when it was followed**, on whichever of the elements
that its path reaches it asks. -/
theorem statement_answers {store : Store} {base : Resource} {scope : Attributes} {s : Statement}
    (asked : Finding.Asks store base scope s source target) {path : List String} {x y : Session}
    {notes : List Note}
    (h : ((Inquiry.statement rule base path s).access registry).Yields x notes y)
    (later : y.store.KeptBy store) (reached : scope ∈ base.attributes.reach path) :
    Answered y.store rule notes source target := by
  induction asked generalizing path x y notes with
  | @target base scope name children targets target hc ht hm =>
    obtain ⟨refs, hr, sub⟩ := Attributes.association?_of_mem_reach reached ht
    simp only [Inquiry.statement, hr, Inquiry.access_bind, Inquiry.access_pure, Access.yields_bind,
      Access.yields_pure] at h
    obtain ⟨⟨found, missing⟩, u, hu, below, v, hv, rfl, rfl⟩ := h
    have kept : u.store.KeptBy v.store := keptBy_of_yields hv
    exact (targets_answers hu target (sub target hm)).1.mono kept (List.subset_append_left _ _)
  | @element base scope name children elements element child source target hp he hc _ ih =>
    rw [Inquiry.statement] at h
    obtain ⟨u, own, v, hv, kept, sub⟩ := exists_of_yields_statements h child hc
    refine (ih hv (kept.trans later) (Attributes.mem_reach_append reached ?_)).mono kept sub
    simpa [Attributes.elements, hp] using he
  | @behind base scope name children targets next next' child source target ht hm hf hc _ ih =>
    obtain ⟨refs, hr, sub⟩ := Attributes.association?_of_mem_reach reached ht
    simp only [Inquiry.statement, hr, Inquiry.access_bind, Inquiry.access_pure, Access.yields_bind,
      Access.yields_pure] at h
    obtain ⟨⟨found, missing⟩, u, hu, below, v, hv, rfl, rfl⟩ := h
    have kept : u.store.KeptBy v.store := keptBy_of_yields hv
    obtain ⟨⟨answer, ha, -⟩, here⟩ := targets_answers hu next (sub next hm)
    -- Judging goes on with the very resource that was found when gathering.
    have same : u.store.cached? next = some next' := by
      have still := later.answer (kept.answer ha)
      simp only [Store.cached?, still, ha] at hf ⊢
      exact hf
    obtain ⟨w, own, z, hw, kept', sub'⟩ := exists_of_yields_each hv next' (here next' same)
    obtain ⟨w', own', z', hw', kept'', sub''⟩ := exists_of_yields_statements hw child hc
    have answered := ih hw' (kept''.trans (kept'.trans later)) (by simp [Attributes.reach])
    exact answered.mono (kept''.trans kept') fun n hn => List.mem_append_right _ (sub' (sub'' hn))

end Gathering

/-! ## Rules -/

/-- Judging a rule on a resource asks the store for `target`, which an association of `source`
leads to. -/
def Verdict.Asks (store : Store) (r : Resolved.Rule) (resource : Resource)
    (source target : ResourceRef) : Prop :=
  ∃ s ∈ r.conditions ++ r.assertions,
    Finding.Asks store resource resource.attributes s source target

/-- A verdict depends on the store through what judging asks for alone. -/
theorem Verdict.of_congr {store other : Store} {r : Resolved.Rule} {resource : Resource}
    (h : ∀ source target, Asks store r resource source target →
      store.cached? target = other.cached? target) :
    of store r resource = of other r resource := by
  have conditions : Finding.ofStatements store "" resource.attributes r.conditions =
      Finding.ofStatements other "" resource.attributes r.conditions :=
    Finding.ofStatements_congr "" resource resource.attributes r.conditions fun s hs a b asked =>
      h a b ⟨s, List.mem_append_left _ hs, asked⟩
  have assertions : Finding.ofStatements store "" resource.attributes r.assertions =
      Finding.ofStatements other "" resource.attributes r.assertions :=
    Finding.ofStatements_congr "" resource resource.attributes r.assertions fun s hs a b asked =>
      h a b ⟨s, List.mem_append_right _ hs, asked⟩
  rw [of, of, conditions, assertions]

namespace Gathering

/-- What judging a gathered rule on one of its resources asks for was answered in gathering. -/
theorem rule_answers {registry : Registry} {r : Resolved.Rule} {s t : Session}
    {gathered : Gathered} (h : (rule registry r).Yields s gathered t) {store : Store}
    (later : t.store.KeptBy store) {base : Resource} (hb : base ∈ gathered.resources)
    {source target : ResourceRef} (asked : Verdict.Asks store r base source target) :
    Answered t.store r.name gathered.notes source target := by
  simp only [rule, Inquiry.rule, Inquiry.access_bind, Inquiry.access_pure, Access.yields_bind,
    Access.yields_pure] at h
  obtain ⟨resources, u, -, notes, v, hv, rfl, rfl⟩ := h
  obtain ⟨w, own, z, hw, kept, sub⟩ := exists_of_yields_each hv base hb
  simp only [Inquiry.resource, Inquiry.access_bind, Inquiry.access_pure, Access.yields_bind,
    Access.yields_pure] at hw
  obtain ⟨first, x, hx, second, y, hy, rfl, rfl⟩ := hw
  obtain ⟨s, hs, asked⟩ := asked
  rcases List.mem_append.mp hs with hs | hs
  · have kept' : x.store.KeptBy y.store := keptBy_of_yields hy
    obtain ⟨i, one, j, hj, kept'', sub'⟩ := exists_of_yields_statements hx s hs
    have keptAll := kept''.trans (kept'.trans kept)
    have answered := statement_answers asked hj (keptAll.trans later) (by simp [Attributes.reach])
    exact answered.mono keptAll fun n hn => sub (List.mem_append_left _ (sub' hn))
  · obtain ⟨i, one, j, hj, kept'', sub'⟩ := exists_of_yields_statements hy s hs
    have keptAll := kept''.trans kept
    have answered := statement_answers asked hj (keptAll.trans later) (by simp [Attributes.reach])
    exact answered.mono keptAll fun n hn => sub (List.mem_append_right _ (sub' hn))

/-- **No target is passed over in silence.**  Once a rule is gathered, and for as long as the store
keeps its answers, a verdict on one of the gathered resources depends on the store only through
targets that were answered without a fault, and where the answer is that a target does not exist,
there is a note on it that names the target and the resource it was reached from. -/
theorem rule_covers_verdict {registry : Registry} {r : Resolved.Rule} {s t : Session}
    {gathered : Gathered} (h : (rule registry r).Yields s gathered t) {store : Store}
    (later : t.store.KeptBy store) {base : Resource} (hb : base ∈ gathered.resources) :
    (∀ source target, Verdict.Asks store r base source target →
      Answered t.store r.name gathered.notes source target) ∧
    ∀ other : Store, (∀ source target, Verdict.Asks store r base source target →
      store.cached? target = other.cached? target) →
      Verdict.of store r base = Verdict.of other r base := by
  constructor
  · intro source target asked
    exact rule_answers h later hb asked
  · intro other same
    exact Verdict.of_congr same

/-- A bucket whose keys are one that does not exist, and one that leads back to the bucket. -/
theorem rule_covers_verdict_circle :
    let bucket : ResourceRef := ⟨⟨"aws", "s3", "bucket"⟩, "b"⟩
    let key : ResourceRef := ⟨⟨"aws", "kms", "key"⟩, "k"⟩
    let gone : ResourceRef := ⟨⟨"aws", "kms", "key"⟩, "gone"⟩
    let b : Resource := ⟨bucket.type, "b", ⟨[], [("keys", [gone, key])]⟩⟩
    let k : Resource := ⟨key.type, "k", ⟨[], [("owner", [bucket])]⟩⟩
    let r : Resolved.Rule := ⟨"r", bucket.type, .empty, [],
      [.association "keys" [.association "owner" [.property "name" (.null true)]]], ⟨"", 1⟩⟩
    let gathered : Gathered := ⟨[b], [.targetMissing "r" bucket gone]⟩
    let t : Session := ⟨⟨[(bucket.type, .ok [b])],
      [(key, .ok (some k)), (gone, .ok none), (bucket, .ok (some b))]⟩,
      [.list bucket.type, .lookup gone, .lookup key]⟩
    (rule (.ofProviders [.holding "aws" [b, k]]) r).Yields .start gathered t ∧
      t.store.KeptBy t.store ∧ b ∈ gathered.resources ∧
      Verdict.Asks t.store r b bucket gone ∧ Verdict.Asks t.store r b key bucket ∧
      Answered t.store "r" gathered.notes bucket gone ∧
      Answered t.store "r" gathered.notes key bucket := by
  intro bucket key gone b k r gathered t
  have h : (rule (.ofProviders [.holding "aws" [b, k]]) r).Yields .start gathered t := rfl
  have outer : Verdict.Asks t.store r b bucket gone :=
    ⟨_, List.mem_singleton_self _, .target (by simp) rfl (List.mem_cons_self ..)⟩
  have found : t.store.cached? key = some k := rfl
  have inner : Verdict.Asks t.store r b key bucket :=
    ⟨_, List.mem_singleton_self _, .behind rfl (by simp) found (List.mem_singleton_self _)
      (.target (by simp) rfl (List.mem_singleton_self _))⟩
  have covered := (rule_covers_verdict h (.refl _) (List.mem_singleton_self b)).1
  exact ⟨h, .refl _, List.mem_singleton_self b, outer, inner, covered bucket gone outer,
    covered key bucket inner⟩

end Gathering

end Compliance
