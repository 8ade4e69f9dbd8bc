import Compliance.Gathering

/-!
# What reading leaves in the store

An access reads by way of a session and leaves another one behind, whether it
ends well or at a fault.  Whatever `list` and `lookup` keep true of the session,
every inquiry keeps true, and with it all of gathering, so that an invariant of the
store is checked on the two operations once and then holds through every walk.

The first such invariant is that answers stay: an answer that the store has is
never taken back or replaced.

## Main definitions

* `Access.outcome x s` — how `x` ends from the session `s`, and the session it leaves.
* `Access.Yields x s a t` — from the session `s`, `x` ends well with `a` and leaves `t`.
* `Access.Preserves I x` — `x` keeps `I` true of the session, however it ends.
* `Registry.Preserves I registry` — so do the two operations on a registry.
* `Store.KeptBy before after` — every answer of `before` is one of `after`.
* `Inquiry.access_preserves` — an inquiry keeps what the two operations keep.
-/

namespace Compliance

/-! ## Outcomes -/

namespace Access

variable {α β : Type}

/-- How an access ends from a session, and the session it leaves. -/
def outcome (x : Access α) (s : Session) : Answer α × Session := x.run.run s

/-- Going on behind an access that ended well, and ending with one that did not. -/
theorem outcome_bind (x : Access α) (f : α → Access β) (s : Session) :
    (x >>= f).outcome s = match x.outcome s with
      | (.ok a, t) => (f a).outcome t
      | (.error fault, t) => (.error fault, t) := by
  change ExceptT.bindCont f (x.outcome s).1 (x.outcome s).2 = _
  rcases x.outcome s with ⟨fault | a, t⟩ <;> rfl

theorem outcome_list (registry : Registry) (type : TypeRef) (s : Session) :
    (list registry type).outcome s = match registry.forType type with
      | .ok provider => Session.list provider type s
      | .error fault => (.error fault, s) := by
  rw [list, outcome_bind]
  cases registry.forType type <;> rfl

theorem outcome_lookup (registry : Registry) (ref : ResourceRef) (s : Session) :
    (lookup registry ref).outcome s = match registry.forType ref.type with
      | .ok provider => Session.lookup provider ref s
      | .error fault => (.error fault, s) := by
  rw [lookup, outcome_bind]
  cases registry.forType ref.type <;> rfl

/-- From a session, an access ends well with a value and leaves another session. -/
def Yields (x : Access α) (s : Session) (a : α) (t : Session) : Prop :=
  x.outcome s = (.ok a, t)

@[simp] theorem yields_pure {a b : α} {s t : Session} :
    (pure a : Access α).Yields s b t ↔ a = b ∧ s = t := by
  change ((.ok a, s) : Answer α × Session) = (.ok b, t) ↔ _
  simp

@[simp] theorem yields_bind {x : Access α} {f : α → Access β} {s u : Session} {b : β} :
    (x >>= f).Yields s b u ↔ ∃ a t, x.Yields s a t ∧ (f a).Yields t b u := by
  simp only [Yields, outcome_bind]
  rcases x.outcome s with ⟨fault | a, t⟩
  · simp
  · simp only [Prod.mk.injEq, Except.ok.injEq]
    constructor
    · intro h
      exact ⟨a, t, ⟨rfl, rfl⟩, h⟩
    · rintro ⟨_, _, ⟨rfl, rfl⟩, h⟩
      exact h

/-! ## Invariants of the session -/

/-- An access keeps something true of the session, however it ends. -/
def Preserves (I : Session → Prop) (x : Access α) : Prop := ∀ s, I s → I (x.outcome s).2

variable {I : Session → Prop}

theorem Preserves.bind {x : Access α} {f : α → Access β} (hx : Preserves I x)
    (hf : ∀ a, Preserves I (f a)) : Preserves I (x >>= f) := by
  intro s h
  have after := hx s h
  rw [outcome_bind]
  rcases hr : x.outcome s with ⟨fault | a, t⟩
  · simpa [hr] using after
  · exact hf a t (by simpa [hr] using after)

theorem Preserves.of_yields {x : Access α} (hx : Preserves I x) {s t : Session} {a : α}
    (h : x.Yields s a t) (hs : I s) : I t := by
  have after := hx s hs
  rwa [show x.outcome s = (.ok a, t) from h] at after

end Access

/-- The two operations on a registry keep something true of the session. -/
structure Registry.Preserves (I : Session → Prop) (registry : Registry) : Prop where
  list : ∀ type, Access.Preserves I (Access.list registry type)
  lookup : ∀ ref, Access.Preserves I (Access.lookup registry ref)

/-! ## Inquiries -/

variable {I : Session → Prop} {registry : Registry}

theorem Inquiry.access_preserves {α : Type} (h : registry.Preserves I) (x : Inquiry α) :
    Access.Preserves I (x.access registry) := by
  induction x with
  | done result => exact fun s hs => hs
  | ask call next ih =>
    refine Access.Preserves.bind ?_ ih
    cases call with
    | list type => exact h.list type
    | lookup ref => exact h.lookup ref

/-- **Gathering keeps true of the session what listing and looking up keep.** -/
theorem Gathering.rule_preserves (h : registry.Preserves I) (r : Resolved.Rule) :
    Access.Preserves I (rule registry r) :=
  Inquiry.access_preserves h (Inquiry.rule r)

/-! ## Answers stay -/

/-- Every answer of the first store is an answer of the second. -/
structure Store.KeptBy (before after : Store) : Prop where
  listing : ∀ {type answer}, before.listing? type = some answer → after.listing? type = some answer
  answer : ∀ {ref answer}, before.answer? ref = some answer → after.answer? ref = some answer

namespace Store

theorem KeptBy.refl (store : Store) : store.KeptBy store := ⟨id, id⟩

theorem KeptBy.trans {a b c : Store} (hab : a.KeptBy b) (hbc : b.KeptBy c) : a.KeptBy c :=
  ⟨hbc.listing ∘ hab.listing, hbc.answer ∘ hab.answer⟩

/-- What answers a name after some resources are kept: the answer it had, or the first of these
resources that has the name. -/
theorem answer?_keepAll (store : Store) (resources : List Resource) (ref : ResourceRef) :
    (store.keepAll resources).answer? ref =
      (store.answer? ref).or ((resources.find? (·.ref = ref)).map fun r => .ok (some r)) := by
  induction resources generalizing store with
  | nil => simp [keepAll]
  | cons r more ih =>
    have step : store.keepAll (r :: more) = (store.keep r.ref (.ok (some r))).keepAll more := rfl
    rw [step, ih, answer?_keep]
    by_cases same : ref = r.ref
    · subst same
      cases store.answer? r.ref <;> simp
    · simp [same, Ne.symm same]

theorem answer?_keepListing (store : Store) (type : TypeRef) (answer : Answer (List Resource))
    (ref : ResourceRef) :
    (store.keepListing type answer).answer? ref = match answer with
      | .ok resources => (store.keepAll resources).answer? ref
      | .error _ => store.answer? ref := by
  cases answer with
  | error fault => rfl
  | ok resources => simp only [keepListing, answer?_keepAll]; rfl

theorem keptBy_keep (store : Store) (ref : ResourceRef) (answer : Answer (Option Resource)) :
    store.KeptBy (store.keep ref answer) where
  listing h := by simpa [listing?] using h
  answer {other first} h := by
    rw [answer?_keep]
    split
    · next same => subst same; simp [h]
    · exact h

theorem keptBy_keepListing {store : Store} {type : TypeRef} (fresh : store.listing? type = none)
    (answer : Answer (List Resource)) : store.KeptBy (store.keepListing type answer) where
  listing {other first} h := by
    rw [listing?_keepListing]
    split
    · next same => simp [same, fresh] at h
    · exact h
  answer {ref first} h := by
    rw [answer?_keepListing]
    cases answer <;> simp [answer?_keepAll, h]

end Store

namespace Session

theorem store_list (provider : Provider) (type : TypeRef) (s : Session) :
    (list provider type s).2.store = match s.store.listing? type with
      | some _ => s.store
      | none => s.store.keepListing type (provider.list s.calls type) := by
  rw [list]
  cases s.store.listing? type <;> rfl

theorem store_lookup (provider : Provider) (ref : ResourceRef) (s : Session) :
    (lookup provider ref s).2.store = match s.store.answer? ref with
      | some _ => s.store
      | none => s.store.keep ref (provider.lookup s.calls ref) := by
  rw [lookup]
  cases s.store.answer? ref <;> rfl

theorem listing?_list (provider : Provider) (type : TypeRef) (s : Session) :
    (list provider type s).2.store.listing? type = some (list provider type s).1 := by
  rw [list]
  cases h : s.store.listing? type <;> simp [h]

/-- Looking a name up answers it with what it returns. -/
theorem answer?_lookup (provider : Provider) (ref : ResourceRef) (s : Session) :
    (lookup provider ref s).2.store.answer? ref = some (lookup provider ref s).1 := by
  rw [lookup]
  cases h : s.store.answer? ref <;> simp [h]

theorem keptBy_list (provider : Provider) (type : TypeRef) (s : Session) :
    s.store.KeptBy (list provider type s).2.store := by
  rw [store_list]
  cases h : s.store.listing? type with
  | some answer => exact .refl _
  | none => exact Store.keptBy_keepListing h _

theorem keptBy_lookup (provider : Provider) (ref : ResourceRef) (s : Session) :
    s.store.KeptBy (lookup provider ref s).2.store := by
  rw [store_lookup]
  cases s.store.answer? ref with
  | some answer => exact .refl _
  | none => exact Store.keptBy_keep _ _ _

end Session

/-- **Answers stay**: whatever is asked of a registry, the store keeps the answers it has. -/
theorem Registry.preserves_keptBy (registry : Registry) (before : Store) :
    registry.Preserves fun s => before.KeptBy s.store where
  list type s h := by
    rw [Access.outcome_list]
    cases registry.forType type with
    | ok provider => exact h.trans (Session.keptBy_list provider type s)
    | error fault => exact h
  lookup ref s h := by
    rw [Access.outcome_lookup]
    cases registry.forType ref.type with
    | ok provider => exact h.trans (Session.keptBy_lookup provider ref s)
    | error fault => exact h

/-- A name that was looked up is answered from then on. -/
theorem Access.answer?_of_yields_lookup {registry : Registry} {ref : ResourceRef} {s t : Session}
    {found : Option Resource} (h : (Access.lookup registry ref).Yields s found t) :
    t.store.answer? ref = some (.ok found) := by
  rw [Yields, outcome_lookup] at h
  cases hp : registry.forType ref.type with
  | error fault => simp [hp] at h
  | ok provider =>
    rw [hp] at h
    have answered := Session.answer?_lookup provider ref s
    rwa [show Session.lookup provider ref s = _ from h] at answered

end Compliance
