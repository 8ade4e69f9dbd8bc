import Compliance.Registry

/-!
# Stores

What providers have answered so far.  The first answer to a question stays, a
failure like any other, and no question is put twice.  When a type is listed, its
resources also answer the questions for them alone, those already answered apart.

## Main definitions

* `Store` — answers by what was asked.
* `Session` — a store, and the calls that were made for it.
* `Session.list`, `Session.lookup` — asking by way of the store.
* `Access` — what reads by way of the store, and ends at the first fault.
-/

namespace Compliance

/-! ## Answers that stay -/

/-- Answers of providers by what was asked, at most one for each question. -/
structure Store where
  /-- The resources of the types that were listed. -/
  listings : List (TypeRef × Answer (List Resource))
  /-- The resources that were looked up or listed. -/
  resources : List (ResourceRef × Answer (Option Resource))

namespace Store

/-- No answers. -/
def empty : Store := ⟨[], []⟩

instance : Inhabited Store := ⟨empty⟩

/-- The answer for a type. -/
def listing? (store : Store) (type : TypeRef) : Option (Answer (List Resource)) :=
  store.listings.lookup type

def answer? (store : Store) (ref : ResourceRef) : Option (Answer (Option Resource)) :=
  store.resources.lookup ref

/-- The store with an answer for a name, unless it has one. -/
def keep (store : Store) (ref : ResourceRef) (answer : Answer (Option Resource)) : Store :=
  match store.answer? ref with
  | some _ => store
  | none => { store with resources := (ref, answer) :: store.resources }

/-- An answer that is kept answers its question unless there was one before, and no other. -/
@[simp] theorem answer?_keep (store : Store) (ref other : ResourceRef)
    (answer : Answer (Option Resource)) :
    (store.keep ref answer).answer? other =
      if other = ref then some ((store.answer? ref).getD answer) else store.answer? other := by
  rw [keep]
  cases found : store.answer? ref with
  | some first =>
    by_cases same : other = ref
    · simp [same, found]
    · simp [same]
  | none =>
    by_cases same : other = ref
    · simp [same, answer?]
    · have differ : (other == ref) = false := by simpa using same
      simp [same, answer?, List.lookup_cons, differ]

@[simp] theorem listings_keep (store : Store) (ref : ResourceRef)
    (answer : Answer (Option Resource)) : (store.keep ref answer).listings = store.listings := by
  rw [keep]
  split <;> rfl

/-- The store with resources, each under its name. -/
def keepAll (store : Store) (resources : List Resource) : Store :=
  resources.foldl (fun store r => store.keep r.ref (.ok (some r))) store

@[simp] theorem listings_keepAll (store : Store) (resources : List Resource) :
    (store.keepAll resources).listings = store.listings := by
  induction resources generalizing store with
  | nil => rfl
  | cons r more ih =>
    have step : store.keepAll (r :: more) = (store.keep r.ref (.ok (some r))).keepAll more := rfl
    rw [step, ih, listings_keep]

/-- The store with an answer for a type, whose resources are kept too. -/
def keepListing (store : Store) (type : TypeRef) (answer : Answer (List Resource)) : Store :=
  let listed := { store with listings := (type, answer) :: store.listings }
  match answer with
  | .ok resources => listed.keepAll resources
  | .error _ => listed

/-- A type that is listed has its answer, and no other type has another one than before. -/
@[simp] theorem listing?_keepListing (store : Store) (type other : TypeRef)
    (answer : Answer (List Resource)) :
    (store.keepListing type answer).listing? other =
      if other = type then some answer else store.listing? other := by
  have key : (store.keepListing type answer).listings = (type, answer) :: store.listings := by
    simp only [keepListing]
    cases answer <;> simp
  by_cases same : other = type
  · simp [listing?, key, same]
  · have differ : (other == type) = false := by simpa using same
    simp [listing?, key, List.lookup_cons, differ, same]

/-! ### Reading without asking -/

/-- The resource of a name, if the store has it. -/
def cached? (store : Store) (ref : ResourceRef) : Option Resource :=
  match store.answer? ref with
  | some (.ok found) => found
  | _ => none

/-- Whether a type was listed without a fault. -/
def isListed (store : Store) (type : TypeRef) : Bool :=
  match store.listing? type with
  | some (.ok _) => true
  | _ => false

/-- Whether an answer is a resource. -/
def isResource : Answer (Option Resource) → Bool
  | .ok (some _) => true
  | _ => false

/-- How many resources the store has. -/
def size (store : Store) : Nat := store.resources.countP fun entry => isResource entry.2

end Store

/-! ## Asking by way of the store -/

/-- A store, and the calls that were made for it, the oldest first. -/
structure Session where
  store : Store
  calls : List Call

namespace Session

/-- Nothing asked yet. -/
def start : Session := ⟨Store.empty, []⟩

instance : Inhabited Session := ⟨start⟩

/-- All resources of a type; the provider is called if the store has no answer. -/
def list (provider : Provider) (type : TypeRef) (s : Session) :
    Answer (List Resource) × Session :=
  match s.store.listing? type with
  | some answer => (answer, s)
  | none =>
    let answer := provider.list s.calls type
    (answer, ⟨s.store.keepListing type answer, s.calls ++ [.list type]⟩)

/-- The resource of a name; the provider is called if the store has no answer. -/
def lookup (provider : Provider) (ref : ResourceRef) (s : Session) :
    Answer (Option Resource) × Session :=
  match s.store.answer? ref with
  | some answer => (answer, s)
  | none =>
    let answer := provider.lookup s.calls ref
    (answer, ⟨s.store.keep ref answer, s.calls ++ [.lookup ref]⟩)

end Session

/-- What reads by way of the store, and ends at the first fault. -/
abbrev Access (α : Type) := ExceptT ProviderFault (StateM Session) α

namespace Access

/-- All resources of a type, from the provider that serves it. -/
def list (registry : Registry) (type : TypeRef) : Access (List Resource) := do
  let provider ← ExceptT.mk (pure (registry.forType type))
  ExceptT.mk (Session.list provider type)

/-- The resource of a name, from the provider that serves its type. -/
def lookup (registry : Registry) (ref : ResourceRef) : Access (Option Resource) := do
  let provider ← ExceptT.mk (pure (registry.forType ref.type))
  ExceptT.mk (Session.lookup provider ref)

end Access

end Compliance
