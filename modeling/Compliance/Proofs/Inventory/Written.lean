import Compliance.Inventory
import Compliance.Proofs.Named
import Compliance.Proofs.Related
import Mathlib.Data.Option.Basic

/-!
# Inventories as they are written

What stands at a place of a document, read off the document as it was written: the
fields of records, the objects that nested properties are made of, scalars, and the
targets that associations list.  Of members with one name the last counts.

Before properties are loaded they are settled, which puts members into order and
drops those that do not count.  What stands at a place is the same afterwards.

## Main definitions

* `JsonTree.field?` — a field of a record.
* `JsonTree.scalar?`, `JsonTree.objects?` — what a property is: a scalar, or objects.
* `JsonTree.at?` — the object at a place inside others.
* `JsonTree.Names`, `JsonTree.Lists` — a document names a resource, or lists targets.
* `JsonTree.Settles t u` — `u` is what is left of `t` when it is settled.
* `JsonTree.settles_cases` — what can be left.
-/

namespace Compliance.JsonTree

open Named

/-! ## Places -/

/-- The members of an object as they are written. -/
abbrev Members := List (Option String × JsonTree)

/-- The members of an object. -/
def members? : JsonTree → Option Members
  | .object members => some members
  | _ => none

/-- The items of an array. -/
def items? : JsonTree → Option (List JsonTree)
  | .array items => some items
  | _ => none

/-- A field of a record, by its name in an object and by its place in an array. -/
def field? (place : Nat) (name : String) : JsonTree → Option JsonTree
  | .object members => last? (some name) members
  | .array items => items[place]?
  | _ => none

/-- The value that is written as null, a boolean, a number or a string. -/
def plain? : JsonTree → Option Value
  | .null => some .null
  | .boolean b => some (.boolean b)
  | .number n => n.map .number
  | .string s => s.map .string
  | .array _ | .object _ => none

/-- Whether an object has `$date` for its only name, and so stands for a date. -/
def isDate (members : Members) : Bool := !members.isEmpty && members.all (·.1 = some "$date")

/-- The scalar that a property is, if it is one. -/
def scalar? : JsonTree → Option Value
  | .object members =>
    if isDate members then do
      let written ← last? (some "$date") members
      return .date (← Moment.read? (← written.string?))
    else none
  | t => t.plain?

/-- The objects that a nested property is made of, if it is one: a single one, or those of an
array. -/
def objects? : JsonTree → Option (List Members)
  | .object members => if isDate members then none else some [members]
  | .array items => items.mapM members?
  | _ => none

/-- The property of a name; the associations of an object are none of its properties. -/
def property? (members : Members) (name : String) : Option JsonTree :=
  if name = "$associations" then none else last? (some name) members

/-- The object at a place: each step names a nested property and counts its objects. -/
def at? (members : Members) : List (String × Nat) → Option Members
  | [] => some members
  | (name, i) :: path =>
    (((property? members name).bind objects?).bind (·[i]?)).bind fun object => at? object path

theorem members?_eq_some {t : JsonTree} {members : Members} (h : t.members? = some members) :
    t = .object members := by
  cases t with
  | object => exact congrArg _ (Option.some.inj h)
  | _ => cases h

theorem items?_eq_some {t : JsonTree} {items : List JsonTree} (h : t.items? = some items) :
    t = .array items := by
  cases t with
  | array => exact congrArg _ (Option.some.inj h)
  | _ => cases h

theorem objects?_of_scalar? {t : JsonTree} {v : Value} (h : t.scalar? = some v) :
    t.objects? = none := by
  cases t with
  | array => cases h
  | object members =>
    rw [scalar?] at h
    rw [objects?]
    split at h
    · next date => rw [if_pos date]
    · cases h
  | _ => rfl

/-! ## Associations -/

/-- A document names a resource, as a record of its type and its identifier. -/
def Names (t : JsonTree) (r : ResourceRef) : Prop :=
  ∃ type, t.field? 0 "type" = some (.string (some type)) ∧ TypeRef.read? type = some r.type ∧
    t.field? 1 "id" = some (.string (some r.id))

/-- A document lists the targets of an association, in order. -/
def Lists (t : JsonTree) (targets : List ResourceRef) : Prop :=
  ∃ items, t = .array items ∧ List.Forall₂ Names items targets

/-! ## Records -/

theorem lookup_knownMembers? {fields : List String} {members : Members}
    {known : List (String × JsonTree)} (h : knownMembers? fields members = some known)
    {name : String} (field : name ∈ fields) :
    known.lookup name = last? (some name) members := by
  induction members generalizing known with
  | nil =>
    cases h
    rfl
  | cons member more ih =>
    obtain ⟨key, t⟩ := member
    rw [knownMembers?, Option.bind_eq_bind, Option.bind_eq_some_iff] at h
    obtain ⟨key, rfl, h⟩ := h
    rw [Option.bind_eq_bind, Option.bind_eq_some_iff] at h
    obtain ⟨others, rest, h⟩ := h
    rw [last?_cons, ← ih rest]
    by_cases unknown : (!fields.contains key) = true
    · rw [if_pos unknown] at h
      cases h
      have differ : some name ≠ some key := by
        rintro same
        cases same
        simp [field] at unknown
      rw [if_neg differ, Option.or_none]
    · rw [if_neg unknown] at h
      cases first : others.lookup key with
      | some other =>
        rw [first] at h
        cases h
      | none =>
        rw [first] at h
        cases h
        rw [List.lookup_cons]
        by_cases same : name = key
        · simp [same, first]
        · simp [same, beq_false_of_ne same]

theorem lookup_zip {fields : List String} {items : List JsonTree} (nodup : fields.Nodup)
    {place : Nat} {name : String} (field : fields[place]? = some name) :
    (fields.zip items).lookup name = items[place]? := by
  induction fields generalizing items place with
  | nil => cases field
  | cons first more ih =>
    cases items with
    | nil => simp
    | cons item items =>
      obtain ⟨new, nodup⟩ := List.nodup_cons.mp nodup
      rw [List.zip_cons_cons, List.lookup_cons]
      cases place with
      | zero =>
        cases field
        simp
      | succ place =>
        have differ : (name == first) = false := by
          rw [beq_eq_false_iff_ne]
          rintro rfl
          exact new (List.mem_of_getElem? field)
        rw [differ]
        exact ih nodup field

/-- **The fields of a record**, however it is written. -/
theorem lookup_record? {fields : List String} {t : JsonTree} {record : List (String × JsonTree)}
    (h : t.record? fields = some record) (nodup : fields.Nodup) {place : Nat} {name : String}
    (field : fields[place]? = some name) : record.lookup name = t.field? place name := by
  cases t with
  | object members => exact lookup_knownMembers? h (List.mem_of_getElem? field)
  | array items =>
    rw [record?] at h
    split at h
    · cases h
      exact lookup_zip nodup field
    · cases h
  | _ => cases h

theorem string?_eq_some {t : JsonTree} {s : String} (h : t.string? = some s) :
    t = .string (some s) := by
  cases t with
  | string content => exact congrArg _ h
  | _ => cases h

/-! ## Settled documents -/

/-- The second document is what is left of the first when it is settled. -/
def Settles (t u : JsonTree) : Prop := ∃ levels, settled? levels t = some u

/-- The members of a settled object: all have names. -/
def written (named : Named JsonTree) : Members := named.map fun member => (some member.1, member.2)

theorem last?_written {named : Named JsonTree} (h : named.Ordered) (name : String) :
    last? (some name) (written named) = named.get? name := by
  have same : List.Forall₂ (fun a b => a.1 = some b.1 ∧ a.2 = b.2) (written named) named :=
    List.forall₂_map_left_iff.mpr (List.forall₂_same.mpr fun _ _ => ⟨rfl, rfl⟩)
  have found := last?_rel (fun _ _ => Option.some.inj) same name
  rw [← h.last?_eq name]
  generalize last? (some name) (written named) = x, last? name named = y at found
  cases found with
  | some same => rw [same]
  | none => rfl

/-- What is left of an object: under each name the same, in order, and a date as before. -/
structure LeftOf (members : Members) (named : Named JsonTree) : Prop where
  ordered : named.Ordered
  settles : ∀ name, Option.Rel Settles (last? (some name) members) (named.get? name)
  date : isDate members = true ↔ ∃ t, named = [("$date", t)]

theorem forall₂_of_settledItems? {levels : Nat} {items us : List JsonTree}
    (h : settledItems? levels items = some us) : List.Forall₂ Settles items us := by
  induction items generalizing us with
  | nil =>
    cases h
    exact .nil
  | cons item more ih =>
    simp only [settledItems?, Option.bind_eq_bind, Option.bind_eq_some_iff, Option.pure_def,
      Option.some.injEq] at h
    obtain ⟨u, first, others, rest, rfl⟩ := h
    exact .cons ⟨levels, first⟩ (ih rest)

/-- A member keeps its name, and what it holds is settled. -/
def MemberSettles (member : Option String × JsonTree) (pair : String × JsonTree) : Prop :=
  member.1 = some pair.1 ∧ Settles member.2 pair.2

theorem forall₂_of_settledMembers? {levels : Nat} {members : Members}
    {pairs : List (String × JsonTree)} (h : settledMembers? levels members = some pairs) :
    List.Forall₂ MemberSettles members pairs := by
  induction members generalizing pairs with
  | nil =>
    cases h
    exact .nil
  | cons member more ih =>
    obtain ⟨key, t⟩ := member
    simp only [settledMembers?, Option.bind_eq_bind, Option.bind_eq_some_iff, Option.pure_def,
      Option.some.injEq] at h
    obtain ⟨name, rfl, u, first, others, rest, rfl⟩ := h
    exact .cons ⟨rfl, levels, first⟩ (ih rest)

variable {members : Members} {pairs : List (String × JsonTree)} {t u : JsonTree}

theorem isDate_iff (h : List.Forall₂ MemberSettles members pairs) :
    isDate members = true ↔ pairs ≠ [] ∧ ∀ pair ∈ pairs, pair.1 = "$date" := by
  have names : (∀ member ∈ members, member.1 = some "$date") ↔
      ∀ pair ∈ pairs, pair.1 = "$date" := by
    induction h with
    | nil => simp
    | cons first _ ih =>
      rw [List.forall_mem_cons, List.forall_mem_cons, ih, first.1, Option.some.injEq]
  have empty : members = [] ↔ pairs = [] := by
    rw [← List.length_eq_zero_iff, h.length_eq, List.length_eq_zero_iff]
  rw [isDate, Bool.and_eq_true, List.all_eq_true]
  simpa [empty] using fun _ => names

/-- **What can be left of a document**: all of a plain scalar, what is left of the items of an
array, and what is left of the members of an object. -/
theorem settles_cases (h : Settles t u) :
    (∃ v, t.plain? = some v ∧ u = t) ∨
    (∃ items us, t = .array items ∧ u = .array us ∧ List.Forall₂ Settles items us) ∨
    ∃ members named, t = .object members ∧ u = .object (written named) ∧ LeftOf members named := by
  obtain ⟨levels, h⟩ := h
  cases t with
  | null | boolean =>
    rw [settled?, Option.some.injEq] at h
    exact .inl ⟨_, rfl, h.symm⟩
  | number | string =>
    rw [settled?] at h
    obtain ⟨content, rfl, rfl⟩ := Option.map_eq_some_iff.mp h
    exact .inl ⟨_, rfl, rfl⟩
  | array items =>
    cases levels with
    | zero => cases h
    | succ levels =>
      rw [settled?] at h
      obtain ⟨us, settled, rfl⟩ := Option.map_eq_some_iff.mp h
      exact .inr (.inl ⟨items, us, rfl, rfl, forall₂_of_settledItems? settled⟩)
  | object members =>
    cases levels with
    | zero => cases h
    | succ levels =>
      rw [settled?] at h
      obtain ⟨pairs, read, rfl⟩ := Option.map_eq_some_iff.mp h
      have settled := forall₂_of_settledMembers? read
      refine .inr (.inr ⟨members, ofList pairs, rfl, rfl, ordered_ofList pairs, fun name => ?_, ?_⟩)
      · rw [get?_ofList]
        exact last?_rel (fun _ _ => Option.some.inj) settled name
      · rw [exists_ofList_eq_singleton_iff]
        exact isDate_iff settled

theorem leftOf_of_settles (h : Settles (.object members) u) :
    ∃ named, u = .object (written named) ∧ LeftOf members named := by
  rcases settles_cases h with ⟨_, plain, _⟩ | ⟨_, _, other, _⟩ | ⟨_, named, same, made, left⟩
  · cases plain
  · cases other
  · cases same
    exact ⟨named, made, left⟩

theorem field?_of_plain? {v : Value} (h : t.plain? = some v) (place : Nat) (name : String) :
    t.field? place name = none := by
  cases t with
  | array | object => cases h
  | _ => rfl

/-- A field of what is left of a record is what is left of the field. -/
theorem field?_settles (h : Settles t u) (place : Nat) (name : String) :
    Option.Rel Settles (t.field? place name) (u.field? place name) := by
  rcases settles_cases h with ⟨v, plain, rfl⟩ | ⟨items, us, rfl, rfl, settles⟩ |
    ⟨members, named, rfl, rfl, left⟩
  · rw [field?_of_plain? plain]
    exact .none
  · exact getElem?_forall₂ settles place
  · rw [field?, field?, last?_written left.ordered]
    exact left.settles name

theorem eq_string_of_settles {s : String} (h : Settles t (.string (some s))) :
    t = .string (some s) := by
  rcases settles_cases h with ⟨_, _, same⟩ | ⟨_, _, _, other, _⟩ | ⟨_, _, _, other, _⟩
  · exact same.symm
  · cases other
  · cases other

theorem field?_of_settles (h : Settles t u) {place : Nat} {name s : String}
    (found : u.field? place name = some (.string (some s))) :
    t.field? place name = some (.string (some s)) := by
  have same := field?_settles h place name
  rw [found] at same
  generalize t.field? place name = field at same
  cases same with
  | some settles => exact congrArg _ (eq_string_of_settles settles)

/-- **Settling keeps the targets that are listed.** -/
theorem lists_of_settles (h : Settles t u) {targets : List ResourceRef} (lists : Lists u targets) :
    Lists t targets := by
  obtain ⟨us, rfl, all⟩ := lists
  rcases settles_cases h with ⟨v, _, rfl⟩ | ⟨items, _, rfl, same, settles⟩ | ⟨_, _, _, other, _⟩
  · exact ⟨us, rfl, all⟩
  · cases same
    refine ⟨items, rfl, forall₂_comp settles all ?_⟩
    rintro item u r first ⟨type, named, read, id⟩
    exact ⟨type, field?_of_settles first named, read, field?_of_settles first id⟩
  · cases other

end Compliance.JsonTree
