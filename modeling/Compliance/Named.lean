import Compliance.Keyed

/-!
# Named things in order

Lists of things by name, at most one for each name, in the order of names.

## Main definitions

* `Named.insert name a things` — the things with one more, which replaces that of its name.
* `Named.get? name things` — the thing of a name.
* `Named.Ordered things` — things are in the order of their names.
* `Named.ofList pairs` — pairs put into order.
-/

namespace Compliance

/-- Things by name. -/
abbrev Named (α : Type) := List (String × α)

namespace Named

variable {α : Type}

/-- Puts a thing at the place of its name, instead of one that had the name. -/
def insert (name : String) (a : α) (things : Named α) : Named α :=
  Keyed.place Prod.fst (name, a) things

/-- The thing of a name. -/
def get? (name : String) (things : Named α) : Option α :=
  (things.find? (·.1 = name)).map (·.2)

theorem get?_cons (other name : String) (a : α) (things : Named α) :
    get? other ((name, a) :: things) = if other = name then some a else get? other things := by
  rw [get?, List.find?_cons]
  by_cases same : other = name
  · simp [same]
  · simp [get?, same, Ne.symm same]

/-- One more thing changes what one name stands for, and nothing else. -/
@[simp] theorem get?_insert (name other : String) (a : α) (things : Named α) :
    get? other (insert name a things) = if other = name then some a else get? other things := by
  rw [get?, insert, Keyed.find?_place]
  by_cases same : other = name
  · simp [same]
  · simp [get?, same, Ne.symm same]

/-- Things are in the order of their names, so no name occurs twice. -/
abbrev Ordered (things : Named α) : Prop := Keyed.Ordered Prod.fst things

theorem Ordered.insert {things : Named α} (h : things.Ordered) (name : String) (a : α) :
    (insert name a things).Ordered :=
  Keyed.Ordered.place h (name, a)

/-- Puts pairs into order; of several with one name the last counts. -/
def ofList (pairs : List (String × α)) : Named α :=
  pairs.foldl (fun things pair => insert pair.1 pair.2 things) []

def names (things : Named α) : List String := things.map (·.1)

end Named

end Compliance
