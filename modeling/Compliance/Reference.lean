import Compliance.Text.Blank
import Compliance.Text.Split

/-!
# References

Resource types and settings are named by texts of segments with colons between:
`provider:group:name` and `provider:key`.  Blanks around a segment do not count,
and no segment is blank, so the text of a reference identifies it.

## Main definitions

* `segments? count s` — the segments of a text, if it has that many.
* `TypeRef` — the name of a resource type.
* `SettingRef` — the name of a setting; ordered by provider, then by key.
-/

namespace Compliance

open Text

/-- The segments of a text without their outer blanks, if it has as many as asked for and none is
empty. -/
def segments? (count : Nat) (s : String) : Option (List String) :=
  let parts := (splitAt ':' s.toList).map fun run => trim (String.ofList run)
  if parts.length = count ∧ parts.all (fun part => !part.isEmpty) then some parts else none

/-! ## Resource types -/

/-- The name of a resource type. -/
structure TypeRef where
  provider : String
  group : String
  name : String
deriving DecidableEq, Repr, Inhabited

namespace TypeRef

def text (r : TypeRef) : String := r.provider ++ ":" ++ r.group ++ ":" ++ r.name

/-- The name that a text denotes. -/
def read? (s : String) : Option TypeRef :=
  match segments? 3 s with
  | some [provider, group, name] => some ⟨provider, group, name⟩
  | _ => none

/-- The message for a text that is no such name. -/
def malformedMessage (s : String) : String :=
  "'" ++ s ++ "' is not of the form provider:group:name"

end TypeRef

/-! ## Settings -/

/-- The name of a setting. -/
structure SettingRef where
  provider : String
  key : String
deriving DecidableEq, Repr, Inhabited

namespace SettingRef

def text (r : SettingRef) : String := r.provider ++ ":" ++ r.key

/-- The name that a text denotes. -/
def read? (s : String) : Option SettingRef :=
  match segments? 2 s with
  | some [provider, key] => some ⟨provider, key⟩
  | _ => none

/-- The message for a text that is no such name. -/
def malformedMessage (s : String) : String := "'" ++ s ++ "' is not of the form provider:key"

/-- The order of names: by provider, then by key, each by code points. -/
def order (a b : SettingRef) : Ordering :=
  (compare a.provider b.provider).then (compare a.key b.key)

@[simp] theorem order_eq_iff {a b : SettingRef} : a.order b = .eq ↔ a = b := by
  obtain ⟨provider, key⟩ := a
  obtain ⟨provider', key'⟩ := b
  simp [order, Ordering.then_eq_eq]

instance : Ord SettingRef := ⟨order⟩

instance : Std.TransOrd SettingRef :=
  inferInstanceAs (Std.TransCmp (compareLex (compareOn provider) (compareOn key)))

instance : Std.LawfulEqOrd SettingRef where
  compare_self := order_eq_iff.mpr rfl
  eq_of_compare := order_eq_iff.mp

end SettingRef

end Compliance
