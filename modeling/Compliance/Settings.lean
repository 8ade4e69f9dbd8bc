import Compliance.Json
import Compliance.Keyed
import Compliance.Reference

/-!
# Settings in effect

The settings that hold for a declaration: at most one value for each name, in
the order of names.  A declaration adds its own settings to those around it, and
where both have a value for a name, the inner one counts.

## Main definitions

* `Scalar` — what a setting may hold: a number, a string or a boolean.
* `Catalogue` — which settings are declared.
* `Settings` — values by name, which are kept in order.
* `Settings.insert`, `Settings.get?` — one value.
* `Settings.inherit outer inner` — the settings of an inner declaration in an outer one.
-/

namespace Compliance

open Text

/-! ## Values of settings -/

/-- What a setting may hold. -/
inductive Scalar where
  | number (value : Number)
  | string (value : String)
  | boolean (value : Bool)
deriving DecidableEq, Inhabited

namespace Scalar

/-- The value as one that a setting may hold, if it is of such a kind. -/
def ofValue? : Value → Option Scalar
  | .number n => some (.number n)
  | .string s => some (.string s)
  | .boolean b => some (.boolean b)
  | .date _ => none
  | .null => none

def kind : Scalar → ValueKind
  | .number _ => .number
  | .string _ => .string
  | .boolean _ => .boolean

/-- The value as a text; a string stands for itself. -/
def text : Scalar → String
  | .number n => n.text
  | .string s => s
  | .boolean b => if b then "true" else "false"

/-- The value as a document. -/
def toJson : Scalar → Json
  | .number n => Json.ofNumber n
  | .string s => .string s
  | .boolean b => .boolean b

end Scalar

/-- The settings that are declared, with their kinds. -/
abbrev Catalogue := SettingRef → Option ValueKind

/-! ## Sets of settings -/

/-- The value of one setting. -/
structure Setting where
  ref : SettingRef
  value : Scalar
deriving DecidableEq, Inhabited

/-- One setting as a document. -/
def Setting.toJson (s : Setting) : Json :=
  .object [("ref", .string s.ref.text), ("value", s.value.toJson)]

/-- Settings by name, in the order of names: no name has two. -/
structure Settings where
  entries : List Setting
  ordered : Keyed.Ordered Setting.ref entries
deriving DecidableEq

namespace Settings

/-- No settings. -/
def empty : Settings := ⟨[], .nil⟩

instance : Inhabited Settings := ⟨empty⟩

/-- The settings with one more, which replaces an earlier one of its name. -/
def insert (settings : Settings) (setting : Setting) : Settings :=
  ⟨Keyed.place Setting.ref setting settings.entries, settings.ordered.place setting⟩

/-- The value of a setting. -/
def get? (settings : Settings) (ref : SettingRef) : Option Scalar :=
  (settings.entries.find? (·.ref = ref)).map (·.value)

@[simp] theorem get?_empty (ref : SettingRef) : empty.get? ref = none := rfl

/-- A setting that is put in changes the value of its name, and of no other. -/
@[simp] theorem get?_insert (settings : Settings) (setting : Setting) (ref : SettingRef) :
    (settings.insert setting).get? ref =
      if setting.ref = ref then some setting.value else settings.get? ref := by
  rw [get?, insert, Keyed.find?_place]
  split <;> rfl

/-- The settings of an inner declaration: its own, and those of the outer one that it does not
set itself. -/
def inherit (outer inner : Settings) : Settings := inner.entries.foldl insert outer

/-- The settings as a document, by the texts of their names. -/
def toJson (settings : Settings) : Json :=
  .object (settings.entries.map fun s => (s.ref.text, s.value.toJson))

end Settings

end Compliance
