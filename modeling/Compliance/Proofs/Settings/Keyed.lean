import Compliance.Proofs.Settings.Innermost
import Mathlib.Data.String.Basic

/-!
# Settings under keys of their own

Settings may be kept in a table that carries each name twice, as the key and in the
setting that stands there.  A table that is handed down brings its keys with it, whatever
the settings under them are called.  Yet however a table comes about from single settings
and from other tables, each key is the name of its setting, and what is read off the
settings is what the keys say.

Settings that are handed down one way or another come to the same: what counts for a name
is the innermost setting, and settings are known by what counts.

## Main definitions

* `Settings.Table` — settings under keys.
* `Settings.Making` — how settings come about, with `Making.settings` and `Making.table`.
* `Settings.ext` — settings are known by the values of their names.
* `Settings.table_eq` — each key is the name of its setting.
* `Settings.keyed_and_shadowing` — all this for settings that come about in any way.
-/

namespace Compliance

/-- The order of names is by provider, and for one provider by key. -/
theorem SettingRef.order_eq_lt_iff {a b : SettingRef} : a.order b = .lt ↔
    a.provider < b.provider ∨ a.provider = b.provider ∧ a.key < b.key := by
  rw [order, Ordering.then_eq_lt, compare_lt_iff_lt, compare_lt_iff_lt, compare_eq_iff_eq]

namespace Settings

variable {a b : Settings}

/-! ## Known by their values -/

/-- A name has the value of the one setting that has it. -/
theorem mem_entries_iff {s : Setting} : s ∈ a.entries ↔ a.get? s.ref = some s.value := by
  rw [a.ordered.mem_iff, get?, Option.map_eq_some_iff]
  constructor
  · exact fun found => ⟨s, found, rfl⟩
  · rintro ⟨⟨ref, value⟩, found, rfl⟩
    obtain rfl : ref = s.ref := by simpa using List.find?_some found
    exact found

/-- **Settings are known by the values of their names.** -/
theorem ext (same : ∀ ref, a.get? ref = b.get? ref) : a = b := by
  have entries : a.entries = b.entries :=
    a.ordered.ext b.ordered fun s => by rw [mem_entries_iff, mem_entries_iff, same]
  cases a
  cases b
  cases entries
  rfl

/-! ## Handing down -/

theorem inherit_empty (outer : Settings) : outer.inherit empty = outer := rfl

theorem empty_inherit (inner : Settings) : empty.inherit inner = inner :=
  ext fun ref => by rw [get?_inherit, get?_empty, Option.or_none]

/-- **It makes no difference which of three levels are put together first.** -/
theorem inherit_assoc (a b c : Settings) :
    (a.inherit b).inherit c = a.inherit (b.inherit c) :=
  ext fun ref => by rw [get?_inherit, get?_inherit, get?_inherit, get?_inherit, Option.or_assoc]

theorem insert_eq_inherit (outer : Settings) (s : Setting) :
    outer.insert s = outer.inherit (empty.insert s) := rfl

/-! ## Keys beside the settings -/

/-- Settings under keys. -/
abbrev Table := List (SettingRef × Setting)

namespace Table

/-- Puts a setting under a key, instead of one that stands there. -/
def put (key : SettingRef) (s : Setting) (table : Table) : Table :=
  Keyed.place Prod.fst (key, s) table

/-- The table with one more setting, under its name. -/
def insert (table : Table) (s : Setting) : Table := put s.ref s table

/-- The table of an outer declaration with all that stands in that of an inner one, under the keys
that it has there. -/
def inherit (outer inner : Table) : Table :=
  inner.foldl (fun table entry => put entry.1 entry.2 table) outer

/-- The value under a key. -/
def get? (table : Table) (key : SettingRef) : Option Scalar :=
  (table.find? (·.1 = key)).map (·.2.value)

end Table

/-- The table of settings, each under its name. -/
def keyed (settings : Settings) : Table := settings.entries.map fun s => (s.ref, s)

theorem insert_keyed (settings : Settings) (s : Setting) :
    settings.keyed.insert s = (settings.insert s).keyed :=
  Keyed.place_map Prod.fst (fun s : Setting => (s.ref, s)) s settings.entries

theorem inherit_keyed (outer inner : Settings) :
    outer.keyed.inherit inner.keyed = (outer.inherit inner).keyed := by
  obtain ⟨entries, ordered⟩ := inner
  change (entries.map fun s => (s.ref, s)).foldl _ outer.keyed = (entries.foldl insert outer).keyed
  clear ordered
  induction entries generalizing outer with
  | nil => rfl
  | cons s more ih =>
    rw [List.map_cons, List.foldl_cons, List.foldl_cons, ← ih, ← insert_keyed]
    rfl

theorem get?_keyed (settings : Settings) (ref : SettingRef) :
    settings.keyed.get? ref = settings.get? ref := by
  rw [Table.get?, keyed, List.find?_map, Option.map_map]
  rfl

/-! ## How settings come about -/

/-- How settings come about: by single settings, and by handing down what has come about itself. -/
inductive Making where
  | none
  | insert (before : Making) (s : Setting)
  | inherit (outer inner : Making)

/-- The settings that come about. -/
def Making.settings : Making → Settings
  | none => empty
  | insert before s => before.settings.insert s
  | inherit outer inner => outer.settings.inherit inner.settings

/-- The table that comes about. -/
def Making.table : Making → Table
  | none => []
  | insert before s => before.table.insert s
  | inherit outer inner => outer.table.inherit inner.table

/-- **Each key is the name of its setting**, however the table comes about. -/
theorem table_eq (m : Making) : m.table = m.settings.keyed := by
  induction m with
  | none => rfl
  | insert before s ih => rw [Making.table, ih, insert_keyed, Making.settings]
  | inherit outer inner ih ih' => rw [Making.table, ih, ih', inherit_keyed, Making.settings]

/-- **Settings are under keys of their own, and the innermost counts.**  However settings come about
from none by single settings and by handing down, as outer or as inner ones: in the table each is
under its own name, and read off in order it is the settings; no key stands there twice, and names
increase by provider and then by key.  A name has the value of the inner settings where these have
one, and else of the outer ones.  Of three levels either two may be put together first, no settings
make no difference on either side, and a single setting is put in as one that is handed down. -/
theorem keyed_and_shadowing (a b c : Making) (s : Setting) :
    (∀ entry ∈ a.table, entry.1 = entry.2.ref) ∧
    a.table.map (·.2) = a.settings.entries ∧
    (a.table.map (·.1)).Nodup ∧
    a.settings.entries.Pairwise (fun x y => x.ref.provider < y.ref.provider ∨
      x.ref.provider = y.ref.provider ∧ x.ref.key < y.ref.key) ∧
    (∀ ref, a.table.get? ref = a.settings.get? ref) ∧
    (∀ ref, (a.settings.inherit b.settings).get? ref =
      (b.settings.get? ref).or (a.settings.get? ref)) ∧
    (a.settings.inherit b.settings).inherit c.settings =
      a.settings.inherit (b.settings.inherit c.settings) ∧
    empty.inherit a.settings = a.settings ∧
    a.settings.inherit empty = a.settings ∧
    a.settings.insert s = a.settings.inherit (empty.insert s) := by
  refine ⟨?_, ?_, ?_, ?_, fun ref => ?_, get?_inherit _ _, inherit_assoc _ _ _, empty_inherit _,
    inherit_empty _, insert_eq_inherit _ s⟩
  · rw [table_eq]
    simp [keyed]
  · rw [table_eq, keyed, List.map_map]
    exact List.map_id _
  · rw [table_eq, keyed, List.map_map, List.nodup_iff_pairwise_ne, List.pairwise_map]
    exact a.settings.ordered.imp Keyed.ne_of_compare
  · exact a.settings.ordered.imp SettingRef.order_eq_lt_iff.mp
  · rw [table_eq, get?_keyed]

end Settings

end Compliance
