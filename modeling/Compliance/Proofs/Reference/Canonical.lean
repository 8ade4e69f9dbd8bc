import Compliance.Proofs.Text.Trimmed
import Compliance.Reference

/-!
# References and their texts

What a reference is made of are segments without colons and without outer blanks,
and none of them is empty.  Such segments are found again in the text that joins
them, so that a reference and its text identify the same thing, although many texts
denote one reference.

## Main definitions

* `Segmented count s` — the segments of a text are so many, and none is blank.
* `IsSegment part` — a segment as references have them.
* `CanonicalText count read? text` — texts are read by their segments, and references are
  told apart by their texts.
* `TypeRef.canonical`, `SettingRef.canonical` — both kinds of references are.
-/

namespace Compliance

open Text

/-! ## Segments -/

/-- A text is made of so many runs with colons between, each with a character that is not blank. -/
def Segmented (count : Nat) (s : String) : Prop :=
  ∃ runs : List (List Char), runs.length = count ∧ s.toList = [':'].intercalate runs ∧
    ∀ run ∈ runs, ':' ∉ run ∧ ∃ c ∈ run, isBlank c = false

/-- A segment as it is part of a reference: not empty, and without colons and outer blanks. -/
structure IsSegment (part : String) : Prop where
  ne_empty : part ≠ ""
  trimmed : trim part = part
  noColon : ':' ∉ part.toList

variable {count : Nat} {s : String} {parts : List String}

/-- The segments of a text are its runs between colons without their outer blanks. -/
theorem segments?_eq_some : segments? count s = some parts ↔
    parts = (splitAt ':' s.toList).map (fun run => trim (String.ofList run)) ∧
      parts.length = count ∧ ∀ part ∈ parts, part ≠ "" := by
  have nonempty (l : List String) :
      l.all (fun part => !part.isEmpty) = true ↔ ∀ part ∈ l, part ≠ "" := by
    simp [List.all_eq_true]
  simp only [segments?]
  split
  · next found =>
    rw [nonempty] at found
    constructor
    · intro h
      cases h
      exact ⟨rfl, found⟩
    · rintro ⟨rfl, -⟩
      rfl
  · next missing =>
    rw [nonempty] at missing
    constructor
    · intro h
      cases h
    · rintro ⟨rfl, found⟩
      exact absurd found missing

/-- **A text has the segments that are asked for exactly if it has so many and none is blank.** -/
theorem isSome_segments? (positive : 0 < count) :
    (segments? count s).isSome = true ↔ Segmented count s := by
  rw [Option.isSome_iff_exists]
  constructor
  · rintro ⟨parts, h⟩
    obtain ⟨rfl, many, visible⟩ := segments?_eq_some.mp h
    refine ⟨splitAt ':' s.toList, by rw [← many, List.length_map],
      (intercalate_splitAt ':' s.toList).symm, fun run hr => ⟨not_mem_of_mem_splitAt hr, ?_⟩⟩
    have left := trim_ne_empty.mp (visible _ (List.mem_map_of_mem hr))
    rwa [String.toList_ofList] at left
  · rintro ⟨runs, rfl, whole, visible⟩
    have found : splitAt ':' s.toList = runs := by
      rw [whole]
      exact splitAt_intercalate (List.ne_nil_of_length_pos positive) fun run hr =>
        (visible run hr).1
    refine ⟨_, segments?_eq_some.mpr ⟨rfl, by rw [found, List.length_map], ?_⟩⟩
    rw [found, List.forall_mem_map]
    intro run hr
    exact trim_ne_empty.mpr (by rw [String.toList_ofList]; exact (visible run hr).2)

theorem isSegment_of_segments? (h : segments? count s = some parts) :
    ∀ part ∈ parts, IsSegment part := by
  obtain ⟨rfl, -, visible⟩ := segments?_eq_some.mp h
  intro part hp
  obtain ⟨run, hr, rfl⟩ := List.mem_map.mp hp
  refine ⟨visible _ hp, trim_trim _, fun colon => not_mem_of_mem_splitAt hr ?_⟩
  have within := mem_of_mem_trim colon
  rwa [String.toList_ofList] at within

/-- **Segments are read back from the text that joins them.** -/
theorem segments?_join (nonempty : parts ≠ []) (h : ∀ part ∈ parts, IsSegment part) :
    segments? parts.length (":".intercalate parts) = some parts := by
  have runs : splitAt ':' (":".intercalate parts).toList = parts.map String.toList := by
    rw [String.toList_intercalate]
    refine splitAt_intercalate (by simpa using nonempty) ?_
    rw [List.forall_mem_map]
    exact fun part hp => (h part hp).noColon
  have same : ∀ part ∈ parts, trim (String.ofList part.toList) = part := by
    intro part hp
    rw [String.ofList_toList, (h part hp).trimmed]
  refine segments?_eq_some.mpr ⟨?_, rfl, fun part hp => (h part hp).ne_empty⟩
  rw [runs, List.map_map]
  exact ((List.map_congr_left same).trans (List.map_id' parts)).symm

/-! ## References -/

/-- Texts with the right number of visible segments denote references, and a reference that is
read and its text identify the same thing. -/
structure CanonicalText {ρ : Type} (count : Nat) (read? : String → Option ρ) (text : ρ → String) :
    Prop where
  read_iff : ∀ s, (read? s).isSome = true ↔ Segmented count s
  read_text : ∀ s r, read? s = some r → read? (text r) = some r
  text_inj : ∀ s s' r r', read? s = some r → read? s' = some r' → (r = r' ↔ text r = text r')

/-- References that are their segments are canonical. -/
theorem canonicalText_of_segments {ρ : Type} {read? : String → Option ρ} {text : ρ → String}
    {parts : ρ → List String} (positive : 0 < count) (length : ∀ r, (parts r).length = count)
    (made : ∀ l : List String, l.length = count → ∃ r, parts r = l)
    (joined : ∀ r, text r = ":".intercalate (parts r))
    (of_read : ∀ s r, read? s = some r ↔ segments? count s = some (parts r)) :
    CanonicalText count read? text := by
  have back : ∀ s r, read? s = some r → read? (text r) = some r := by
    intro s r h
    have nonempty : parts r ≠ [] := List.ne_nil_of_length_pos (length r ▸ positive)
    have whole := segments?_join nonempty (isSegment_of_segments? ((of_read s r).mp h))
    rw [of_read, joined, ← length r]
    exact whole
  refine ⟨fun s => ?_, back, ?_⟩
  · rw [← isSome_segments? positive, Option.isSome_iff_exists, Option.isSome_iff_exists]
    constructor
    · rintro ⟨r, h⟩
      exact ⟨parts r, (of_read s r).mp h⟩
    · rintro ⟨l, found⟩
      obtain ⟨r, rfl⟩ := made l (segments?_eq_some.mp found).2.1
      exact ⟨r, (of_read s r).mpr found⟩
  intro s s' r r' h h'
  constructor
  · rintro rfl
    rfl
  · intro same
    have found := back s r h
    rw [same, back s' r' h'] at found
    exact (Option.some.inj found).symm

namespace TypeRef

/-- The segments of a name. -/
def segments (r : TypeRef) : List String := [r.provider, r.group, r.name]

theorem text_eq (r : TypeRef) : r.text = ":".intercalate r.segments := by
  simp [text, segments, String.intercalate_cons_cons, String.append_assoc]

theorem read?_eq_some {s : String} {r : TypeRef} :
    read? s = some r ↔ segments? 3 s = some r.segments := by
  unfold read?
  split
  · next provider group name found =>
    obtain ⟨provider', group', name'⟩ := r
    rw [found]
    simp [segments]
  · next other =>
    constructor
    · intro h
      cases h
    · exact fun found => absurd found (other _ _ _)

/-- **Names of resource types are told apart by their texts.** -/
theorem canonical : CanonicalText 3 read? text := by
  refine canonicalText_of_segments (by decide) (fun _ => rfl) ?_ text_eq fun _ _ => read?_eq_some
  intro l three
  obtain ⟨provider, group, name, rfl⟩ := List.length_eq_three.mp three
  exact ⟨⟨provider, group, name⟩, rfl⟩

/-- Only outer blanks do not count. -/
example : read? " aws: ec2 \t:load balancer" = some ⟨"aws", "ec2", "load balancer"⟩ := by
  decide +kernel

end TypeRef

namespace SettingRef

/-- The segments of a name. -/
def segments (r : SettingRef) : List String := [r.provider, r.key]

theorem text_eq (r : SettingRef) : r.text = ":".intercalate r.segments := by
  simp [text, segments, String.intercalate_cons_cons, String.append_assoc]

theorem read?_eq_some {s : String} {r : SettingRef} :
    read? s = some r ↔ segments? 2 s = some r.segments := by
  unfold read?
  split
  · next provider key found =>
    obtain ⟨provider', key'⟩ := r
    rw [found]
    simp [segments]
  · next other =>
    constructor
    · intro h
      cases h
    · exact fun found => absurd found (other _ _)

/-- **Names of settings are told apart by their texts.** -/
theorem canonical : CanonicalText 2 read? text := by
  refine canonicalText_of_segments (by decide) (fun _ => rfl) ?_ text_eq fun _ _ => read?_eq_some
  intro l two
  obtain ⟨provider, key, rfl⟩ := List.length_eq_two.mp two
  exact ⟨⟨provider, key⟩, rfl⟩

end SettingRef

end Compliance
