import Compliance.Proofs.Inventory.Written

/-!
# What is loaded of an inventory

Every resource of an inventory is loaded, in order, and at each place of it stands
what was written there: scalars as their values, an object or an array of objects as
elements that can be followed further, and the associations of each element with the
targets that were listed for it, in order.  Nothing else is there.

The outermost object of properties is the exception.  The associations of the
resource are those that its own field lists; what the outermost object of properties
lists as its associations is read, and then dropped.

## Main definitions

* `Attributes.at?` — the attributes at a place inside others.
* `JsonTree.Shows`, `JsonTree.ListsAll` — a property, or associations, as they were written.
* `Inventory.Loads t r` — the resource is what the record stands for.
* `Inventory.LoadedAs`, `Inventory.PropertyLoadedAs` — what objects and properties are loaded as.
* `Inventory.read_loads` — the resources of an inventory are what its records stand for.
-/

namespace Compliance

open Named

/-! ## What should be there -/

/-- The attributes at a place: each step names a nested property and counts its elements. -/
def Attributes.at? (a : Attributes) : List (String × Nat) → Option Attributes
  | [] => some a
  | (name, i) :: path => ((a.elements name)[i]?).bind fun element => Attributes.at? element path

namespace JsonTree

/-- A property is what was written: the same scalar, or as many elements as there are objects. -/
def Shows (t : JsonTree) : Property → Prop
  | .value v => t.scalar? = some v
  | .nested elements => ∃ objects, t.objects? = some objects ∧ objects.length = elements.length

/-- The object that is written, and an empty one where nothing is. -/
def Gives : Option JsonTree → Members → Prop
  | none, members => members = []
  | some t, members => t = .object members

/-- Attributes have just the associations that are listed by name, with their targets in order. -/
def ListsAll (t : Option JsonTree) (a : Attributes) : Prop :=
  ∃ entries, Gives t entries ∧
    ∀ name, Option.Rel Lists (last? (some name) entries) (a.targets? name)

/-- Attributes have just the properties that an object has. -/
def ShowsAll (members : Members) (a : Attributes) : Prop :=
  ∀ name, Option.Rel Shows (property? members name) (a.property? name)

end JsonTree

namespace Inventory

open JsonTree

/-- A resource is what its record stands for. -/
structure Loads (t : JsonTree) (r : Resource) : Prop where
  names : Names t r.ref
  /-- The resource has the associations that its record lists. -/
  associations : ListsAll (t.field? 3 "associations") r.attributes
  /-- At the same places there are objects in its properties and elements of it, and the elements
  have the properties of the objects, and, below the outermost object, their associations. -/
  places : ∃ properties, Gives (t.field? 2 "properties") properties ∧ ∀ path,
    Option.Rel (fun members a => ShowsAll members a ∧
        (path ≠ [] → ListsAll (last? (some "$associations") members) a))
      (JsonTree.at? properties path) (r.attributes.at? path)

/-! ## Associations -/

/-- A target is a record of its type and its identifier. -/
theorem target?_eq_some {t : JsonTree} {type id : String} (h : target? t = some (type, id)) :
    t.field? 0 "type" = some (.string (some type)) ∧
      t.field? 1 "id" = some (.string (some id)) := by
  simp only [target?, Option.bind_eq_bind, Option.bind_eq_some_iff, Option.pure_def,
    Option.some.injEq, Prod.mk.injEq] at h
  obtain ⟨record, fields, t₁, first, _, content₁, t₂, second, _, content₂, rfl, rfl⟩ := h
  have nodup : ["type", "id"].Nodup := by decide
  rw [← lookup_record? fields nodup rfl, ← lookup_record? fields nodup rfl, first, second,
    string?_eq_some content₁, string?_eq_some content₂]
  exact ⟨rfl, rfl⟩

theorem typeRef_eq_ok {s : String} {r : TypeRef} (h : typeRef s = .ok r) :
    TypeRef.read? s = some r := by
  unfold typeRef at h
  split at h
  · next read => exact read.trans (congrArg some (Except.ok.inj h))
  · cases h

/-- The targets of an association are those that its document lists. -/
theorem lists_of_resolved {t : JsonTree} {read : List (String × String)}
    {targets : List ResourceRef} (h : targets? t = some read)
    (resolved : resolveTargets read = .ok targets) : Lists t targets := by
  unfold targets? at h
  split at h
  · next items =>
    refine ⟨items, rfl, ?_⟩
    refine forall₂_comp (forall₂_of_mapM_some h) (forall₂_of_mapM_ok resolved) ?_
    rintro item ⟨type, id⟩ target named made
    obtain ⟨r, known, made⟩ := Except.bind_eq_ok.mp made
    cases made
    obtain ⟨type', id'⟩ := target?_eq_some named
    exact ⟨type, type', typeRef_eq_ok known, id'⟩
  · cases h

/-- **Associations are those that an object lists by name.** -/
theorem exists_lists {t : JsonTree} {read : Named (List (String × String))}
    {associations : Named (List ResourceRef)} (h : associations? t = some read)
    (resolved : resolveAssociations read = .ok associations) :
    ∃ entries, t = .object entries ∧
      ∀ name, Option.Rel Lists (last? (some name) entries) (associations.get? name) := by
  unfold associations? at h
  split at h
  · next members =>
    simp only [Option.bind_eq_bind, Option.bind_eq_some_iff, Option.pure_def,
      Option.some.injEq] at h
    obtain ⟨pairs, made, rfl⟩ := h
    refine ⟨members, rfl, fun name => ?_⟩
    have listed : List.Forall₂ (fun (member : Option String × JsonTree)
        (pair : String × List (String × String)) =>
          member.1 = some pair.1 ∧ targets? member.2 = some pair.2) members pairs := by
      refine (forall₂_of_mapM_some made).imp ?_
      rintro ⟨key, t⟩ pair h
      simp only [Option.bind_eq_some_iff, Option.some.injEq] at h
      obtain ⟨key, rfl, targets, read, rfl⟩ := h
      exact ⟨rfl, read⟩
    have found : List.Forall₂ (fun (pair : String × List (String × String))
        (association : String × List ResourceRef) =>
          pair.1 = association.1 ∧ resolveTargets pair.2 = .ok association.2)
        (ofList pairs) associations := by
      refine (forall₂_of_mapM_ok resolved).imp ?_
      rintro ⟨key, targets⟩ association h
      obtain ⟨refs, made, h⟩ := Except.bind_eq_ok.mp h
      cases h
      exact ⟨rfl, made⟩
    have first := last?_rel (R := fun t read => targets? t = some read)
      (fun _ _ => Option.some.inj) listed name
    have second := get?_rel (R := fun read targets => resolveTargets read = .ok targets) found name
    rw [get?_ofList] at second
    exact rel_comp first second fun _ _ _ => lists_of_resolved
  · cases h

/-! ## Objects and their elements -/

/-- **What one member adds to the attributes**: its associations in place of others, or a property
in front. -/
theorem attributes_cons_cases {name : String} {t : JsonTree} {more : Members} {a : Attributes}
    (h : attributes ((some name, t) :: more) = .ok a) :
    ∃ others, attributes more = .ok others ∧
      ((name = "$associations" ∧ ∃ read named, associations? t = some read ∧
          resolveAssociations read = .ok named ∧ a = { others with associations := named }) ∨
        (name ≠ "$associations" ∧ ∃ p, property t = .ok p ∧
          a = { others with properties := (name, p) :: others.properties })) := by
  rw [attributes] at h
  simp only [Option.getD_some] at h
  split at h
  · next special =>
    split at h
    case h_2 => cases h
    next read found =>
    obtain ⟨named, made, h⟩ := Except.bind_eq_ok.mp h
    obtain ⟨others, rest, h⟩ := Except.bind_eq_ok.mp h
    cases h
    exact ⟨others, rest, .inl ⟨special, read, named, found, made, rfl⟩⟩
  · next plain =>
    split at h
    case h_2 => cases h
    next p found =>
    obtain ⟨_, same, h⟩ := Except.bind_eq_ok.mp h
    cases same
    obtain ⟨others, rest, h⟩ := Except.bind_eq_ok.mp h
    cases h
    exact ⟨others, rest, .inr ⟨plain, p, found, rfl⟩⟩

/-- **What the members of an object are loaded as**, each by itself: the associations as such, and
all else as properties. -/
theorem attributes_written {named : Named JsonTree} {a : Attributes}
    (h : attributes (written named) = .ok a) :
    (∀ name, Option.Rel (fun t p => property t = .ok p)
      (if name = "$associations" then none else named.get? name) (a.property? name)) ∧
    match named.get? "$associations" with
    | none => a.associations = []
    | some t => ∃ read, associations? t = some read ∧
      resolveAssociations read = .ok a.associations := by
  induction named generalizing a with
  | nil =>
    cases h
    refine ⟨fun name => ?_, rfl⟩
    split <;> exact .none
  | cons member more ih =>
    obtain ⟨key, t⟩ := member
    obtain ⟨others, rest, ⟨rfl, read, named, found, made, rfl⟩ | ⟨plain, p, found, rfl⟩⟩ :=
      attributes_cons_cases h
    · -- the properties are those behind, of which none has this name either
      refine ⟨fun name => ?_, ?_⟩
      · have behind := (ih rest).1 name
        rw [get?_cons]
        split
        · next special => rwa [if_pos special] at behind
        · next plain => rwa [if_neg plain] at behind
      · rw [get?_cons, if_pos rfl]
        exact ⟨read, found, made⟩
    · obtain ⟨properties, associations⟩ := ih rest
      refine ⟨fun name => ?_, ?_⟩
      · rw [get?_cons, Attributes.property?, get?_cons]
        by_cases same : name = key
        · subst same
          rw [if_neg plain, if_pos rfl, if_pos rfl]
          exact .some found
        · rw [if_neg same, if_neg same]
          exact properties name
      · rw [get?_cons, if_neg (Ne.symm plain)]
        exact associations

/-- Members, once settled, are loaded as the attributes. -/
def LoadedAs (members : Members) (a : Attributes) : Prop :=
  ∃ named, LeftOf members named ∧ attributes (written named) = .ok a

/-- A document is loaded as the property: a scalar as its value, objects as elements in order. -/
inductive PropertyLoadedAs (t : JsonTree) : Property → Prop
  | value {v : Value} (scalar : t.scalar? = some v) : PropertyLoadedAs t (.value v)
  | nested {objects : List Members} {elements : List Attributes}
    (nested : t.objects? = some objects) (loaded : List.Forall₂ LoadedAs objects elements) :
    PropertyLoadedAs t (.nested elements)

variable {t u : JsonTree} {members : Members} {a : Attributes}

/-- The items of an array are objects, and are loaded one by one. -/
theorem exists_objects {items us : List JsonTree} {as : List Attributes}
    (h : List.Forall₂ Settles items us) (loaded : elements us = .ok as) :
    ∃ objects, items.mapM members? = some objects ∧ List.Forall₂ LoadedAs objects as := by
  induction h generalizing as with
  | nil =>
    cases loaded
    exact ⟨[], rfl, .nil⟩
  | @cons item u items us settles _ ih =>
    unfold elements at loaded
    split at loaded
    · next absent => cases absent
    · next members' more same =>
      cases same
      obtain ⟨first, made, loaded⟩ := Except.bind_eq_ok.mp loaded
      obtain ⟨others, rest, loaded⟩ := Except.bind_eq_ok.mp loaded
      cases loaded
      obtain ⟨objects, found, related⟩ := ih rest
      rcases settles_cases settles with ⟨_, plain, rfl⟩ | ⟨_, _, _, other, _⟩ |
        ⟨members, named, rfl, same, left⟩
      · cases plain
      · cases other
      · cases same
        refine ⟨members :: objects, ?_, .cons ⟨named, left, made⟩ related⟩
        rw [List.mapM_cons, found]
        rfl
    · cases loaded

theorem property_of_plain? {v : Value} (h : t.plain? = some v) :
    t.scalar? = some v ∧ property t = .ok (.value v) := by
  cases t with
  | array | object => cases h
  | null | boolean =>
    cases h
    exact ⟨rfl, rfl⟩
  | number | string =>
    obtain ⟨content, rfl, rfl⟩ := Option.map_eq_some_iff.mp h
    exact ⟨rfl, rfl⟩

theorem date_eq_ok {m : Moment} (h : date t = .ok m) :
    ∃ s, t = .string (some s) ∧ Moment.read? s = some m := by
  unfold date at h
  split at h
  · next s =>
    split at h
    · next read => exact ⟨s, rfl, read.trans (congrArg _ (Except.ok.inj h))⟩
    · cases h
  · cases h

/-- An object is loaded as a date if it stands for one, and as an element otherwise. -/
theorem property_of_leftOf {named : Named JsonTree} (left : LeftOf members named) {p : Property}
    (loaded : property (.object (written named)) = .ok p) :
    PropertyLoadedAs (.object members) p := by
  by_cases date' : isDate members = true
  · obtain ⟨t, rfl⟩ := left.date.mp date'
    rw [written, List.map_singleton, property] at loaded
    obtain ⟨m, made, loaded⟩ := Except.bind_eq_ok.mp loaded
    cases loaded
    obtain ⟨s, rfl, read⟩ := date_eq_ok made
    have settles := left.settles "$date"
    rw [get?_cons, if_pos rfl] at settles
    cases found : last? (some "$date") members with
    | none =>
      rw [found] at settles
      cases settles
    | some w =>
      rw [found] at settles
      cases settles with
      | some settles =>
        obtain rfl := eq_string_of_settles settles
        exact .value (by simp [scalar?, date', found, string?, read])
  · unfold property at loaded
    split at loaded
    case h_6 t same =>
      obtain ⟨⟨key, u⟩, rfl, single⟩ := List.map_eq_singleton_iff.mp (object.inj same)
      cases single
      exact absurd (left.date.mpr ⟨_, rfl⟩) date'
    case h_7 same =>
      cases same
      obtain ⟨a, made, loaded⟩ := Except.bind_eq_ok.mp loaded
      cases loaded
      exact .nested (if_neg date') (.cons ⟨named, left, made⟩ .nil)
    all_goals contradiction

/-- **What a property is loaded as**: a scalar as its value, and objects as elements. -/
theorem property_loads {p : Property} (h : Settles t u) (loaded : property u = .ok p) :
    PropertyLoadedAs t p := by
  rcases settles_cases h with ⟨v, plain, rfl⟩ | ⟨items, us, rfl, rfl, settles⟩ |
    ⟨members, named, rfl, rfl, left⟩
  · obtain ⟨scalar, value⟩ := property_of_plain? plain
    cases loaded.symm.trans value
    exact .value scalar
  · rw [property] at loaded
    obtain ⟨as, made, loaded⟩ := Except.bind_eq_ok.mp loaded
    cases loaded
    obtain ⟨objects, found, related⟩ := exists_objects settles made
    exact .nested found related
  · exact property_of_leftOf left loaded

/-! ## Places -/

/-- The properties of loaded attributes are those of their object. -/
theorem LoadedAs.property? (h : LoadedAs members a) (name : String) :
    Option.Rel PropertyLoadedAs (JsonTree.property? members name) (a.property? name) := by
  obtain ⟨named, left, loaded⟩ := h
  have found := (attributes_written loaded).1 name
  rw [JsonTree.property?]
  split
  · next special =>
    rw [if_pos special] at found
    generalize a.property? name = p at found
    cases found
    exact .none
  · next plain =>
    rw [if_neg plain] at found
    exact rel_comp (left.settles name) found fun _ _ _ => property_loads

theorem LoadedAs.showsAll (h : LoadedAs members a) : ShowsAll members a := by
  intro name
  have found := h.property? name
  generalize JsonTree.property? members name = x, a.property? name = y at found
  cases found with
  | none => exact .none
  | some found =>
    cases found with
    | value scalar => exact .some scalar
    | nested nested related => exact .some ⟨_, nested, related.length_eq⟩

/-- The associations of loaded attributes are those that their object lists. -/
theorem LoadedAs.listsAll (h : LoadedAs members a) :
    ListsAll (last? (some "$associations") members) a := by
  obtain ⟨named, left, loaded⟩ := h
  have found := (attributes_written loaded).2
  have settles := left.settles "$associations"
  generalize last? (some "$associations") members = x, named.get? "$associations" = y
    at found settles
  cases settles with
  | none =>
    refine ⟨[], rfl, fun name => ?_⟩
    rw [Attributes.targets?, found]
    exact .none
  | @some t u settles =>
    obtain ⟨read, listed, resolved⟩ := found
    obtain ⟨us, rfl, lists⟩ := exists_lists listed resolved
    -- the associations were settled with all else, and what they list is still to be traced back
    rcases settles_cases settles with ⟨_, plain, rfl⟩ | ⟨_, _, _, other, _⟩ |
      ⟨entries, again, rfl, same, left⟩
    · cases plain
    · cases other
    · cases same
      refine ⟨entries, rfl, fun name => ?_⟩
      have found := lists name
      rw [last?_written left.ordered] at found
      exact rel_comp (left.settles name) found fun _ _ _ first => lists_of_settles first

/-- **At the same places there are objects and what they are loaded as**, or neither. -/
theorem LoadedAs.at? (h : LoadedAs members a) (path : List (String × Nat)) :
    Option.Rel LoadedAs (JsonTree.at? members path) (a.at? path) := by
  induction path generalizing members a with
  | nil => exact .some h
  | cons step path ih =>
    obtain ⟨name, i⟩ := step
    rw [JsonTree.at?, Attributes.at?, Attributes.elements]
    have found := h.property? name
    generalize JsonTree.property? members name = x, a.property? name = y at found
    cases found with
    | none => exact .none
    | some found =>
      cases found with
      | value scalar =>
        -- no place is below a scalar, written or loaded
        rw [Option.bind_some, objects?_of_scalar? scalar]
        exact .none
      | @nested objects elements nested related =>
        rw [Option.bind_some, nested, Option.bind_some]
        have inside := getElem?_forall₂ related i
        generalize objects[i]? = x, elements[i]? = y at inside
        cases inside with
        | none => exact .none
        | some inside => exact ih inside

/-! ## Inventories -/

theorem loadedAs_nil : LoadedAs [] Attributes.empty :=
  ⟨[], ⟨.nil, fun _ => .none, by simp [isDate]⟩, rfl⟩

/-- An entry is read from the fields of its record, of which two may be missing. -/
theorem entry?_eq_some {e : Entry} (h : entry? t = some e) :
    t.field? 0 "type" = some (.string (some e.type)) ∧
    t.field? 1 "id" = some (.string (some e.id)) ∧
    (match t.field? 2 "properties" with
      | none => e.properties = .object []
      | some written => properties? written = some e.properties) ∧
    match t.field? 3 "associations" with
      | none => e.associations = []
      | some written => associations? written = some e.associations := by
  unfold entry? at h
  simp only [Option.bind_eq_bind, Option.bind_eq_some_iff] at h
  obtain ⟨record, fields, t₁, type, _, content₁, t₂, id, _, content₂, h⟩ := h
  have nodup : ["type", "id", "properties", "associations"].Nodup := by decide
  rw [← lookup_record? fields nodup rfl, ← lookup_record? fields nodup rfl,
    ← lookup_record? fields nodup rfl, ← lookup_record? fields nodup rfl, type, id,
    string?_eq_some content₁, string?_eq_some content₂]
  -- the fields that may be missing are looked up one after the other
  split at h
  · next properties found =>
    obtain ⟨_, read, h⟩ := Option.bind_eq_some_iff.mp h
    rw [found]
    split at h
    · next associations listed =>
      obtain ⟨_, read', h⟩ := Option.bind_eq_some_iff.mp h
      cases h
      rw [listed]
      exact ⟨rfl, rfl, read, read'⟩
    · next listed =>
      cases h
      rw [listed]
      exact ⟨rfl, rfl, read, rfl⟩
  · next found =>
    rw [Option.bind_some] at h
    rw [found]
    split at h
    · next associations listed =>
      obtain ⟨_, read', h⟩ := Option.bind_eq_some_iff.mp h
      cases h
      rw [listed]
      exact ⟨rfl, rfl, rfl, read'⟩
    · next listed =>
      cases h
      rw [listed]
      exact ⟨rfl, rfl, rfl, rfl⟩

/-- The properties of an entry are loaded as attributes, and the entry's associations take the
place of those that were loaded with them. -/
theorem resource_eq_ok {e : Entry} {r : Resource} {us : Members}
    (object : e.properties = .object us) (h : resource e = .ok r) :
    typeRef e.type = .ok r.type ∧ r.id = e.id ∧
      resolveAssociations e.associations = .ok r.attributes.associations ∧
      ∃ own, attributes us = .ok own ∧ r.attributes.properties = own.properties := by
  unfold resource at h
  obtain ⟨type, known, h⟩ := Except.bind_eq_ok.mp h
  rw [object] at h
  obtain ⟨own, made, h⟩ := Except.bind_eq_ok.mp h
  obtain ⟨associations, resolved, h⟩ := Except.bind_eq_ok.mp h
  cases h
  exact ⟨known, rfl, resolved, own, made, rfl⟩

/-- What the properties of an entry are read from is an object, and they are what is left of it. -/
theorem exists_properties {e : Entry} (h : match t.field? 2 "properties" with
      | none => e.properties = .object []
      | some written => properties? written = some e.properties) :
    ∃ members us, Gives (t.field? 2 "properties") members ∧ e.properties = .object us ∧
      ∀ own, attributes us = .ok own → LoadedAs members own := by
  split at h
  · next missing =>
    refine ⟨[], [], by rw [missing]; rfl, h, fun own loaded => ?_⟩
    cases loaded
    exact loadedAs_nil
  · next written found =>
    unfold properties? at h
    split at h
    · next members =>
      obtain ⟨named, made, left⟩ := leftOf_of_settles ⟨_, h⟩
      exact ⟨members, _, by rw [found]; rfl, made, fun own loaded => ⟨named, left, loaded⟩⟩
    · cases h

/-- Below themselves, attributes have what their properties have. -/
theorem at?_of_properties {a b : Attributes} (h : a.properties = b.properties)
    {path : List (String × Nat)} (below : path ≠ []) : a.at? path = b.at? path := by
  cases path with
  | nil => exact absurd rfl below
  | cons step path =>
    simp only [Attributes.at?, Attributes.elements, Attributes.property?, h]

/-- **A resource is what its record stands for.** -/
theorem resource_loads {e : Entry} {r : Resource} (read : entry? t = some e)
    (loaded : resource e = .ok r) : Loads t r := by
  obtain ⟨type, id, properties, associations⟩ := entry?_eq_some read
  obtain ⟨members, us, written, object, left⟩ := exists_properties properties
  obtain ⟨known, same, resolved, own, made, own'⟩ := resource_eq_ok object loaded
  have loadedAs := left own made
  have properties (name : String) : r.attributes.property? name = own.property? name := by
    rw [Attributes.property?, own', ← Attributes.property?]
  refine ⟨⟨_, type, typeRef_eq_ok known, ?_⟩, ?_, members, written, fun path => ?_⟩
  · rw [id, ← same]
    rfl
  · split at associations
    · next missing =>
      rw [missing]
      rw [associations] at resolved
      refine ⟨[], rfl, fun name => ?_⟩
      rw [Attributes.targets?, ← Except.ok.inj resolved]
      exact .none
    · next listed found =>
      obtain ⟨entries, rfl, lists⟩ := exists_lists associations resolved
      rw [found]
      exact ⟨entries, rfl, lists⟩
  · by_cases top : path = []
    · subst top
      refine .some ⟨fun name => ?_, fun below => absurd rfl below⟩
      rw [properties]
      exact loadedAs.showsAll name
    · rw [at?_of_properties own' top]
      have there := loadedAs.at? path
      generalize JsonTree.at? members path = x, own.at? path = y at there
      cases there with
      | none => exact .none
      | some there => exact .some ⟨there.showsAll, fun _ => there.listsAll⟩

theorem forall₂_of_resources {es : List Entry} {rs : List Resource} (h : resources es = .ok rs) :
    List.Forall₂ (fun e r => resource e = .ok r) es rs := by
  induction es generalizing rs with
  | nil =>
    cases h
    exact .nil
  | cons e more ih =>
    rw [resources] at h
    split at h
    case h_2 => cases h
    next r found =>
    obtain ⟨_, same, h⟩ := Except.bind_eq_ok.mp h
    cases same
    obtain ⟨others, rest, h⟩ := Except.bind_eq_ok.mp h
    cases h
    exact .cons found (ih rest)

theorem entries?_eq_some {es : List Entry} (h : entries? t = some es) :
    ∃ records, t.field? 0 "resources" = some (.array records) ∧
      List.Forall₂ (fun t e => entry? t = some e) records es := by
  simp only [entries?, Option.bind_eq_bind, Option.bind_eq_some_iff] at h
  obtain ⟨record, fields, listed, found, h⟩ := h
  split at h
  · next records =>
    refine ⟨records, ?_, forall₂_of_mapM_some h⟩
    rw [← lookup_record? fields (by decide) rfl, found]
  · cases h

/-- A text is an inventory of one resource that passes a test. -/
private theorem exists_resource {text : String} {test : Resource → Prop} [DecidablePred test]
    (h : (read text).toOption.any (fun rs => rs.length == 1 && rs.all (test ·)) = true) :
    ∃ r, read text = .ok [r] ∧ test r := by
  cases made : read text with
  | error fault =>
    rw [made] at h
    cases h
  | ok rs =>
    rw [made] at h
    obtain ⟨single, passed⟩ := Bool.and_eq_true_iff.mp h
    obtain ⟨r, rfl⟩ := List.length_eq_one_iff.mp (beq_iff_eq.mp single)
    exact ⟨r, rfl, of_decide_eq_true (List.all_eq_true.mp passed r (List.mem_singleton_self r))⟩

/-- **Loading an inventory loses nothing but what the outermost object of properties lists as its
associations.**  For each record there is a resource, in order.  It has the associations that the
record lists, and no others.  Wherever an object stands in its properties, there is an element of
the resource at the same place, and it has the properties of the object and the associations that
the object lists, and no others; and elements are nowhere else. -/
theorem read_loads {s : String} {rs : List Resource} (h : read s = .ok rs) :
    ∃ document records, JsonTree.read? s = some document ∧
      document.field? 0 "resources" = some (.array records) ∧ List.Forall₂ Loads records rs := by
  rw [read] at h
  cases found : (JsonTree.read? s).bind entries? with
  | none =>
    rw [found] at h
    cases h
  | some es =>
    rw [found] at h
    obtain ⟨document, written, entries⟩ := Option.bind_eq_some_iff.mp found
    obtain ⟨records, listed, read⟩ := entries?_eq_some entries
    refine ⟨document, records, written, listed, ?_⟩
    exact forall₂_comp read (forall₂_of_resources h) fun _ _ _ => resource_loads

/-- An instance with a key of its own has two disks, the second with another key. -/
theorem read_loads_disks :
    let text := "\x7b\"resources\": [\x7b\"type\": \"aws:ec2:instance\", \"id\": \"i\", " ++
      "\"properties\": \x7b\"disks\": [\x7b\"size\": 8\x7d, \x7b\"$associations\": " ++
      "\x7b\"key\": [\x7b\"type\": \"aws:kms:key\", \"id\": \"b\"\x7d]\x7d\x7d]\x7d, " ++
      "\"associations\": \x7b\"key\": [[\"aws:kms:key\", \"a\"]]\x7d\x7d]\x7d"
    ∃ document record r, read text = .ok [r] ∧ JsonTree.read? text = some document ∧
      document.field? 0 "resources" = some (.array [record]) ∧ Loads record r ∧
      r.attributes.targets? "key" = some [⟨⟨"aws", "kms", "key"⟩, "a"⟩] ∧
      (r.attributes.at? [("disks", 1)]).bind (·.targets? "key") =
        some [⟨⟨"aws", "kms", "key"⟩, "b"⟩] := by
  intro text
  obtain ⟨r, made, own, inside⟩ : ∃ r, read text = .ok [r] ∧
      r.attributes.targets? "key" = some [⟨⟨"aws", "kms", "key"⟩, "a"⟩] ∧
      (r.attributes.at? [("disks", 1)]).bind (·.targets? "key") =
        some [⟨⟨"aws", "kms", "key"⟩, "b"⟩] := exists_resource (by decide +kernel)
  obtain ⟨document, records, written, listed, loads⟩ := read_loads made
  obtain ⟨record, more, loaded, nothing, rfl⟩ := List.forall₂_cons_right_iff.mp loads
  cases nothing
  exact ⟨document, record, r, made, written, listed, loaded, own, inside⟩

/-- The key that the outermost object of properties lists is read, and dropped. -/
theorem outermost_associations_dropped :
    let text := "\x7b\"resources\": [\x7b\"type\": \"aws:ec2:instance\", \"id\": \"i\", " ++
      "\"properties\": \x7b\"$associations\": \x7b\"key\": [\x7b\"type\": \"aws:kms:key\", " ++
      "\"id\": \"k\"\x7d]\x7d\x7d\x7d]\x7d"
    ∃ document records record properties entries listed r,
      JsonTree.read? text = some document ∧
      document.field? 0 "resources" = some (.array records) ∧ records[0]? = some record ∧
      record.field? 2 "properties" = some (.object properties) ∧
      last? (some "$associations") properties = some (.object entries) ∧
      last? (some "key") entries = some listed ∧
      Lists listed [⟨⟨"aws", "kms", "key"⟩, "k"⟩] ∧
      read text = .ok [r] ∧ r.attributes.targets? "key" = none := by
  intro text
  have written : (do
      let records ← (← (← JsonTree.read? text).field? 0 "resources").items?
      let properties ← (← (← records[0]?).field? 2 "properties").members?
      let entries ← (← last? (some "$associations") properties).members?
      targets? (← last? (some "key") entries)) = some [("aws:kms:key", "k")] := by decide +kernel
  simp only [Option.bind_eq_bind, Option.bind_eq_some_iff] at written
  obtain ⟨document, found, _, resources, records, array, record, first, _, properties, members,
    object, _, associations, entries, object', listed, key, targets⟩ := written
  obtain rfl := items?_eq_some array
  obtain rfl := members?_eq_some object
  obtain rfl := members?_eq_some object'
  obtain ⟨r, made, dropped⟩ : ∃ r, read text = .ok [r] ∧ r.attributes.targets? "key" = none :=
    exists_resource (by decide +kernel)
  exact ⟨document, records, record, members, entries, listed, r, found, resources, first,
    properties, associations, key, lists_of_resolved targets rfl, made, dropped⟩

end Inventory

end Compliance
