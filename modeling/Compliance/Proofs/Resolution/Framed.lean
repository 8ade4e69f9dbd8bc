import Compliance.Proofs.Related
import Compliance.Resolution

/-!
# Parts of a resolution

No part of a resolution looks at the issues before it, takes one back, or leaves a
path active that was not.  What a part comes to therefore depends on the active
paths only, and its issues come behind those before it.

## Main definitions

* `Resolving.Yields act active a new` — among active paths an act has a value and issues.
* `Resolving.Framed act` — an act has a value and issues among any active paths.
* `Resolving.Clean act active a` — it has a value, and loses settings at most.
-/

namespace Compliance

namespace Resolving

variable {α β γ : Type} {act : Resolving α} {k : α → Resolving β} {active : List Path} {a : α}
  {b : β} {new more : List Issue}

/-- Among active paths an act has a value, and adds issues to those before it. -/
def Yields (act : Resolving α) (active : List Path) (a : α) (new : List Issue) : Prop :=
  ∀ issues, act.run ⟨active, issues⟩ = (a, ⟨active, issues ++ new⟩)

/-- Whichever paths are active, an act has a value and adds issues. -/
def Framed (act : Resolving α) : Prop := ∀ active, ∃ a new, Yields act active a new

/-- Among active paths an act has a value, and no issue of its own is fatal. -/
def Clean (act : Resolving α) (active : List Path) (a : α) : Prop :=
  ∃ new, Yields act active a new ∧ ∀ issue ∈ new, issue.isFatal = false

/-! ## What acts come to -/

theorem Yields.unique {a' : α} (h : Yields act active a new) (h' : Yields act active a' more) :
    a' = a ∧ more = new := by
  have same := (h' []).symm.trans (h [])
  obtain ⟨values, states⟩ := Prod.mk.inj same
  exact ⟨values, (Resolving.State.mk.inj states).2⟩

theorem yields_pure : Yields (pure a : Resolving α) active a [] := by
  intro issues
  rw [List.append_nil]
  rfl

theorem Yields.bind (h : Yields act active a new) (h' : Yields (k a) active b more) :
    Yields (act >>= k) active b (new ++ more) := by
  intro issues
  have parts : (act >>= k).run ⟨active, issues⟩ =
      (k (act.run ⟨active, issues⟩).1).run (act.run ⟨active, issues⟩).2 := rfl
  rw [parts, h issues, ← List.append_assoc]
  exact h' (issues ++ new)

theorem yields_report (issue : Issue) : Yields (report issue) active () [issue] :=
  fun _ => rfl

theorem yields_leaveOut (issue : Issue) :
    Yields (leaveOut issue : Resolving (List β)) active [] [issue] :=
  (yields_report issue).bind yields_pure

/-- What is done while a path is active is done with that path in front. -/
theorem Yields.during {path : Path} (h : Yields act (path :: active) a new) :
    Yields (during path act) active a new := by
  intro issues
  have parts : (Resolving.during path act).run ⟨active, issues⟩ =
      ((act.run ⟨path :: active, issues⟩).1, { (act.run ⟨path :: active, issues⟩).2 with
        active := (act.run ⟨path :: active, issues⟩).2.active.tail }) := rfl
  rw [parts, h issues]
  rfl

theorem yields_get {f : List Path → Resolving β} (h : Yields (f active) active b new) :
    Yields (get >>= fun s => f s.active) active b new :=
  fun issues => h issues

/-! ## Acts in sequence -/

theorem framed_pure (a : α) : Framed (pure a : Resolving α) :=
  fun _ => ⟨a, [], yields_pure⟩

theorem framed_report (issue : Issue) : Framed (report issue) :=
  fun _ => ⟨(), [issue], yields_report issue⟩

theorem framed_leaveOut (issue : Issue) : Framed (leaveOut issue : Resolving (List β)) :=
  fun _ => ⟨[], [issue], yields_leaveOut issue⟩

theorem Framed.bind (h : Framed act) (hk : ∀ a, Framed (k a)) : Framed (act >>= k) := by
  intro active
  obtain ⟨a, new, first⟩ := h active
  obtain ⟨b, more, second⟩ := hk a active
  exact ⟨b, new ++ more, first.bind second⟩

/-- What comes last may be put into a result. -/
theorem Framed.result (h : Framed act) (f : α → β) : Framed (act >>= fun a => pure (f a)) :=
  h.bind fun a => framed_pure (f a)

theorem Framed.during {path : Path} (h : Framed act) : Framed (during path act) := by
  intro active
  obtain ⟨a, new, inside⟩ := h (path :: active)
  exact ⟨a, new, inside.during⟩

theorem framed_get {f : List Path → Resolving β} (h : ∀ active, Framed (f active)) :
    Framed (get >>= fun s => f s.active) := by
  intro active
  obtain ⟨b, new, inside⟩ := h active active
  exact ⟨b, new, yields_get inside⟩

theorem framed_gather {f : γ → Resolving (List β)} (h : ∀ c, Framed (f c)) (cs : List γ) :
    Framed (gather f cs) := by
  induction cs with
  | nil => exact framed_pure []
  | cons c more ih => exact (h c).bind fun _ => ih.result _

/-! ## Acts without fatal issues -/

namespace Clean

theorem of_pure {a' : α} (h : Clean (pure a : Resolving α) active a') : a' = a := by
  obtain ⟨_, yields, -⟩ := h
  exact (yields_pure.unique yields).1

/-- No part of something without fatal issues has one. -/
theorem of_bind (hf : Framed act) (hk : ∀ a, Framed (k a)) (h : Clean (act >>= k) active b) :
    ∃ a, Clean act active a ∧ Clean (k a) active b := by
  obtain ⟨issues, yields, harmless⟩ := h
  obtain ⟨a, new, first⟩ := hf active
  obtain ⟨b', more, second⟩ := hk a active
  obtain ⟨rfl, rfl⟩ := (first.bind second).unique yields
  exact ⟨a, ⟨new, first, fun issue hi => harmless issue (List.mem_append_left _ hi)⟩,
    ⟨more, second, fun issue hi => harmless issue (List.mem_append_right _ hi)⟩⟩

theorem of_map {f : α → β} (hf : Framed act) (h : Clean (act >>= fun a => pure (f a)) active b) :
    ∃ a, Clean act active a ∧ b = f a := by
  obtain ⟨a, first, last⟩ := h.of_bind hf fun _ => framed_pure _
  exact ⟨a, first, last.of_pure⟩

theorem of_during {path : Path} (hf : Framed act) (h : Clean (during path act) active a) :
    Clean act (path :: active) a := by
  obtain ⟨issues, yields, harmless⟩ := h
  obtain ⟨a', new, inside⟩ := hf (path :: active)
  obtain ⟨rfl, rfl⟩ := inside.during.unique yields
  exact ⟨issues, inside, harmless⟩

theorem of_get {f : List Path → Resolving β} (hf : ∀ active, Framed (f active))
    (h : Clean (get >>= fun s => f s.active) active b) : Clean (f active) active b := by
  obtain ⟨issues, yields, harmless⟩ := h
  obtain ⟨b', new, inside⟩ := hf active active
  obtain ⟨rfl, rfl⟩ := (yields_get inside).unique yields
  exact ⟨issues, inside, harmless⟩

theorem not_leaveOut {issue : Issue} {bs : List β} (fatal : issue.isFatal = true)
    (h : Clean (leaveOut issue) active bs) : False := by
  obtain ⟨issues, yields, harmless⟩ := h
  obtain ⟨-, rfl⟩ := (yields_leaveOut issue).unique yields
  have not := harmless issue (List.mem_singleton_self issue)
  rw [fatal] at not
  cases not

/-- What is gathered has the results for each member. -/
theorem of_gather {f : γ → Resolving (List β)} (hf : ∀ c, Framed (f c)) {cs : List γ}
    {bs : List β} (h : Clean (gather f cs) active bs) :
    ∀ c ∈ cs, ∃ found, Clean (f c) active found ∧ found ⊆ bs := by
  induction cs generalizing bs with
  | nil => simp
  | cons c more ih =>
    obtain ⟨first, hfirst, behind⟩ := h.of_bind (hf c) fun _ =>
      (framed_gather hf more).result _
    obtain ⟨others, hothers, rfl⟩ := behind.of_map (framed_gather hf more)
    rw [List.forall_mem_cons]
    refine ⟨⟨first, hfirst, List.subset_append_left _ _⟩, fun d hd => ?_⟩
    obtain ⟨found, hfound, sub⟩ := ih hothers d hd
    exact ⟨found, hfound, List.subset_append_of_subset_right _ sub⟩

end Clean

end Resolving

/-! ## Parts of a resolver -/

open Resolving

namespace Resolver

variable (r : Resolver)

theorem framed_ownSettings (own : Settings) (ss : List Declaration.Assignment) :
    Framed (r.ownSettings own ss) := by
  induction ss generalizing own with
  | nil => exact framed_pure own
  | cons s more ih =>
    rw [ownSettings]
    split
    · exact ih _
    · exact (framed_report _).bind fun _ => ih own

theorem framed_settings (inherited : Settings) (own : List Declaration.Assignment) :
    Framed (r.settings inherited own) :=
  (r.framed_ownSettings _ own).result _

/-- What a reference stands for among active paths. -/
def expandAmong {β : Type} (r : Resolver) (kind : DeclarationKind) (base : Path)
    (each : Path → Declaration → Resolving (List β)) (reference : Declaration.Inclusion)
    (active : List Path) : Resolving (List β) :=
  let path := Sources.locate base reference.path
  if active.contains path then leaveOut (.includeCycle reference.origin path.text)
  else
    match r.sources.read path with
    | .error fault => leaveOut (Issue.ofReadFault reference.origin path fault)
    | .ok text =>
      match Declaration.parse text path.text kind with
      | .error error => leaveOut (.fragment error)
      | .ok declarations =>
        during path (gather (each path) declarations)

theorem expand_eq {β : Type} (kind : DeclarationKind) (base : Path)
    (each : Path → Declaration → Resolving (List β)) (reference : Declaration.Inclusion) :
    r.expand kind base each reference =
      get >>= fun s => r.expandAmong kind base each reference s.active := rfl

theorem framed_expandAmong {β : Type} (kind : DeclarationKind) (base : Path)
    {each : Path → Declaration → Resolving (List β)} (h : ∀ path d, Framed (each path d))
    (reference : Declaration.Inclusion) (active : List Path) :
    Framed (r.expandAmong kind base each reference active) := by
  unfold expandAmong
  simp only
  split
  · exact framed_leaveOut _
  · split
    · exact framed_leaveOut _
    · split
      · exact framed_leaveOut _
      · exact (framed_gather (h _) _).during

theorem framed_expand {β : Type} (kind : DeclarationKind) (base : Path)
    {each : Path → Declaration → Resolving (List β)} (h : ∀ path d, Framed (each path d))
    (reference : Declaration.Inclusion) : Framed (r.expand kind base each reference) := by
  rw [expand_eq]
  exact framed_get (r.framed_expandAmong kind base h reference)

theorem framed_rule (inherited : Settings) (d : Declaration.Rule) :
    Framed (r.rule inherited d) := by
  rw [rule]
  split
  · exact framed_leaveOut _
  · exact (r.framed_settings _ _).result _

theorem framed_ruleOf (inherited : Settings) (d : Declaration) :
    Framed (r.ruleOf inherited d) := by
  simp only [ruleOf]
  split
  · exact r.framed_rule inherited _
  · exact framed_pure _

theorem framed_rules (inherited : Settings) (base : Path) (own : List Declaration.Rule)
    (references : List Declaration.Inclusion) :
    Framed (r.rules inherited base own references) := by
  refine (framed_gather (r.framed_rule inherited) _).bind fun inPlace => ?_
  refine (framed_gather (r.framed_expand _ _ fun _ => r.framed_ruleOf inherited) _).bind fun _ => ?_
  exact framed_pure _

theorem framed_group (inherited : Settings) (base : Path) (d : Declaration.Group) :
    Framed (r.group inherited base d) := by
  refine (r.framed_settings _ _).bind fun settings => ?_
  exact (r.framed_rules settings _ _ _).result _

theorem framed_groupOf (inherited : Settings) (path : Path) (d : Declaration) :
    Framed (r.groupOf inherited path d) := by
  simp only [groupOf]
  split
  · exact (r.framed_group inherited _ _).result _
  · exact framed_pure _

theorem framed_groups (inherited : Settings) (base : Path) (own : List Declaration.Group)
    (references : List Declaration.Inclusion) :
    Framed (r.groups inherited base own references) := by
  have each : ∀ d, Framed (do return [← r.group inherited base d]) := fun d =>
    (r.framed_group inherited base d).result _
  refine (framed_gather each _).bind fun inPlace => ?_
  refine (framed_gather (r.framed_expand _ _ (r.framed_groupOf inherited)) _).bind fun _ => ?_
  exact framed_pure _

mutual

theorem framed_moduleWith {within : Within}
    (h : ∀ inherited base d, Framed (within inherited base d)) (inherited : Settings)
    (base : Path) :
    ∀ d, Framed (r.moduleWith within inherited base d)
  | ⟨name, own, modules, useModules, groups, useGroups, rules, useRules, _⟩ => by
    rw [moduleWith]
    refine (r.framed_settings inherited own).bind fun settings => ?_
    refine (framed_modulesWith h settings base modules).bind fun inPlace => ?_
    refine (framed_gather (r.framed_expand _ _ (h settings)) _).bind fun referred => ?_
    refine (r.framed_groups settings base groups useGroups).bind fun groups => ?_
    exact (r.framed_rules settings base rules useRules).result _

theorem framed_modulesWith {within : Within}
    (h : ∀ inherited base d, Framed (within inherited base d)) (inherited : Settings)
    (base : Path) : ∀ ds, Framed (r.modulesWith within inherited base ds)
  | [] => by
    rw [modulesWith]
    exact framed_pure _
  | d :: more => by
    rw [modulesWith]
    refine (framed_moduleWith h inherited base d).bind fun first => ?_
    exact (framed_modulesWith h inherited base more).result _

end

theorem framed_moduleOf (active : List Path) (inherited : Settings) (path : Path)
    (d : Declaration) : Framed (r.moduleOf active inherited path d) := by
  unfold moduleOf
  split
  · split
    · have deeper := framed_moduleOf (path :: active)
      exact (r.framed_moduleWith deeper inherited _ _).result _
    · exact framed_pure _
  · exact framed_pure _
termination_by (r.unread active).length
decreasing_by exact length_unread_cons ‹_›

theorem framed_plan (inherited : Settings) (base : Path) (d : Declaration.Plan) :
    Framed (r.plan inherited base d) := by
  have within := r.framed_moduleOf []
  refine (r.framed_settings inherited d.settings).bind fun settings => ?_
  refine (r.framed_modulesWith within settings base d.modules).bind fun inPlace => ?_
  refine (framed_gather (r.framed_expand _ _ (within settings)) _).bind fun referred => ?_
  exact framed_pure _

theorem framed_declaration (inherited : Settings) (base : Path) (d : Declaration) :
    Framed (r.declaration inherited base d) := by
  have within := r.framed_moduleOf []
  cases d with
  | plan d => exact (r.framed_plan inherited base d).result _
  | module d => exact (r.framed_moduleWith within inherited base d).result _
  | group d => exact (r.framed_group inherited base d).result _
  | rule d => exact (r.framed_rule inherited d).result _

/-! ## Resolutions -/

/-- A declaration comes to the value and issues of a resolution. -/
def Comes (inherited : Settings) (base : Path) (d : Declaration) (resolution : Resolution) : Prop :=
  Yields (r.declaration inherited base d) [] resolution.value resolution.issues

/-- Between resolutions nothing is left of the earlier ones. -/
theorem run_resolveIn (inherited : Settings) (base : Path) (d : Declaration) :
    ∃ resolution, (r.resolveIn inherited base d).run State.idle = (resolution, State.idle) ∧
      r.Comes inherited base d resolution := by
  obtain ⟨value, new, yields⟩ := r.framed_declaration inherited base d []
  refine ⟨⟨value, new⟩, ?_, yields⟩
  have first : (r.declaration inherited base d).run State.idle = (value, ⟨[], new⟩) := yields []
  have parts : (r.resolveIn inherited base d).run State.idle =
      (⟨((r.declaration inherited base d).run State.idle).1,
          ((r.declaration inherited base d).run State.idle).2.issues⟩,
        { ((r.declaration inherited base d).run State.idle).2 with issues := [] }) := rfl
  rw [parts, first]
  rfl

end Resolver

end Compliance
