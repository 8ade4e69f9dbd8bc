import Compliance.Proofs.Resolution.Framed
import Compliance.Declaration.References

/-!
# Acts that look at no path

Which paths are active matters where a reference is followed, and nowhere else.  What
refers to nothing is resolved the same whichever paths are active, in whatever place
it stands.

## Main definitions

* `Resolving.Blind act` — an act does the same whichever paths are active.
* `Resolving.Agree x y` — two acts do the same while no path is active.
* `Resolver.blind_moduleWith` — modules without references are resolved blindly.
* `Resolver.moduleWith_anywhere` — and the same wherever they stand.
-/

namespace Compliance

open Resolving

namespace Resolving

variable {α β γ : Type}

/-! ## Gathering in parts -/

theorem gather_append (f : α → Resolving (List β)) (as bs : List α) :
    gather f (as ++ bs) = do return (← gather f as) ++ (← gather f bs) := by
  induction as with
  | nil => simp [gather]
  | cons a more ih =>
    simp only [List.cons_append, gather, ih, bind_assoc, pure_bind, List.append_assoc]

/-- What is gathered from lists is gathered from each of them in turn. -/
theorem gather_flatMap (f : β → Resolving (List γ)) (g : α → List β) (as : List α) :
    gather f (as.flatMap g) = gather (fun a => gather f (g a)) as := by
  induction as with
  | nil => rfl
  | cons a more ih => simp only [List.flatMap_cons, gather_append, gather, ih]

theorem gather_congr {f g : α → Resolving (List β)} {as : List α} (h : ∀ a ∈ as, f a = g a) :
    gather f as = gather g as := by
  induction as with
  | nil => rfl
  | cons a more ih =>
    obtain ⟨first, others⟩ := List.forall_mem_cons.mp h
    simp only [gather, first, ih others]

theorem gather_map (f : β → Resolving (List γ)) (g : α → β) (as : List α) :
    gather f (as.map g) = gather (fun a => f (g a)) as := by
  induction as with
  | nil => rfl
  | cons a more ih => simp only [List.map_cons, gather, ih]

theorem gather_filterMap {f : α → Resolving (List γ)} {pick : α → Option β}
    {g : β → Resolving (List γ)} {as : List α}
    (h : ∀ a ∈ as, f a = match pick a with | some b => g b | none => pure []) :
    gather f as = gather g (as.filterMap pick) := by
  induction as with
  | nil => rfl
  | cons a more ih =>
    obtain ⟨first, others⟩ := List.forall_mem_cons.mp h
    rw [gather, first, ih others, List.filterMap_cons]
    cases pick a <;> simp [gather]

/-! ## Whichever paths are active -/

/-- An act has one value and adds the same issues whichever paths are active. -/
def Blind (act : Resolving α) : Prop := ∃ a new, ∀ active, Yields act active a new

namespace Blind

variable {act : Resolving α} {k : α → Resolving β}

theorem pure (a : α) : Blind (pure a) := ⟨a, [], fun _ => yields_pure⟩

theorem report (issue : Issue) : Blind (report issue) :=
  ⟨(), [issue], fun _ => yields_report issue⟩

theorem bind (h : Blind act) (hk : ∀ a, Blind (k a)) : Blind (act >>= k) := by
  obtain ⟨a, new, first⟩ := h
  obtain ⟨b, more, second⟩ := hk a
  exact ⟨b, new ++ more, fun active => (first active).bind (second active)⟩

theorem result (h : Blind act) (f : α → β) : Blind (act >>= fun a => Pure.pure (f a)) :=
  h.bind fun a => pure (f a)

theorem leaveOut (issue : Issue) : Blind (leaveOut issue : Resolving (List β)) :=
  (report issue).bind fun _ => pure []

theorem gather {f : γ → Resolving (List β)} {cs : List γ} (h : ∀ c ∈ cs, Blind (f c)) :
    Blind (gather f cs) := by
  induction cs with
  | nil => exact pure []
  | cons c more ih =>
    obtain ⟨first, others⟩ := List.forall_mem_cons.mp h
    exact first.bind fun _ => (ih others).result _

end Blind

/-! ## While no path is active -/

/-- While no path is active, two acts do the same. -/
def Agree (x y : Resolving α) : Prop := ∀ issues, x.run ⟨[], issues⟩ = y.run ⟨[], issues⟩

namespace Agree

variable {x y z : Resolving α} {k l : α → Resolving β}

theorem refl (x : Resolving α) : Agree x x := fun _ => rfl

theorem bind (framed : Framed x) (h : Agree x y) (hk : ∀ a, Agree (k a) (l a)) :
    Agree (x >>= k) (y >>= l) := by
  intro issues
  obtain ⟨a, new, yields⟩ := framed []
  have result := yields issues
  have left : (x >>= k).run ⟨[], issues⟩ =
      (k (x.run ⟨[], issues⟩).1).run (x.run ⟨[], issues⟩).2 := rfl
  have right : (y >>= l).run ⟨[], issues⟩ =
      (l (y.run ⟨[], issues⟩).1).run (y.run ⟨[], issues⟩).2 := rfl
  rw [left, right, ← h issues, result]
  exact hk a _

/-- Two acts in sequence are the same if the first and the second are. -/
theorem andThen (framed : Framed x) (h : Agree x y) : Agree (x >>= k) (y >>= k) :=
  h.bind framed fun _ => refl _

theorem gather {f g : γ → Resolving (List β)} (framed : ∀ c, Framed (f c)) {cs : List γ}
    (h : ∀ c ∈ cs, Agree (f c) (g c)) : Agree (gather f cs) (gather g cs) := by
  induction cs with
  | nil => exact refl _
  | cons c more ih =>
    obtain ⟨first, others⟩ := List.forall_mem_cons.mp h
    exact bind (framed c) first fun _ => andThen (framed_gather framed more) (ih others)

/-- What does not look at the active paths is done during a path as without it. -/
theorem during {path : Path} (h : Blind x) : Agree (during path x) x := by
  obtain ⟨a, new, yields⟩ := h
  exact fun issues => ((yields [path]).during issues).trans (yields [] issues).symm

end Agree

end Resolving

/-! ## Declarations without references -/

namespace Resolver

variable (r : Resolver)

theorem blind_ownSettings (own : Settings) (ss : List Declaration.Assignment) :
    Blind (r.ownSettings own ss) := by
  induction ss generalizing own with
  | nil => exact .pure own
  | cons s more ih =>
    rw [ownSettings]
    split
    · exact ih _
    · exact (Blind.report _).bind fun _ => ih own

theorem blind_settings (inherited : Settings) (own : List Declaration.Assignment) :
    Blind (r.settings inherited own) :=
  (r.blind_ownSettings _ own).result _

theorem blind_rule (inherited : Settings) (d : Declaration.Rule) : Blind (r.rule inherited d) := by
  rw [rule]
  split
  · exact .leaveOut _
  · exact (r.blind_settings _ _).result _

theorem blind_rules (inherited : Settings) (base : Path) (own : List Declaration.Rule) :
    Blind (r.rules inherited base own []) :=
  (Blind.gather fun d _ => r.blind_rule inherited d).bind fun _ => (Blind.pure []).result _

theorem blind_group (inherited : Settings) (base : Path) {d : Declaration.Group}
    (h : d.references = []) : Blind (r.group inherited base d) := by
  have noUses : d.useRules = [] := List.map_eq_nil_iff.mp h
  rw [group, noUses]
  exact (r.blind_settings _ _).bind fun settings => (r.blind_rules settings base _).result _

theorem blind_groups (inherited : Settings) (base : Path) {own : List Declaration.Group}
    (h : own.flatMap Declaration.Group.references = []) :
    Blind (r.groups inherited base own []) := by
  have each : ∀ d ∈ own, Blind (do return [← r.group inherited base d]) := fun d hd =>
    (r.blind_group inherited base (List.flatMap_eq_nil_iff.mp h d hd)).result _
  exact (Blind.gather each).bind fun _ => (Blind.pure []).result _

mutual

theorem blind_moduleWith (within : Within) (inherited : Settings) (base : Path) :
    ∀ d : Declaration.Module, d.references = [] → Blind (r.moduleWith within inherited base d)
  | ⟨name, own, modules, useModules, groups, useGroups, rules, useRules, _⟩, h => by
    simp only [Declaration.Module.references, Declaration.referencesTo, List.append_eq_nil_iff,
      List.map_eq_nil_iff] at h
    obtain ⟨⟨⟨⟨rfl, rfl⟩, rfl⟩, inGroups⟩, inModules⟩ := h
    rw [moduleWith]
    refine (r.blind_settings inherited own).bind fun settings => ?_
    refine (blind_modulesWith within settings base modules inModules).bind fun _ => ?_
    refine (Blind.pure []).bind fun _ => ?_
    refine (r.blind_groups settings base inGroups).bind fun _ => ?_
    exact (r.blind_rules settings base rules).result _

theorem blind_modulesWith (within : Within) (inherited : Settings) (base : Path) :
    ∀ ds : List Declaration.Module, Declaration.Module.referencesOfAll ds = [] →
      Blind (r.modulesWith within inherited base ds)
  | [], _ => by
    rw [modulesWith]
    exact .pure _
  | d :: more, h => by
    obtain ⟨first, others⟩ := List.append_eq_nil_iff.mp h
    rw [modulesWith]
    refine (blind_moduleWith within inherited base d first).bind fun _ => ?_
    exact (blind_modulesWith within inherited base more others).result _

end

/-! ### Wherever they stand -/

/-- A group without references is resolved the same in every place. -/
theorem group_anywhere (inherited : Settings) (base base' : Path) {d : Declaration.Group}
    (h : d.references = []) : r.group inherited base d = r.group inherited base' d := by
  have noUses : d.useRules = [] := List.map_eq_nil_iff.mp h
  rw [group, group, noUses]
  rfl

theorem groups_anywhere (inherited : Settings) (base base' : Path) {own : List Declaration.Group}
    (h : own.flatMap Declaration.Group.references = []) :
    r.groups inherited base own [] = r.groups inherited base' own [] := by
  have each : gather (fun d => do return [← r.group inherited base d]) own =
      gather (fun d => do return [← r.group inherited base' d]) own :=
    gather_congr fun d hd => by
      rw [r.group_anywhere inherited base base' (List.flatMap_eq_nil_iff.mp h d hd)]
  rw [groups, groups, each]
  rfl

mutual

/-- A module without references is resolved alike, however the modules behind references are. -/
theorem moduleWith_anywhere (within within' : Within) (inherited : Settings) (base base' : Path) :
    ∀ d : Declaration.Module, d.references = [] →
      r.moduleWith within inherited base d = r.moduleWith within' inherited base' d
  | ⟨name, own, modules, useModules, groups, useGroups, rules, useRules, _⟩, h => by
    simp only [Declaration.Module.references, Declaration.referencesTo, List.append_eq_nil_iff,
      List.map_eq_nil_iff] at h
    obtain ⟨⟨⟨⟨rfl, rfl⟩, rfl⟩, inGroups⟩, inModules⟩ := h
    have inPlace (settings : Settings) :=
      modulesWith_anywhere within within' settings base base' modules inModules
    have groups' (settings : Settings) := r.groups_anywhere settings base base' inGroups
    simp only [moduleWith, inPlace, groups']
    rfl

theorem modulesWith_anywhere (within within' : Within) (inherited : Settings) (base base' : Path) :
    ∀ ds : List Declaration.Module, Declaration.Module.referencesOfAll ds = [] →
      r.modulesWith within inherited base ds = r.modulesWith within' inherited base' ds
  | [], _ => by rw [modulesWith, modulesWith]
  | d :: more, h => by
    obtain ⟨first, others⟩ := List.append_eq_nil_iff.mp h
    rw [modulesWith, modulesWith, moduleWith_anywhere within within' inherited base base' d first,
      modulesWith_anywhere within within' inherited base base' more others]

end

/-- Modules written in place are gathered one by one. -/
theorem modulesWith_eq_gather (within : Within) (inherited : Settings) (base : Path)
    (ds : List Declaration.Module) : r.modulesWith within inherited base ds =
      gather (fun d => do return [← r.moduleWith within inherited base d]) ds := by
  induction ds with
  | nil => rw [modulesWith, gather]
  | cons d more ih =>
    simp only [modulesWith, gather, ih, bind_assoc, pure_bind, List.singleton_append]

end Resolver

end Compliance
