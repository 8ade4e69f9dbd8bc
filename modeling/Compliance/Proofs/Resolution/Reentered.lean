import Compliance.Proofs.Resolution.Stages

/-!
# Which paths become active

A reference in a declaration may lead to a file, references in that file to another one,
and so on.  Every path that is come to in this way is active at some moment of the
resolution, and no other path is: where a reference is refused because its path is active,
what stands behind it has come up before.

The file that a declaration is written in is not active from the start.  So among the
paths on the way to a declaration, with the file at its beginning in front, just that file
may be met a second time, and it is if references lead back to it.

## Main definitions

* `Declaration.LeadsTo` — references lead from a declaration to a path.
* `Resolver.ComesUp`, `Resolver.Enters` — a member is to be resolved, a path becomes active.
* `Resolver.Traced` — what is to be done, and what is active, is come to by references.
* `Resolver.active_iff_leadsTo` — the paths that become active.
-/

namespace Compliance

open Declaration Resolving

/-! ## One text, one kind -/

/-- A declaration starts with the keyword of the kind that is read. -/
theorem Reader.keyword_of_topLevel {reader : Reader} {kind : DeclarationKind} {p q : Progress}
    {d : Declaration} (h : reader.topLevel kind p = .ok d q) :
    Parser.keywordAmong? DeclarationKind.all p.cursor.token = some kind := by
  rw [topLevel_eq] at h
  split at h
  · cases h
  · rw [declaration] at h
    change EStateM.bind Parser.token.plain _ p = _ at h
    rw [EStateM.bind, show Parser.token.plain p = .ok p.cursor.token p from rfl] at h
    cases found : Parser.keywordAmong? DeclarationKind.all p.cursor.token with
    | none =>
      simp only [found] at h
      cases h
    | some other =>
      by_cases same : other = kind
      · rw [same]
      · simp only [found, if_pos same] at h
        cases h

/-- A text that is read to its end and is not empty starts with the keyword of its kind. -/
theorem Reader.keyword_of_run {file : String} {kind : DeclarationKind} {p : Progress}
    (h : (run ⟨file, .failFast⟩ kind p).stoppedBy = none) (continues : p.cursor.token ≠ .eof) :
    Parser.keywordAmong? DeclarationKind.all p.cursor.token = some kind := by
  cases read : topLevel ⟨file, .failFast⟩ kind p with
  | ok d q => exact keyword_of_topLevel read
  | error fault q =>
    rw [run_stop continues read rfl] at h
    cases h

/-- **A text is read to its end for one kind only**, unless it declares nothing. -/
theorem Declaration.parse_unique {source file : String} {kind kind' : DeclarationKind}
    {ds ds' : List Declaration} (h : parse source file kind = .ok ds)
    (h' : parse source file kind' = .ok ds') : ds = ds' := by
  rw [parse] at h h'
  cases scanned : Token.scan source with
  | error error =>
    rw [scanned] at h
    cases h
  | ok tokens =>
    rw [scanned] at h h'
    simp only [readTokens] at h h'
    split at h
    · next whole =>
      split at h'
      · next whole' =>
        by_cases ended : (Cursor.ofTokens tokens).token = .eof
        · rw [Reader.run_eof (by exact ended)] at h h'
          exact (Except.ok.inj h).symm.trans (Except.ok.inj h')
        · have key := Reader.keyword_of_run whole ended
          have key' := Reader.keyword_of_run whole' ended
          obtain rfl := Option.some.inj (key.symm.trans key')
          exact (Except.ok.inj h).symm.trans (Except.ok.inj h')
      · cases h'
    · cases h

/-- From a place a reference leads to the same declarations as from any other, if to the same
path. -/
theorem Sources.Expands.fragment_unique {sources : Sources} {place place' path : Path}
    {kind kind' : DeclarationKind} {reference reference' : Inclusion}
    {fragment fragment' : List Declaration}
    (h : sources.Expands place kind reference path fragment)
    (h' : sources.Expands place' kind' reference' path fragment') : fragment = fragment' := by
  obtain ⟨-, text, read, parsed⟩ := h
  obtain ⟨-, text', read', parsed'⟩ := h'
  obtain rfl := Except.ok.inj (read.symm.trans read')
  exact parse_unique parsed parsed'

/-- References lead from a declaration in a place to a path, where others are declared. -/
def Declaration.LeadsTo (sources : Sources) (base : Path) (d : Declaration) (path : Path)
    (fragment : List Declaration) : Prop :=
  ∃ outer place x kind reference, d.Encloses sources base outer place x ∧
    .used kind reference ∈ x.members ∧ sources.Expands place kind reference path fragment

namespace Resolver

variable {r : Resolver} {s t : Stage} {base place path : Path} {d x : Declaration}
  {member : Member} {fragment : List Declaration}

/-! ## Everything comes up -/

/-- A step does the first task, and may put others in its place. -/
theorem step_tasks {task : Task} {rest : List Task} (h : s.tasks = task :: rest) :
    ∃ new, (r.step s).tasks = new ++ rest := by
  rw [step, h]
  cases task with
  | leave => exact ⟨[], rfl⟩
  | resolve place member =>
    cases member with
    | written d =>
      cases d with
      | rule d =>
        simp only [stepInto]
        split
        · exact ⟨[], rfl⟩
        · exact ⟨_, rfl⟩
      | _ => exact ⟨_, rfl⟩
    | used kind reference =>
      simp only [stepBehind]
      split
      · exact ⟨[], rfl⟩
      · split
        · exact ⟨[], rfl⟩
        · split
          · exact ⟨[], rfl⟩
          · exact ⟨_, rfl⟩

theorem after_done (ends : s.tasks = []) (n : Nat) : r.after n s = s :=
  Function.iterate_fixed (by rw [step, ends]) n

/-- Of two moments that are come to, the last one comes behind the other. -/
theorem Leads.onward {u : Stage} (h : r.Leads s t) (last : r.Leads s u) (ends : u.tasks = []) :
    r.Leads t u := by
  obtain ⟨m, rfl⟩ := h
  obtain ⟨n, rfl⟩ := last
  rcases Nat.le_total m n with le | le
  · obtain ⟨k, rfl⟩ := Nat.exists_eq_add_of_le le
    exact ⟨k, (after_add m k s).symm⟩
  · obtain ⟨k, rfl⟩ := Nat.exists_eq_add_of_le le
    rw [after_add, after_done ends]
    exact .refl r _

/-- **Every task comes up**, if the tasks come to an end: those above it are done some time. -/
theorem Leads.comes_up (h : r.Leads s t) (ends : t.tasks = []) {front rest : List Task}
    (tasks : s.tasks = front ++ rest) : ∃ u, r.Leads s u ∧ u.tasks = rest := by
  obtain ⟨n, rfl⟩ := h
  induction n generalizing s front with
  | zero =>
    have none : front ++ rest = [] := tasks.symm.trans ends
    obtain ⟨rfl, rfl⟩ := List.append_eq_nil_iff.mp none
    exact ⟨s, .refl r s, tasks⟩
  | succ n ih =>
    cases front with
    | nil => exact ⟨s, .refl r s, tasks⟩
    | cons task front =>
      have next : s.tasks = task :: (front ++ rest) := tasks
      obtain ⟨new, behind⟩ := step_tasks (r := r) next
      rw [← List.append_assoc] at behind
      obtain ⟨u, leads, comes⟩ := ih behind ends
      exact ⟨u, .cons leads, comes⟩

/-- At some moment behind another one a member is the next to be resolved in a place. -/
def ComesUp (r : Resolver) (s : Stage) (place : Path) (member : Member) : Prop :=
  ∃ now rest, r.Leads s now ∧ now.tasks = .resolve place member :: rest

/-- At some moment behind another one a path is active, and declarations are next to be resolved
there. -/
def Enters (r : Resolver) (s : Stage) (path : Path) (fragment : List Declaration) : Prop :=
  ∃ now rest, r.Leads s now ∧ path ∈ now.active ∧ now.tasks = r.tasksBehind path fragment ++ rest

/-- Of members that are next to be resolved in a place each comes up there. -/
theorem Leads.comesUp {now : Stage} {members : List Member} {rest : List Task}
    (h : r.Leads s now) (last : r.Leads s t) (ends : t.tasks = [])
    (tasks : now.tasks = tasksOf place members ++ rest) (mem : member ∈ members) :
    r.ComesUp s place member := by
  obtain ⟨before, behind, rfl⟩ := List.append_of_mem mem
  have split : now.tasks =
      tasksOf place before ++ (.resolve place member :: (tasksOf place behind ++ rest)) := by
    rw [tasks, tasksOf, List.map_append, List.append_assoc]
    rfl
  obtain ⟨u, leads, comes⟩ := (h.onward last ends).comes_up ends split
  exact ⟨u, _, h.trans leads, comes⟩

/-- The members of a declaration that comes up come up. -/
theorem ComesUp.inside (h : r.ComesUp s place (.written x)) (last : r.Leads s t)
    (ends : t.tasks = []) (mem : member ∈ x.members) : r.ComesUp s place member := by
  obtain ⟨now, rest, reached, tasks⟩ := h
  have inside : (r.step now).tasks = tasksOf place x.members ++ rest := by
    rw [step, tasks]
    cases x with
    | rule x => cases mem
    | _ => rfl
  exact (reached.trans (.cons (.refl r _))).comesUp last ends inside mem

/-- The declarations behind a path that is entered come up. -/
theorem Enters.comesUp (h : r.Enters s path fragment) (last : r.Leads s t) (ends : t.tasks = [])
    (mem : x ∈ fragment) : r.ComesUp s (r.sources.baseDir path) (.written x) := by
  obtain ⟨now, rest, reached, -, tasks⟩ := h
  rw [tasksBehind, List.append_assoc] at tasks
  exact reached.comesUp last ends tasks (List.mem_map_of_mem mem)

/-- What is known of a moment of the resolution of a declaration: all that is to be resolved lies in
the declaration or behind its references, which lead to each active path, and each active path has
been entered. -/
structure Traced (r : Resolver) (base : Path) (d : Declaration) (now : Stage) : Prop where
  written : ∀ place x, .resolve place (.written x) ∈ now.tasks →
    ∃ outer, d.Encloses r.sources base outer place x
  used : ∀ place kind reference, .resolve place (.used kind reference) ∈ now.tasks →
    ∃ outer x, d.Encloses r.sources base outer place x ∧ .used kind reference ∈ x.members
  active : ∀ path ∈ now.active, ∃ fragment, d.LeadsTo r.sources base path fragment ∧
    r.Enters (.start base d) path fragment

theorem traced_start (r : Resolver) (base : Path) (d : Declaration) :
    r.Traced base d (.start base d) where
  written place x h := by
    cases List.mem_singleton.mp h
    exact ⟨[], .itself⟩
  used place kind reference h := by cases List.mem_singleton.mp h
  active := List.forall_mem_nil _

/-- Tasks may be left out, and known ones may be added. -/
theorem Traced.go {now : Stage} (h : r.Traced base d now) {new : Stage}
    (known : r.Traced base d new) {tasks : List Task} (among : tasks ⊆ new.tasks ++ now.tasks)
    {active : List Path} (still : active ⊆ new.active ++ now.active) (issues : List Issue) :
    r.Traced base d ⟨tasks, active, issues⟩ where
  written place x hm :=
    (List.mem_append.mp (among hm)).elim (known.written place x) (h.written place x)
  used place kind reference hm :=
    (List.mem_append.mp (among hm)).elim (known.used place kind reference)
      (h.used place kind reference)
  active path hm := (List.mem_append.mp (still hm)).elim (known.active path) (h.active path)

theorem traced_nothing : r.Traced base d ⟨[], [], []⟩ where
  written _ _ hm := by cases hm
  used _ _ _ hm := by cases hm
  active := List.forall_mem_nil _

theorem traced_tasksOf {outer : List (List Assignment)}
    (h : d.Encloses r.sources base outer place x) :
    r.Traced base d ⟨tasksOf place x.members, [], []⟩ where
  written place' y hm := by
    obtain ⟨member, mem, same⟩ := List.mem_map.mp hm
    cases same
    exact ⟨_, .written h mem⟩
  used place' kind reference hm := by
    obtain ⟨member, mem, same⟩ := List.mem_map.mp hm
    cases same
    exact ⟨_, x, h, mem⟩
  active := List.forall_mem_nil _

/-- What is declared behind a path that references lead to. -/
theorem traced_tasksBehind (h : d.LeadsTo r.sources base path fragment) :
    r.Traced base d ⟨r.tasksBehind path fragment, [], []⟩ where
  written place' y hm := by
    obtain ⟨outer, place, x, kind, reference, encloses, mem, expands⟩ := h
    rcases List.mem_append.mp hm with hm | hm
    · obtain ⟨member, hm, same⟩ := List.mem_map.mp hm
      obtain ⟨z, declared, rfl⟩ := List.mem_map.mp hm
      cases same
      exact ⟨_, .used encloses mem expands declared⟩
    · cases List.mem_singleton.mp hm
  used place' kind reference hm := by
    simp [tasksBehind, tasksOf] at hm
  active := List.forall_mem_nil _

/-- **One step keeps what is to be done and what is active known.** -/
theorem Traced.step {now : Stage} (h : r.Traced base d now)
    (reached : r.Leads (.start base d) now) :
    r.Traced base d (r.step now) := by
  have next : r.Leads (.start base d) (r.step now) := reached.trans (.cons (.refl r _))
  have rest {task : Task} {rest : List Task} (tasks : now.tasks = task :: rest) :
      rest ⊆ now.tasks := tasks ▸ List.subset_cons_self task rest
  have added {new rest' : List Task} (fewer : rest' ⊆ now.tasks) :
      new ++ rest' ⊆ new ++ now.tasks :=
    List.append_subset.mpr
      ⟨List.subset_append_left .., List.Subset.trans fewer (List.subset_append_right ..)⟩
  have refused {task : Task} {rest' : List Task} (tasks : now.tasks = task :: rest')
      (issue : Issue) : r.Traced base d (now.refuse rest' issue) :=
    h.go traced_nothing (rest tasks) (List.Subset.refl _) _
  rw [Resolver.step] at next ⊢
  split at next
  · exact h
  · next rest' tasks => exact h.go traced_nothing (rest tasks) (fun _ => List.mem_of_mem_tail) _
  · next place x rest' tasks =>
    obtain ⟨outer, encloses⟩ := h.written place x (tasks ▸ List.mem_cons_self)
    have inside : r.Traced base d { now with
        tasks := tasksOf place x.members ++ rest'
        issues := now.issues ++ r.settingIssues x.settings } :=
      h.go (traced_tasksOf encloses) (added (rest tasks)) (List.Subset.refl _) _
    cases x with
    | rule x =>
      simp only [stepInto]
      split
      · exact refused tasks _
      · exact inside
    | _ => exact inside
  · next place kind reference rest' tasks =>
    obtain ⟨outer, x, encloses, mem⟩ := h.used place kind reference (tasks ▸ List.mem_cons_self)
    unfold stepBehind at next ⊢
    simp only at next ⊢
    split
    · exact refused tasks _
    · next fresh =>
      split
      · exact refused tasks _
      · next text read =>
        split
        · exact refused tasks _
        · next fragment parsed =>
          simp only [if_neg fresh, read, parsed] at next
          have leadsTo : d.LeadsTo r.sources base (Sources.locate place reference.path) fragment :=
            ⟨outer, place, x, kind, reference, encloses, mem, rfl, text, read, parsed⟩
          have entered : r.Enters (.start base d) (Sources.locate place reference.path) fragment :=
            ⟨_, rest', next, List.mem_cons_self, rfl⟩
          have known : r.Traced base d
              ⟨r.tasksBehind (Sources.locate place reference.path) fragment,
                [Sources.locate place reference.path], []⟩ :=
            { traced_tasksBehind leadsTo with
              active := List.forall_mem_singleton.mpr ⟨fragment, leadsTo, entered⟩ }
          exact h.go known (added (rest tasks)) (List.Subset.refl _) _

theorem Leads.traced {now : Stage} (h : r.Leads (.start base d) now) : r.Traced base d now := by
  obtain ⟨n, rfl⟩ := h
  induction n with
  | zero => exact traced_start r base d
  | succ n ih =>
    rw [after, Function.iterate_succ_apply']
    exact ih.step ⟨n, rfl⟩

/-- The steps of a resolution come to an end, with its issues. -/
theorem leads_issues (r : Resolver) (top : Settings) (base : Path) (d : Declaration) :
    ∃ resolution, (r.resolveIn top base d).run State.idle = (resolution, State.idle) ∧
      r.Leads (.start base d) ⟨[], [], resolution.issues⟩ := by
  obtain ⟨resolution, run, comes⟩ := r.run_resolveIn top base d
  obtain ⟨value, issues, yields, becomes⟩ := r.becomes_declaration top base d
  obtain ⟨-, same⟩ := yields.unique comes
  exact ⟨resolution, run, same ▸ becomes.leads [] []⟩

/-- A path that a reference leads to is entered, if the reference comes up: then, or it has been
before. -/
theorem ComesUp.enters {kind : DeclarationKind} {reference : Inclusion}
    (h : r.ComesUp (.start base d) place (.used kind reference))
    (expands : r.sources.Expands place kind reference path fragment) :
    r.Enters (.start base d) path fragment := by
  obtain ⟨now, rest, reached, tasks⟩ := h
  by_cases again : path ∈ now.active
  · obtain ⟨before, ⟨_, _, _, _, _, _, _, expanded⟩, entered⟩ := reached.traced.active path again
    rwa [expands.fragment_unique expanded]
  · have next : r.step now =
        ⟨r.tasksBehind path fragment ++ rest, path :: now.active, now.issues⟩ := by
      obtain ⟨tasks', active, issues⟩ := now
      obtain rfl : tasks' = _ := tasks
      exact step_used expands again
    refine ⟨r.step now, rest, reached.trans (.cons (.refl r _)), ?_, ?_⟩
    · rw [next]
      exact List.mem_cons_self
    · rw [next]

/-- **All that lies in a declaration or behind its references comes up.** -/
theorem comesUp_of_encloses {outer : List (List Assignment)}
    (h : d.Encloses r.sources base outer place x) :
    r.ComesUp (.start base d) place (.written x) := by
  obtain ⟨resolution, -, ends⟩ := r.leads_issues .empty base d
  induction h with
  | itself => exact ⟨_, [], .refl r _, rfl⟩
  | written _ mem ih => exact ih.inside ends rfl mem
  | used _ mem expands declared ih =>
    exact ((ih.inside ends rfl mem).enters expands).comesUp ends rfl declared

/-- **The paths that are active at some moment are those that references lead to.** -/
theorem active_iff_leadsTo :
    (∃ now, r.Leads (.start base d) now ∧ path ∈ now.active) ↔
      ∃ fragment, d.LeadsTo r.sources base path fragment := by
  constructor
  · rintro ⟨now, reached, active⟩
    obtain ⟨fragment, leadsTo, -⟩ := reached.traced.active path active
    exact ⟨fragment, leadsTo⟩
  · rintro ⟨fragment, outer, place, x, kind, reference, encloses, mem, expands⟩
    obtain ⟨resolution, -, ends⟩ := r.leads_issues .empty base d
    have comes := (comesUp_of_encloses encloses).inside ends rfl mem
    obtain ⟨now, -, reached, active, -⟩ := comes.enters expands
    exact ⟨now, reached, active⟩

/-! ## The file at the beginning -/

/-- **Chains of references meet no path twice but the file that they start from.**

While a declaration is resolved the active paths are different at every moment, and a reference is
answered with a cycle just if its path is active then.  The file that the declaration is written in
counts as the beginning of the way only if nothing leads back to it: with it the paths are different
at every moment just if references do not lead from the declaration to its own file.  If they do,
the file becomes active, and what it declares is resolved once more inside the declaration. -/
theorem ways_differ_iff (tree : SourceTree) (catalogue : Catalogue) (top : Settings)
    (d : Declaration) :
    let r : Resolver := ⟨tree.sources, catalogue⟩
    let base := r.sources.baseDir ⟨d.origin.file⟩
    let own := (⟨d.origin.file⟩ : Path).normalize
    (∃ resolution, (r.resolve top d).run State.idle = (resolution, State.idle) ∧
        r.Leads (.start base d) ⟨[], [], resolution.issues⟩) ∧
      (∀ now, r.Leads (.start base d) now → now.active.Nodup ∧
        ∀ place kind reference rest, now.tasks = .resolve place (.used kind reference) :: rest →
          ∀ origin path, r.step now = now.refuse rest (.includeCycle origin path) ↔
            Sources.locate place reference.path ∈ now.active ∧ origin = reference.origin ∧
              path = (Sources.locate place reference.path).text) ∧
      ((∀ now, r.Leads (.start base d) now → (now.active ++ [own]).Nodup) ↔
        ∀ fragment, ¬ d.LeadsTo r.sources base own fragment) := by
  intro r base own
  have sound : ∀ now, r.Leads (.start base d) now → r.Sound now :=
    fun now reached => reached.sound (sound_start r base d)
  refine ⟨r.leads_issues top base d, fun now reached => ⟨(sound now reached).nodup, ?_⟩, ?_⟩
  · intro place kind reference rest first origin path
    rw [step, first]
    exact stepBehind_eq_cycle_iff
  · have differ : ∀ now, r.Leads (.start base d) now →
        ((now.active ++ [own]).Nodup ↔ own ∉ now.active) := fun now reached => by
      rw [(List.perm_append_singleton own now.active).nodup_iff, List.nodup_cons,
        and_iff_left (sound now reached).nodup]
    constructor
    · intro all fragment leadsTo
      obtain ⟨now, reached, active⟩ := active_iff_leadsTo.mpr ⟨fragment, leadsTo⟩
      exact (differ now reached).mp (all now reached) active
    · intro none now reached
      refine (differ now reached).mpr fun active => ?_
      obtain ⟨fragment, leadsTo⟩ := active_iff_leadsTo.mp ⟨now, reached, active⟩
      exact none fragment leadsTo

/-- A module that refers to its own file lies in itself, and its rule counts twice. -/
theorem own_file_met_again :
    let own : Path := ⟨"/m/a.cs"⟩
    let text := "module a \x7b use module \"/m/a.cs\" " ++
      "rule r on a:b:c \x7b assert \x7b x is null \x7d \x7d \x7d"
    let r : Resolver := ⟨(SourceTree.empty.add own text).sources, fun _ => none⟩
    ∃ d, parse text own.text .module = .ok [d] ∧
      (∃ now, r.Leads (.start (r.sources.baseDir own) d) now ∧ ¬ (now.active ++ [own]).Nodup) ∧
      ((r.resolve .empty d).run State.idle).1.value.map (fun x => x.rules.map (·.name)) =
        some ["r", "r"] := by
  intro own text r
  let d := ((parse text own.text .module).toOption.getD []).headD default
  have one : (parse text own.text .module).toOption.map List.length = some 1 := by decide +kernel
  have active : (r.after 2 (.start (r.sources.baseDir own) d)).active = [own] := by decide +kernel
  refine ⟨d, ?_, ⟨_, ⟨2, rfl⟩, ?_⟩, ?_⟩
  · cases parsed : parse text own.text .module with
    | error error => simp [parsed, Except.toOption] at one
    | ok ds =>
      simp only [parsed, Except.toOption, Option.map_some, Option.some.injEq] at one
      obtain ⟨x, rfl⟩ := List.length_eq_one_iff.mp one
      simp only [d, parsed]
      rfl
  · rw [active]
    decide
  · decide +kernel

end Resolver

end Compliance
