import Compliance.Proofs.Resolution.Framed
import Compliance.Specification

/-!
# One resolver for many declarations

A resolver is used again and again: for the declarations of a file, one after the other,
and with other settings and other directories as often as one likes.  All that it keeps
between two of these uses are the active paths and the issues.  Whatever is met on the
way, faults and circles included, every path is active no longer when the reference to it
is done with, and the issues are handed out with the resolution that they arose in.  So
nothing of a declaration is left when the next one is resolved.

## Main definitions

* `Resolver.Request` — what a resolver can be asked for, and `Resolver.answer` to it.
* `Resolver.alone` — the answer of a resolver that has not been asked before.
* `Resolver.reused_as_new` — a resolver that is used again answers like a new one.
-/

namespace Compliance

open Resolving

namespace Resolver

/-- What a resolver can be asked for: the resolution of a declaration inside settings, with
references that start from a directory, or else from the directory of the declaration's file. -/
structure Request where
  declaration : Declaration
  inherited : Settings
  base : Option Path

/-- Does what is asked for. -/
def answer (r : Resolver) (q : Request) : Resolving Resolution :=
  match q.base with
  | none => r.resolve q.inherited q.declaration
  | some base => r.resolveIn q.inherited base q.declaration

/-- What a new resolver answers. -/
def alone (r : Resolver) (q : Request) : Resolution := ((r.answer q).run State.idle).1

variable (r : Resolver)

theorem run_answer (q : Request) : (r.answer q).run State.idle = (r.alone q, State.idle) := by
  have idle (base : Path) : ((r.resolveIn q.inherited base q.declaration).run State.idle).2 =
      State.idle := by
    obtain ⟨resolution, run, -⟩ := r.run_resolveIn q.inherited base q.declaration
    rw [run]
  have left : ((r.answer q).run State.idle).2 = State.idle := by
    rw [answer]
    split
    · exact idle _
    · exact idle _
  exact Prod.ext rfl left

/-- What acts in sequence come to if nothing is left behind each of them. -/
theorem run_mapM_answer (qs : List Request) :
    (qs.mapM r.answer).run State.idle = (qs.map r.alone, State.idle) := by
  induction qs with
  | nil => rfl
  | cons q more ih =>
    have parts : ((q :: more).mapM r.answer).run State.idle =
        (((r.answer q).run State.idle).1 ::
          ((more.mapM r.answer).run ((r.answer q).run State.idle).2).1,
          ((more.mapM r.answer).run ((r.answer q).run State.idle).2).2) := by
      rw [List.mapM_cons]
      rfl
    rw [parts, run_answer, ih, List.map_cons]

/-- The declarations of a file are asked for one by one. -/
theorem resolveAll_eq_mapM (inherited : Settings) (ds : List Declaration) :
    r.resolveAll inherited ds = (ds.map (⟨·, inherited, none⟩)).mapM r.answer := by
  induction ds with
  | nil => rfl
  | cons d more ih =>
    rw [resolveAll, ih, List.map_cons, List.mapM_cons]
    rfl

/-- **A resolver that is used again answers like a new one.**  Asked for any declarations one after
the other, each with settings and a directory of its own, it gives for each the value and the issues
that a new resolver gives for it alone, and is as new afterwards: no path is active and no issue is
kept.  So are the declarations of a file resolved: what they come to, and the issues, are those of
new resolvers, one for each declaration. -/
theorem reused_as_new :
    (∀ qs : List Request, (qs.mapM r.answer).run State.idle = (qs.map r.alone, State.idle)) ∧
    ∀ file kind maxErrors written,
      let loaded := Specification.ofText r file kind maxErrors written
      match Declaration.parseReporting written file.text kind maxErrors with
      | .error _ => loaded.resolved = [] ∧ loaded.issues = []
      | .ok (ds, _) =>
        loaded.resolved = ds.filterMap (fun d => (r.alone ⟨d, Settings.empty, none⟩).value) ∧
        loaded.issues = ds.flatMap fun d => (r.alone ⟨d, Settings.empty, none⟩).issues := by
  refine ⟨r.run_mapM_answer, fun file kind maxErrors written => ?_⟩
  cases read : Declaration.parseReporting written file.text kind maxErrors with
  | error error =>
    simp only [Specification.ofText, read, and_self]
  | ok found =>
    obtain ⟨ds, errors⟩ := found
    simp only [Specification.ofText, read, resolveAll_eq_mapM, run_mapM_answer]
    rw [List.map_map, List.filterMap_map, List.flatMap_map]
    exact ⟨rfl, rfl⟩

end Resolver

end Compliance
