import Compliance.Declaration.Reader

/-!
# Rounds

A block of members is read in rounds.  A round has one member, or none behind a fault that
is recovered from, and the last one comes to the end of the block or moves nothing.  The
declarations of a text are read in rounds as well, up to the end of the text.

## Main definitions

* `Recovering.progress` — where a result leaves off.
* `Recovering.round`, `Recovering.rounds` — one round, and rounds up to an end.
* `Recovering.membersAt_eq_rounds` — members are read in rounds.
* `Reader.reading`, `Reader.run_of_reading` — so are texts.
-/

namespace Compliance

namespace Recovering

variable {α β : Type} {mode : Mode} {keywords : List String} {base : Nat} {f : Recovering α}
  {p q : Progress} {fault : SyntaxFault}

/-- Where a result leaves off. -/
def progress : EStateM.Result SyntaxFault Progress α → Progress
  | .ok _ q => q
  | .error _ q => q

/-- One round: what is read, or nothing behind a fault that is recovered from. -/
def round (mode : Mode) (keywords : List String) (base : Nat) (part : Recovering α) :
    Recovering (List α) := fun p =>
  match part p with
  | .ok a q => .ok [a] q
  | .error fault q => EStateM.map (fun _ => []) (recover mode keywords base p.size fault) q

theorem round_ok {a : α} (read : f p = .ok a q) :
    round mode keywords base f p = .ok [a] q := by
  rw [round, read]

theorem round_error (read : f p = .error fault q) : round mode keywords base f p =
    EStateM.map (fun _ => []) (recover mode keywords base p.size fault) q := by
  rw [round, read]

theorem round_recovers {r : Progress} (read : f p = .error fault q)
    (recovers : recover mode keywords base p.size fault q = .ok () r) :
    round mode keywords base f p = .ok [] r := by
  rw [round_error read, EStateM.map, recovers]

theorem round_stops {stop : SyntaxFault} {r : Progress} (read : f p = .error fault q)
    (stops : recover mode keywords base p.size fault q = .error stop r) :
    round mode keywords base f p = .error stop r := by
  rw [round_error read, EStateM.map, stops]

/-- A round has a value where the part has one, or where it is recovered from. -/
theorem round_ok_cases {as : List α} {r : Progress}
    (result : round mode keywords base f p = .ok as r) :
    (∃ a, f p = .ok a r ∧ as = [a]) ∨ ∃ fault q, f p = .error fault q ∧
      recover mode keywords base p.size fault q = .ok () r ∧ as = [] := by
  cases read : f p with
  | ok a q =>
    rw [round_ok read] at result
    cases result
    exact .inl ⟨a, rfl, rfl⟩
  | error fault q =>
    rw [round_error read, EStateM.map] at result
    cases recovers : recover mode keywords base p.size fault q with
    | error stop s =>
      rw [recovers] at result
      cases result
    | ok u s =>
      rw [recovers] at result
      cases result
      exact .inr ⟨fault, q, rfl, recovers, rfl⟩

/-- A round stops where its part stops and is not recovered from. -/
theorem round_error_cases {stop : SyntaxFault} {r : Progress}
    (result : round mode keywords base f p = .error stop r) : ∃ fault q, f p = .error fault q ∧
      recover mode keywords base p.size fault q = .error stop r := by
  cases read : f p with
  | ok a q =>
    rw [round_ok read] at result
    cases result
  | error fault q =>
    rw [round_error read, EStateM.map] at result
    cases recovers : recover mode keywords base p.size fault q with
    | error stop' s =>
      rw [recovers] at result
      cases result
      exact ⟨fault, q, rfl, recovers⟩
    | ok u s =>
      rw [recovers] at result
      cases result

/-- Rounds up to where a test says that there is nothing more.  Each moves on; one that does not is
the last. -/
def rounds (ends : Cursor → Bool) (part : Recovering (List α)) : Recovering (List α) := fun p =>
  if ends p.cursor then .ok [] p
  else
    match part p with
    | .ok as q =>
      if q.size < p.size then
        match rounds ends part q with
        | .ok more r => .ok (as ++ more) r
        | .error fault r => .error fault r
      else .ok as q
    | .error fault q => .error fault q
termination_by p => p.size

section

variable {ends : Cursor → Bool} {part : Recovering (List α)} {as : List α}

theorem rounds_end (done : ends p.cursor = true) : rounds ends part p = .ok [] p := by
  rw [rounds, if_pos done]

theorem rounds_cons (continues : ends p.cursor = false) (read : part p = .ok as q)
    (less : q.size < p.size) :
    rounds ends part p = EStateM.map (as ++ ·) (rounds ends part) q := by
  rw [rounds, if_neg (by simp [continues]), read, EStateM.map]
  cases behind : rounds ends part q <;> simp only [if_pos less, behind]

theorem rounds_last (continues : ends p.cursor = false) (read : part p = .ok as q)
    (last : ¬ q.size < p.size) : rounds ends part p = .ok as q := by
  rw [rounds, if_neg (by simp [continues]), read]
  simp only [if_neg last]

theorem rounds_stop (continues : ends p.cursor = false) (stops : part p = .error fault q) :
    rounds ends part p = .error fault q := by
  rw [rounds, if_neg (by simp [continues]), stops]

end

/-- **Members are read in rounds.** -/
theorem membersAt_eq_rounds (member : Recovering α) : membersAt mode keywords base member =
    rounds Cursor.atBlockEnd (round mode keywords base member) := by
  funext p
  induction p using round_induction atBlockEnd_or mode keywords base member with
  | finish p ends => rw [membersAt_end ends, rounds_end ends]
  | more p a q continues read less ih =>
    rw [membersAt_cons continues read less, rounds_cons continues (round_ok read) less,
      EStateM.map, EStateM.map, ih]
    rfl
  | last p a q continues read less =>
    rw [membersAt_last continues read less, rounds_last continues (round_ok read) less]
  | past p fault q r continues read recovers less ih =>
    rw [membersAt_recover continues read recovers less,
      rounds_cons continues (round_recovers read recovers) less, ih, EStateM.map]
    cases rounds Cursor.atBlockEnd (round mode keywords base member) r <;> rfl
  | rest p fault q r continues read recovers less =>
    rw [membersAt_recover_last continues read recovers less,
      rounds_last continues (round_recovers read recovers) less]
  | stop p fault q stop r continues read stops =>
    rw [membersAt_stop continues read stops, rounds_stop continues (round_stops read stops)]

end Recovering

namespace Reader

open Recovering

variable {reader : Reader}

/-- The declarations of a text, read in rounds. -/
def reading (reader : Reader) (kind : DeclarationKind) : Recovering (List Declaration) :=
  rounds (fun c => c.token = .eof) (round reader.mode topKeywords 0 (reader.topLevel kind))

/-- An outcome is that of a result: the declarations if there are any, the faults recorded, and the
one that stopped reading. -/
def Outcome.Of (x : EStateM.Result SyntaxFault Progress (List Declaration)) (o : Outcome) : Prop :=
  match x with
  | .ok ds q => o = ⟨ds, q.recorded, none⟩
  | .error fault q => o.recorded = q.recorded ∧ o.stoppedBy = some fault

theorem Outcome.Of.map {f : Recovering (List Declaration)} {p : Progress} {o : Outcome}
    (h : Outcome.Of (f p) o) (k : List Declaration → List Declaration) :
    Outcome.Of (EStateM.map k f p) { o with declarations := k o.declarations } := by
  rw [EStateM.map]
  cases result : f p with
  | ok ds q =>
    rw [result] at h
    subst h
    rfl
  | error fault q =>
    rw [result] at h
    exact h

theorem Outcome.Of.recorded {x : EStateM.Result SyntaxFault Progress (List Declaration)}
    {o : Outcome} (h : Outcome.Of x o) : (progress x).recorded = o.recorded := by
  cases x with
  | ok ds q =>
    subst h
    rfl
  | error fault q => exact h.1.symm

/-- **Texts are read in rounds.** -/
theorem run_of_reading (kind : DeclarationKind) (p : Progress) :
    Outcome.Of (reader.reading kind p) (reader.run kind p) := by
  induction p using round_induction eof_or reader.mode topKeywords 0 (reader.topLevel kind) with
  | finish p ends =>
    rw [reading, rounds_end (decide_eq_true ends), run_eof ends]
    rfl
  | more p d q continues read less ih =>
    rw [reading, rounds_cons (decide_eq_false continues) (round_ok read) less,
      run_cons continues read less]
    exact ih.map _
  | last p d q continues read less =>
    rw [reading, rounds_last (decide_eq_false continues) (round_ok read) less,
      run_last continues read less]
    rfl
  | past p fault q r continues read recovers less ih =>
    rw [reading, rounds_cons (decide_eq_false continues) (round_recovers read recovers) less,
      run_recover continues read recovers less]
    exact ih.map _
  | rest p fault q r continues read recovers less =>
    rw [reading, rounds_last (decide_eq_false continues) (round_recovers read recovers) less,
      run_recover_last continues read recovers less]
    rfl
  | stop p fault q stop r continues read stops =>
    rw [reading, rounds_stop (decide_eq_false continues) (round_stops read stops),
      run_stop continues read stops]
    exact ⟨rfl, rfl⟩

end Reader

end Compliance
