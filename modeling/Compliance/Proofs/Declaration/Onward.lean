import Compliance.Proofs.Declaration.Rounds
import Compliance.Proofs.Sequence

/-!
# Reading on

Where reading stands and where it leaves off, with the fault at which it stops there, may
be related in a way that goes on from one part to the next, and past a fault that is
recorded.  Then they are so related for all rounds, as soon as they are for each member.
And where reading stops in the middle because of a lower limit, the reading with a higher
limit comes past, and what is left of that is related in the same way.

## Main definitions

* `Recovering.Onward limit T` — the relation `T` goes on while faults are recorded.
* `Recovering.Records` — such a relation: what is recorded stays recorded.
* `Recovering.CutBy T m x y` — the result `x` is `y`, or it is stopped at `m` faults before.
* `Recovering.CutsBy T m f g` — `f` does what `g` does, until `m` faults are recorded.
-/

namespace Compliance.Recovering

variable {α β : Type} {T : Progress → Option SyntaxFault → Progress → Prop} {m n limit : Nat}
  {keywords : List String} {base : Nat} {f g : Recovering α} {p q r : Progress}
  {fault : SyntaxFault}

/-! ## Sequences and faults -/

theorem recorded_recover (checkpoint : Nat) (fault : SyntaxFault) {p : Progress}
    (room : p.recorded.length < limit) :
    (progress (recover (.reporting limit) keywords base checkpoint fault p)).recorded =
      p.recorded ++ [fault] := by
  simp only [recover]
  rw [if_neg (by omega)]
  split <;> rfl

/-! ## Going on -/

/-- The fault that a result stops at. -/
def stop : EStateM.Result SyntaxFault Progress α → Option SyntaxFault
  | .ok _ _ => none
  | .error fault _ => some fault

/-- A place in reading is related to the one where a result leaves off. -/
def Leads (T : Progress → Option SyntaxFault → Progress → Prop) (p : Progress)
    (x : EStateM.Result SyntaxFault Progress α) : Prop :=
  T p (stop x) (progress x)

/-- A relation of places in reading to later ones, and to the fault at which reading stops there.
It goes on behind what is read; a fault that is recorded stops nothing; and behind that fault it
goes on to where reading does. -/
structure Onward (limit : Nat) (T : Progress → Option SyntaxFault → Progress → Prop) : Prop where
  refl : ∀ p, T p none p
  trans : ∀ {p q r : Progress} {s : Option SyntaxFault}, T p none q → T q s r → T p s r
  record : ∀ {p q : Progress} {fault : SyntaxFault}, q.recorded.length < limit →
    T p (some fault) q → T p none (q.record fault)
  resume : ∀ {q : Progress} (keywords : List String) (base checkpoint : Nat) (fault : SyntaxFault),
    q.recorded.length < limit →
    Leads T (q.record fault) (recover (.reporting limit) keywords base checkpoint fault q)

theorem Leads.map (h : Leads T p (f q)) (k : α → β) : Leads T p (EStateM.map k f q) := by
  rw [EStateM.map]
  cases result : f q <;> rw [result] at h <;> exact h

namespace Onward

/-- What is related to the end of the first part is related to the end of the second. -/
theorem bind (h : Onward limit T) {k : α → Recovering β} (hk : ∀ a p, Leads T p (k a p))
    (leads : Leads T q (f p)) : Leads T q ((f >>= k) p) := by
  cases result : f p with
  | ok a r =>
    rw [result] at leads
    rw [bind_ok result]
    exact h.trans leads (hk a r)
  | error fault r =>
    rw [result] at leads
    rw [bind_error result]
    exact leads

/-- A fault is passed, whether the limit has been reached or not. -/
theorem recover (h : Onward limit T) (met : T p (some fault) q) (checkpoint : Nat) :
    Leads T p (recover (.reporting limit) keywords base checkpoint fault q) := by
  by_cases room : q.recorded.length < limit
  · exact h.trans (h.record room met) (h.resume keywords base checkpoint fault room)
  · simp only [Recovering.recover, if_pos (Nat.le_of_not_lt room)]
    exact met

/-- What is related to the end of the first member is related to the end of its round. -/
theorem round (h : Onward limit T) (leads : Leads T q (g p)) :
    Leads T q (round (.reporting limit) keywords base g p) := by
  cases read : g p with
  | ok a r =>
    rw [read] at leads
    rw [round_ok read]
    exact leads
  | error fault r =>
    rw [read] at leads
    rw [round_error read]
    exact (h.recover leads p.size).map _

variable {ends : Cursor → Bool} {g : Recovering (List α)}

/-- What is related to the end of the first round is related to the end of all. -/
theorem rounds_first (h : Onward limit T) (hg : ∀ p, Leads T p (g p))
    (continues : ends p.cursor = false) (leads : Leads T q (g p)) :
    Leads T q (rounds ends g p) := by
  induction size : p.size using Nat.strongRecOn generalizing p q with
  | ind size ih =>
    subst size
    cases read : g p with
    | error fault r =>
      rw [read] at leads
      rw [rounds_stop continues read]
      exact leads
    | ok as r =>
      rw [read] at leads
      by_cases less : r.size < p.size
      · have rest : Leads T r (Recovering.rounds ends g r) := by
          cases continues' : ends r.cursor with
          | true =>
            rw [rounds_end continues']
            exact h.refl r
          | false => exact ih r.size less continues' (hg r) rfl
        have whole : Leads T q (Recovering.rounds ends g r) := h.trans leads rest
        rw [rounds_cons continues read less]
        exact whole.map _
      · rw [rounds_last continues read less]
        exact leads

/-- **It goes on through all rounds.** -/
theorem rounds (h : Onward limit T) (hg : ∀ p, Leads T p (g p)) (p : Progress) :
    Leads T p (rounds ends g p) := by
  cases continues : ends p.cursor with
  | true =>
    rw [rounds_end continues]
    exact h.refl p
  | false => exact h.rounds_first hg continues (hg p)

end Onward

/-- What is recorded at one place is the start of what is at another. -/
def Records (p : Progress) (_ : Option SyntaxFault) (q : Progress) : Prop :=
  p.recorded <+: q.recorded

theorem onward_records (n : Nat) : Onward n Records where
  refl _ := List.prefix_rfl
  trans first second := List.IsPrefix.trans first second
  record _ met := List.IsPrefix.trans met (List.prefix_append _ _)
  resume {q} keywords base checkpoint fault room := by
    have recorded : (progress (recover (.reporting n) keywords base checkpoint fault q)).recorded =
        (q.record fault).recorded := recorded_recover checkpoint fault room
    exact ⟨[], (List.append_nil _).trans recorded.symm⟩

theorem leads_records (x : EStateM.Result SyntaxFault Progress α) : Leads Records (progress x) x :=
  List.prefix_rfl

/-! ## Stopping in the middle -/

/-- The first of two results is the second, with fewer than `m` faults recorded, or it is stopped
with `m` faults where the second comes past. -/
def CutBy (T : Progress → Option SyntaxFault → Progress → Prop) (m : Nat)
    (x y : EStateM.Result SyntaxFault Progress α) : Prop :=
  (x = y ∧ (progress y).recorded.length < m) ∨
    ∃ fault q, x = .error fault q ∧ q.recorded.length = m ∧ Leads T q y

theorem CutBy.map (h : CutBy T m (f p) (g p)) (k : α → β) :
    CutBy T m (EStateM.map k f p) (EStateM.map k g p) := by
  rcases h with ⟨same, below⟩ | ⟨fault, q, stops, full, leads⟩
  · refine .inl ⟨?_, ?_⟩
    · rw [EStateM.map, EStateM.map, same]
    · rw [EStateM.map]
      cases result : g p <;> rw [result] at below <;> exact below
  · refine .inr ⟨fault, q, ?_, full, leads.map k⟩
    rw [EStateM.map, stops]

/-- A parser records nothing. -/
theorem CutBy.plain (parser : Parser α) (room : p.recorded.length < m) :
    CutBy T m (parser.plain p) (parser.plain p) := by
  refine .inl ⟨rfl, ?_⟩
  rw [Parser.plain]
  cases parser p.cursor <;> exact room

/-- As long as fewer than `m` faults are recorded both parts of reading do the same, and the first
one stops with the last of them where the second goes on. -/
structure CutsBy (T : Progress → Option SyntaxFault → Progress → Prop) (m : Nat)
    (f g : Recovering α) : Prop where
  leads : ∀ p, Leads T p (g p)
  cut : ∀ {p : Progress}, p.recorded.length < m → CutBy T m (f p) (g p)

namespace CutsBy

theorem bind (h : CutsBy T m f g) (onward : Onward n T) {k l : α → Recovering β}
    (hk : ∀ a, CutsBy T m (k a) (l a)) : CutsBy T m (f >>= k) (g >>= l) where
  leads p := onward.bind (fun a => (hk a).leads) (h.leads p)
  cut {p} room := by
    rcases h.cut room with ⟨same, below⟩ | ⟨fault, q, stops, full, leads⟩
    · cases result : g p with
      | ok a q =>
        rw [result] at same below
        rw [bind_ok same, bind_ok result]
        exact (hk a).cut below
      | error fault q =>
        rw [result] at same below
        rw [bind_error same, bind_error result]
        exact .inl ⟨rfl, below⟩
    · exact .inr ⟨fault, q, bind_error stops, full, onward.bind (fun a => (hk a).leads) leads⟩

end CutsBy

/-- The fault that reaches the lower limit is the last, and any other is recovered from alike. -/
theorem recover_cutBy (onward : Onward n T) (le : m ≤ n) {p : Progress}
    (room : p.recorded.length < m) (checkpoint : Nat) (fault : SyntaxFault) :
    CutBy T m (recover (.reporting m) keywords base checkpoint fault p)
      (recover (.reporting n) keywords base checkpoint fault p) := by
  have length : (p.record fault).recorded.length = p.recorded.length + 1 := by
    simp [Progress.record]
  by_cases last : m ≤ p.recorded.length + 1
  · refine .inr ⟨fault, p.record fault, ?_, by omega,
      onward.resume keywords base checkpoint fault (by omega)⟩
    simp only [recover, length]
    rw [if_neg (by omega), if_pos last]
  · refine .inl ⟨?_, ?_⟩
    · simp only [recover, length]
      rw [if_neg (by omega), if_neg last, if_neg (by omega), if_neg (by omega)]
    · rw [recorded_recover checkpoint fault (by omega), List.length_append, List.length_singleton]
      omega

theorem recover_full {p : Progress} (full : p.recorded.length = m) (checkpoint : Nat)
    (fault : SyntaxFault) :
    recover (.reporting m) keywords base checkpoint fault p = .error fault p := by
  simp [recover, full]

namespace CutsBy

theorem round (h : CutsBy T m f g) (onward : Onward n T) (le : m ≤ n) :
    CutsBy T m (round (.reporting m) keywords base f) (round (.reporting n) keywords base g) where
  leads p := onward.round (h.leads p)
  cut {p} room := by
    rcases h.cut room with ⟨same, below⟩ | ⟨fault, q, stops, full, leads⟩
    · cases result : g p with
      | ok a q =>
        rw [result] at same below
        rw [round_ok same, round_ok result]
        exact .inl ⟨rfl, below⟩
      | error fault q =>
        rw [result] at same below
        rw [round_error same, round_error result]
        exact (recover_cutBy onward le below p.size fault).map _
    · refine .inr ⟨fault, q, ?_, full, onward.round leads⟩
      rw [round_error stops, EStateM.map, recover_full full]

/-- **Rounds stop together**, where those with the higher limit come past. -/
theorem rounds {ends : Cursor → Bool} {f g : Recovering (List α)} (h : CutsBy T m f g)
    (onward : Onward n T) : CutsBy T m (rounds ends f) (rounds ends g) where
  leads := onward.rounds h.leads
  cut {p} room := by
    induction size : p.size using Nat.strongRecOn generalizing p with
    | ind size ih =>
      subst size
      cases continues : ends p.cursor with
      | true =>
        rw [rounds_end continues, rounds_end continues]
        exact .inl ⟨rfl, room⟩
      | false =>
        rcases h.cut room with ⟨same, below⟩ | ⟨fault, q, stops, full, leads⟩
        · cases result : g p with
          | ok as q =>
            rw [result] at same below
            by_cases less : q.size < p.size
            · rw [rounds_cons continues same less, rounds_cons continues result less]
              exact (ih q.size less below rfl).map _
            · rw [rounds_last continues same less, rounds_last continues result less]
              exact .inl ⟨rfl, below⟩
          | error fault q =>
            rw [result] at same below
            rw [rounds_stop continues same, rounds_stop continues result]
            exact .inl ⟨rfl, below⟩
        · rw [rounds_stop continues stops]
          exact .inr ⟨fault, q, rfl, full, onward.rounds_first h.leads continues leads⟩

/-- Blocks of members stop together. -/
theorem members (h : CutsBy T m f g) (onward : Onward n T) (le : m ≤ n) :
    CutsBy T m (members (.reporting m) keywords f) (members (.reporting n) keywords g) := by
  have blocks (base : Nat) : CutsBy T m (membersAt (.reporting m) keywords base f)
      (membersAt (.reporting n) keywords base g) := by
    rw [membersAt_eq_rounds, membersAt_eq_rounds]
    exact (h.round onward le).rounds onward
  exact ⟨fun p => (blocks p.cursor.depth).leads p, fun {p} room => (blocks p.cursor.depth).cut room⟩

end CutsBy

end Compliance.Recovering
