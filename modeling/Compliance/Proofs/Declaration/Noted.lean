import Compliance.Proofs.Declaration.Modes

/-!
# One fault more

What has been recorded has no part in reading but for its number, which is held against
the limit.  So reading with one fault more recorded, and a limit higher by one, is
reading without: the same values, the same cursors, the same faults, and the one fault
stands where it stood.

## Main definitions

* `Progress.noting k fault` — the same progress with one fault more, behind the first `k`.
* `Recovering.Notes k fault f g` — `f` does with the fault what `g` does without.
* `Reader.run_noting` — so does reading a text.
-/

namespace Compliance

variable {k limit : Nat} {fault : SyntaxFault}

/-- A fault among others is not moved by one behind them. -/
theorem insertIdx_concat {α : Type} {l : List α} (h : k ≤ l.length) (a b : α) :
    l.insertIdx k a ++ [b] = (l ++ [b]).insertIdx k a := by
  induction l generalizing k with
  | nil =>
    obtain rfl := Nat.le_zero.mp h
    rfl
  | cons c l ih =>
    cases k with
    | zero => rfl
    | succ k =>
      rw [List.insertIdx_succ_cons, List.cons_append, ih (Nat.le_of_succ_le_succ h),
        List.cons_append, List.insertIdx_succ_cons]

namespace Progress

/-- The same with one fault more, behind the first `k`. -/
def noting (k : Nat) (fault : SyntaxFault) (p : Progress) : Progress :=
  { p with recorded := p.recorded.insertIdx k fault }

@[simp] theorem cursor_noting (p : Progress) : (p.noting k fault).cursor = p.cursor := rfl

theorem length_noting {p : Progress} (h : k ≤ p.recorded.length) :
    (p.noting k fault).recorded.length = p.recorded.length + 1 :=
  List.length_insertIdx_of_le_length h _

theorem record_noting {p : Progress} (h : k ≤ p.recorded.length) (more : SyntaxFault) :
    (p.noting k fault).record more = (p.record more).noting k fault :=
  congrArg (Progress.mk p.cursor) (insertIdx_concat h fault more)

end Progress

namespace Recovering

variable {α β : Type}

/-- The same result with one fault more. -/
def noting (k : Nat) (fault : SyntaxFault) :
    EStateM.Result SyntaxFault Progress α → EStateM.Result SyntaxFault Progress α
  | .ok a p => .ok a (p.noting k fault)
  | .error stop p => .error stop (p.noting k fault)

/-- Reading with one fault more recorded is reading without, and what is recorded stays. -/
structure Notes (k : Nat) (fault : SyntaxFault) (f g : Recovering α) : Prop where
  grows : Grows g
  same : ∀ {p : Progress}, k ≤ p.recorded.length →
    f (p.noting k fault) = noting k fault (g p)

variable {f g : Recovering α} {keywords : List String}

/-! ## Parts in sequence -/

theorem notes_plain (parser : Parser α) : Notes k fault parser.plain parser.plain where
  grows := (agrees_plain parser).grows
  same {p} _ := by
    rw [Parser.plain, Parser.plain, Progress.cursor_noting]
    cases parser p.cursor <;> rfl

theorem Notes.bind {l m : α → Recovering β} (h : Notes k fault f g)
    (hk : ∀ a, Notes k fault (l a) (m a)) : Notes k fault (f >>= l) (g >>= m) where
  grows := h.grows.bind fun a => (hk a).grows
  same {p} hp := by
    have first := h.same hp
    have room : k ≤ (progress (g p)).recorded.length := Nat.le_trans hp (h.grows p).length_le
    cases hg : g p with
    | ok a q =>
      rw [hg] at first room
      rw [bind_ok hg, bind_ok first]
      exact (hk a).same room
    | error stop q =>
      rw [hg] at first
      rw [bind_error hg, bind_error first]
      rfl

/-! ## Members -/

theorem recover_noting {p : Progress} (hp : k ≤ p.recorded.length) (base checkpoint : Nat)
    (stop : SyntaxFault) :
    recover (.reporting (limit + 1)) keywords base checkpoint stop (p.noting k fault) =
      noting k fault (recover (.reporting limit) keywords base checkpoint stop p) := by
  have room : k ≤ (p.record stop).recorded.length := by
    simp only [Progress.record, List.length_append]
    omega
  simp only [recover, Progress.record_noting hp, Progress.length_noting hp,
    Progress.length_noting room, Nat.add_le_add_iff_right]
  split
  · rfl
  · split <;> rfl

namespace Notes

variable {p q r : Progress} {base : Nat}

theorem value (h : Notes k fault f g) (hp : k ≤ p.recorded.length) {a : α} (hg : g p = .ok a q) :
    f (p.noting k fault) = .ok a (q.noting k fault) ∧ k ≤ q.recorded.length := by
  have first := h.same hp
  have grown := Nat.le_trans hp (h.grows p).length_le
  rw [hg] at first grown
  exact ⟨first, grown⟩

theorem error (h : Notes k fault f g) (hp : k ≤ p.recorded.length) {stop : SyntaxFault}
    (hg : g p = .error stop q) :
    f (p.noting k fault) = .error stop (q.noting k fault) ∧ k ≤ q.recorded.length := by
  have first := h.same hp
  have grown := Nat.le_trans hp (h.grows p).length_le
  rw [hg] at first grown
  exact ⟨first, grown⟩

/-- Both are recovered from. -/
theorem recovered (h : Notes k fault f g) (hp : k ≤ p.recorded.length) {stop : SyntaxFault}
    (hg : g p = .error stop q)
    (hr : recover (.reporting limit) keywords base p.size stop q = .ok () r) :
    f (p.noting k fault) = .error stop (q.noting k fault) ∧
      recover (.reporting (limit + 1)) keywords base p.size stop (q.noting k fault) =
        .ok () (r.noting k fault) ∧ k ≤ r.recorded.length := by
  obtain ⟨first, room⟩ := h.error hp hg
  have kept : q.recorded <+:
      (progress (recover (.reporting limit) keywords base p.size stop q)).recorded :=
    grows_recover p.size stop q
  rw [hr] at kept
  refine ⟨first, ?_, Nat.le_trans room kept.length_le⟩
  rw [recover_noting room, hr]
  rfl

/-- Neither is recovered from. -/
theorem stopped (h : Notes k fault f g) (hp : k ≤ p.recorded.length) {stop stop' : SyntaxFault}
    (hg : g p = .error stop q)
    (hr : recover (.reporting limit) keywords base p.size stop q = .error stop' r) :
    f (p.noting k fault) = .error stop (q.noting k fault) ∧
      recover (.reporting (limit + 1)) keywords base p.size stop (q.noting k fault) =
        .error stop' (r.noting k fault) := by
  obtain ⟨first, room⟩ := h.error hp hg
  refine ⟨first, ?_⟩
  rw [recover_noting room, hr]
  rfl

end Notes

theorem notes_membersAt (h : Notes k fault f g) (base : Nat) :
    Notes k fault (membersAt (.reporting (limit + 1)) keywords base f)
      (membersAt (.reporting limit) keywords base g) where
  grows := grows_membersAt h.grows
  same {p} hp := by
    induction p using round_induction atBlockEnd_or (.reporting limit) keywords base g with
    | finish p ends =>
      rw [membersAt_end (s := p) ends, membersAt_end (s := p.noting k fault) ends]
      rfl
    | more p a q continues hg less ih =>
      obtain ⟨first, room⟩ := h.value hp hg
      rw [membersAt_cons continues hg less,
        membersAt_cons (s := p.noting k fault) continues first less, EStateM.map, EStateM.map,
        ih room]
      cases membersAt (.reporting limit) keywords base g q <;> rfl
    | last p a q continues hg less =>
      obtain ⟨first, -⟩ := h.value hp hg
      rw [membersAt_last continues hg less,
        membersAt_last (s := p.noting k fault) continues first less]
      rfl
    | past p stop q r continues hg hr less ih =>
      obtain ⟨first, recovers, room⟩ := h.recovered hp hg hr
      rw [membersAt_recover continues hg hr less,
        membersAt_recover (s := p.noting k fault) continues first recovers less]
      exact ih room
    | rest p stop q r continues hg hr less =>
      obtain ⟨first, recovers, -⟩ := h.recovered hp hg hr
      rw [membersAt_recover_last continues hg hr less,
        membersAt_recover_last (s := p.noting k fault) continues first recovers less]
      rfl
    | stop p stop q stop' r continues hg hr =>
      obtain ⟨first, stops⟩ := h.stopped hp hg hr
      rw [membersAt_stop continues hg hr,
        membersAt_stop (s := p.noting k fault) continues first stops]
      rfl

theorem notes_members (h : Notes k fault f g) :
    Notes k fault (members (.reporting (limit + 1)) keywords f)
      (members (.reporting limit) keywords g) where
  grows p := (notes_membersAt h p.cursor.depth).grows p
  same {p} hp := (notes_membersAt h p.cursor.depth).same hp

end Recovering

namespace Reader

open Declaration Recovering

variable {file : String}

/-! ## Declarations -/

theorem congruence_notes :
    Congruence (.reporting (limit + 1)) (.reporting limit) (Notes k fault) where
  plain := notes_plain
  bind := Notes.bind
  members _ := notes_members

theorem notes_groupMember (levels : Nat) :
    Notes k fault (groupMember ⟨file, .reporting (limit + 1)⟩ levels)
      (groupMember ⟨file, .reporting limit⟩ levels) :=
  congruence_notes.groupMember levels

theorem notes_moduleMember (levels : Nat) {f g : Recovering Module} (h : Notes k fault f g) :
    Notes k fault (moduleMember ⟨file, .reporting (limit + 1)⟩ levels f)
      (moduleMember ⟨file, .reporting limit⟩ levels g) :=
  congruence_notes.moduleMember levels h

theorem notes_module (levels : Nat) :
    Notes k fault (module ⟨file, .reporting (limit + 1)⟩ levels)
      (module ⟨file, .reporting limit⟩ levels) :=
  congruence_notes.module levels

theorem notes_planMember (levels : Nat) :
    Notes k fault (planMember ⟨file, .reporting (limit + 1)⟩ levels)
      (planMember ⟨file, .reporting limit⟩ levels) :=
  congruence_notes.planMember levels

/-! ## Texts -/

/-- The same outcome with one fault more. -/
def Outcome.noting (k : Nat) (fault : SyntaxFault) (o : Outcome) : Outcome :=
  { o with recorded := o.recorded.insertIdx k fault }

/-- **Reading with one fault more recorded is reading without**, if there is room for one more. -/
theorem run_noting (kind : DeclarationKind) {p : Progress} (hp : k ≤ p.recorded.length) :
    run ⟨file, .reporting (limit + 1)⟩ kind (p.noting k fault) =
      (run ⟨file, .reporting limit⟩ kind p).noting k fault := by
  have top : Notes k fault (topLevel ⟨file, .reporting (limit + 1)⟩ kind)
      (topLevel ⟨file, .reporting limit⟩ kind) :=
    congruence_notes.topLevel kind
  induction p using round_induction eof_or (.reporting limit) topKeywords 0
    (topLevel ⟨file, .reporting limit⟩ kind) with
  | finish p ended =>
    rw [run_eof ended, run_eof (p := p.noting k fault) ended]
    rfl
  | more p d q continues hg less ih =>
    obtain ⟨first, room⟩ := top.value hp hg
    rw [run_cons continues hg less, run_cons (p := p.noting k fault) continues first less, ih room]
    rfl
  | last p d q continues hg less =>
    obtain ⟨first, -⟩ := top.value hp hg
    rw [run_last continues hg less, run_last (p := p.noting k fault) continues first less]
    rfl
  | past p stop q r continues hg hr less ih =>
    obtain ⟨first, recovers, room⟩ := top.recovered hp hg hr
    rw [run_recover continues hg hr less,
      run_recover (p := p.noting k fault) continues first recovers less]
    exact ih room
  | rest p stop q r continues hg hr less =>
    obtain ⟨first, recovers, -⟩ := top.recovered hp hg hr
    rw [run_recover_last continues hg hr less,
      run_recover_last (p := p.noting k fault) continues first recovers less]
    rfl
  | stop p stop q stop' r continues hg hr =>
    obtain ⟨first, stops⟩ := top.stopped hp hg hr
    rw [run_stop continues hg hr, run_stop (p := p.noting k fault) continues first stops]
    rfl

end Reader

end Compliance
