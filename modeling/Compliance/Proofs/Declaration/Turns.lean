import Compliance.Proofs.Declaration.Passing

/-!
# Every round moves on

Nothing that is repeated while a text is read can be repeated for ever.  What has a value
has passed a token.  A fault may show at the very first token of a member; but there a
keyword of the block does not stop the skipping, and the brace that closes the block is no
start of a member, so that this token is passed when reading goes on.  At the top, where a
closing brace has no block to close, it is passed with its fault.

So rounds come to an end by themselves.  Those that texts and the members of blocks are read
with make a test after each whether it has moved on; it makes no difference.

## Main definitions

* `Cursor.skip_behind_iff` — when skipping passes the token that it starts at.
* `Recovering.MovesOn` — each round passes a token.
* `Recovering.Turns` — so many rounds, each behind the one before.
* `Recovering.Advance` — rounds move on, and come to an end with what a reading has.
* `Recovering.membersMoveOn`, `Reader.textMovesOn` — the members of a block and the
  declarations of a text are read in such rounds.
-/

namespace Compliance

open Declaration

/-! ## Skipping -/

namespace Cursor

variable {c : Cursor}

/-- **Skipping from where a member starts passes a token**, unless it starts at the end of the text
or at the brace that closes the block. -/
theorem skip_behind_iff (ended : c.Ended) (keywords : List String) (base : Nat) :
    (c.skip keywords base c.size).Behind c ↔
      c.token ≠ .eof ∧ (c.token = .braceClose → base < c.depth) := by
  obtain ⟨current, ahead, depth⟩ := c
  cases ahead with
  | nil =>
    have last : current.token = .eof := by
      by_contra other
      exact ended.ahead_ne_nil other rfl
    simp [Behind, placed, token, last]
  | cons next more =>
    -- Either skipping stays in front of the current token, or it goes on from the next.
    have stays (depth : Nat) : ¬ (⟨current, next :: more, depth⟩ : Cursor).placed <:+
        next :: more := fun suffix => absurd suffix.length_le (by simp [placed])
    have onward (depth : Nat) :
        (skipFrom keywords base (more.length + 1) depth next more).placed <:+ next :: more :=
      (Recovering.skipFrom_even keywords base _ depth next more).1
    simp only [skip, Behind, token, size, List.length_cons, skipFrom]
    split
    · next last => simp [last, stays]
    · next opens => simp [opens, onward]
    · next closes =>
      simp only [closes]
      split
      · simp [stays]; omega
      · split
        · simp [placed]; omega
        · simp [onward]; omega
    · next text word => simp [word, onward]
    · next eof _ close _ => exact iff_of_true (onward _) ⟨eof, fun closes => absurd closes close⟩

/-- A keyword that a faulty member starts with stops no skipping, but the next one does. -/
example : (⟨⟨.word "use", .start⟩, [⟨.word "use", .start⟩, ⟨.eof, .start⟩], 1⟩ : Cursor).skip
    ["set", "use"] 1 2 = ⟨⟨.word "use", .start⟩, [⟨.eof, .start⟩], 1⟩ := by
  decide

end Cursor

/-! ## Rounds -/

namespace Recovering

variable {α : Type} {mode : Mode} {keywords : List String} {base n : Nat} {f : Recovering α}
  {p q r : Progress} {fault : SyntaxFault}

theorem recover_skips {checkpoint : Nat}
    (result : recover mode keywords base checkpoint fault p = .ok () q) :
    q.cursor = p.cursor.skip keywords base checkpoint := by
  cases mode with
  | failFast => cases result
  | reporting limit =>
    simp only [recover] at result
    split at result
    · cases result
    · split at result <;> cases result
      rfl

theorem forward_recover (checkpoint : Nat) (fault : SyntaxFault) :
    Forward (recover mode keywords base checkpoint fault) := by
  intro p
  cases result : recover mode keywords base checkpoint fault p with
  | ok u q => exact (recover_even result).1
  | error stop q => simp [progress, recover_stops result]

/-- Going on behind a fault passes the token that the faulty member starts at, also where the fault
shows at that token. -/
theorem recover_behind (ended : p.cursor.Ended) (continues : p.cursor.token ≠ .eof)
    (inside : p.cursor.token ≠ .braceClose) (suffix : q.cursor.placed <:+ p.cursor.placed)
    (recovers : recover mode keywords base p.size fault q = .ok () r) :
    r.cursor.Behind p.cursor := by
  rcases List.suffix_cons_iff.mp suffix with same | behind
  · -- The fault shows at the first token, so skipping starts there.
    obtain ⟨current, ahead⟩ := List.cons.inj same
    have token : q.cursor.token = p.cursor.token := congrArg Placed.token current
    have size : q.cursor.size = p.size := congrArg List.length ahead
    have skipped : (q.cursor.skip keywords base p.size).Behind q.cursor := by
      rw [← size, Cursor.skip_behind_iff (ended.of_suffix suffix), token]
      exact ⟨continues, fun closes => absurd closes inside⟩
    rw [← recover_skips recovers] at skipped
    exact skipped.of_suffix suffix
  · exact Cursor.Behind.onward behind (recover_even recovers).1

section

variable {ends : Cursor → Bool} {part : Recovering (List α)} {as : List α}
  {s : Option SyntaxFault}

/-- Each round passes a token, up to where a test says that there is nothing more. -/
def MovesOn (ends : Cursor → Bool) (part : Recovering (List α)) : Prop :=
  ∀ ⦃p as q⦄, p.cursor.Ended → ends p.cursor = false → part p = .ok as q → q.cursor.Behind p.cursor

/-- Rounds from one place to another, so many of them, with what they have read, and the fault that
the last one has stopped at if it has.  There is no test whether a round moves on. -/
inductive Turns (ends : Cursor → Bool) (part : Recovering (List α)) :
    Progress → Nat → List α → Option SyntaxFault → Progress → Prop
  | ended {p : Progress} : ends p.cursor = true → Turns ends part p 0 [] none p
  | turn {p q r : Progress} {n : Nat} {as bs : List α} {s : Option SyntaxFault} :
    ends p.cursor = false → part p = .ok as q → Turns ends part q n bs s r →
    Turns ends part p (n + 1) (as ++ bs) s r
  | stopped {p q : Progress} {fault : SyntaxFault} : ends p.cursor = false →
    part p = .error fault q → Turns ends part p 1 [] (some fault) q

/-- **Rounds that move on come to an end.** -/
theorem MovesOn.exists_turns (h : MovesOn ends part) (ended : p.cursor.Ended) :
    ∃ n as s q, Turns ends part p n as s q := by
  induction size : p.size using Nat.strongRecOn generalizing p with
  | ind size ih =>
    subst size
    cases continues : ends p.cursor with
    | true => exact ⟨0, [], none, p, .ended continues⟩
    | false =>
      cases result : part p with
      | ok as q =>
        have behind := h ended continues result
        have less : q.size < p.size := behind.size_lt
        obtain ⟨n, bs, s, r, more⟩ := ih q.size less (ended.of_suffix behind.suffix) rfl
        exact ⟨n + 1, as ++ bs, s, r, .turn continues result more⟩
      | error fault q => exact ⟨1, [], some fault, q, .stopped continues result⟩

/-- **There are no more of them than tokens** in front of the end of the text. -/
theorem Turns.le_size (h : Turns ends part p n as s q) (moves : MovesOn ends part)
    (last : ∀ c : Cursor, ends c = false → c.token ≠ .eof) (ended : p.cursor.Ended) :
    n ≤ p.size := by
  induction h with
  | ended => exact Nat.zero_le _
  | stopped continues => exact List.length_pos_of_ne_nil (ended.ahead_ne_nil (last _ continues))
  | @turn p q _ _ _ _ _ continues read _ ih =>
    have behind := moves ended continues read
    have less : q.size < p.size := behind.size_lt
    have rest := ih (ended.of_suffix behind.suffix)
    omega

/-- What rounds leave off with. -/
def leftWith (as : List α) (q : Progress) :
    Option SyntaxFault → EStateM.Result SyntaxFault Progress (List α)
  | none => .ok as q
  | some fault => .error fault q

/-- As each of them moves on, the test whether it does makes no difference. -/
theorem Turns.rounds_eq (h : Turns ends part p n as s q) (moves : MovesOn ends part)
    (ended : p.cursor.Ended) : rounds ends part p = leftWith as q s := by
  induction h with
  | ended done => exact rounds_end done
  | stopped continues stops => exact rounds_stop continues stops
  | @turn p q r n as bs s continues read more ih =>
    have behind := moves ended continues read
    rw [rounds_cons continues read behind.size_lt, EStateM.map, ih (ended.of_suffix behind.suffix)]
    cases s <;> rfl

end

/-- Rounds of a part that moves forward move on, if what it reads passes a token, and if a closing
brace is only met where it is passed with its fault. -/
theorem movesOn_round {ends : Cursor → Bool} (forward : Forward f)
    (passes : ∀ p : Progress, p.cursor.Ended → f.Passes p)
    (last : ∀ c : Cursor, ends c = false → c.token ≠ .eof)
    (closes : ∀ {p q : Progress} {fault : SyntaxFault}, p.cursor.Ended → ends p.cursor = false →
      p.cursor.token = .braceClose → f p = .error fault q → q.cursor.Behind p.cursor) :
    MovesOn ends (round mode keywords base f) := by
  intro p as r ended continues result
  rcases round_ok_cases result with ⟨a, read, -⟩ | ⟨fault, q, stops, recovers, -⟩
  · exact passes p ended read
  · by_cases brace : p.cursor.token = .braceClose
    · exact (closes ended continues brace stops).onward (recover_even recovers).1
    · have suffix := forward p
      rw [stops] at suffix
      exact recover_behind ended (last _ continues) brace suffix recovers

/-- Rounds of a kind move on: each passes a token, and they come to an end by themselves, after no
more of them than there are tokens, and with what a reading has. -/
structure Advance (ends : Cursor → Bool) (part : Recovering (List α))
    (Reads : Progress → List α → Option SyntaxFault → Progress → Prop) : Prop where
  moves : MovesOn ends part
  finish : ∀ p : Progress, p.cursor.Ended → ∃ n as s q, Turns ends part p n as s q
  few : ∀ {p q : Progress} {n : Nat} {as : List α} {s : Option SyntaxFault}, p.cursor.Ended →
    Turns ends part p n as s q → n ≤ p.size ∧ Reads p as s q

/-- The members of a block are read in rounds that move on. -/
def MembersMoveOn (mode : Mode) (keywords : List String) (base : Nat) (member : Recovering α) :
    Prop :=
  Advance Cursor.atBlockEnd (round mode keywords base member) fun p as s q =>
    membersAt mode keywords base member p = leftWith as q s

/-- **Members of a block that pass a token are read in rounds that move on.** -/
theorem membersMoveOn (forward : Forward f)
    (passes : ∀ p : Progress, p.cursor.Ended → f.Passes p) :
    MembersMoveOn mode keywords base f := by
  have inside (c : Cursor) (continues : c.atBlockEnd = false) :
      c.token ≠ .braceClose ∧ c.token ≠ .eof := by
    simpa [Cursor.atBlockEnd] using continues
  have last (c : Cursor) (continues : c.atBlockEnd = false) : c.token ≠ .eof :=
    (inside c continues).2
  have moves : MovesOn Cursor.atBlockEnd (round mode keywords base f) :=
    movesOn_round forward passes last fun {p _ _} _ continues brace _ =>
      absurd brace (inside p.cursor continues).1
  refine ⟨moves, fun p => moves.exists_turns, fun {p q n as s} ended turns => ?_⟩
  refine ⟨turns.le_size moves last ended, ?_⟩
  rw [membersAt_eq_rounds]
  exact turns.rounds_eq moves ended

end Recovering

/-! ## Texts -/

namespace Reader

open Recovering

variable {p : Progress}

/-- A brace that closes nothing is passed with its fault. -/
theorem behind_strayBrace {reader : Reader} {kind : DeclarationKind} {q : Progress}
    {fault : SyntaxFault} (ended : p.cursor.Ended) (brace : p.cursor.token = .braceClose)
    (stops : reader.topLevel kind p = .error fault q) : q.cursor.Behind p.cursor := by
  rw [topLevel_eq, if_pos brace] at stops
  cases stops
  exact ended.behind_advance (by simp [brace])

/-- The declarations of a text are read in rounds that move on. -/
def TextMovesOn (reader : Reader) (kind : DeclarationKind) : Prop :=
  Advance (fun c => c.token = .eof) (round reader.mode topKeywords 0 (reader.topLevel kind))
    fun p as s q => reader.run kind p = ⟨as, q.recorded, s⟩

/-- Where the rounds of a text come to an end by themselves, there they do as they are read. -/
theorem run_of_turns {reader : Reader} {kind : DeclarationKind} {n : Nat} {q : Progress}
    {ds : List Declaration} {s : Option SyntaxFault}
    (moves : MovesOn (fun c => c.token = .eof)
      (round reader.mode topKeywords 0 (reader.topLevel kind)))
    (h : Turns (fun c => c.token = .eof) (round reader.mode topKeywords 0 (reader.topLevel kind))
      p n ds s q) (ended : p.cursor.Ended) : reader.run kind p = ⟨ds, q.recorded, s⟩ := by
  induction h with
  | ended done => exact run_eof (of_decide_eq_true done)
  | stopped continues stops =>
    obtain ⟨fault, r, read, stops⟩ := round_error_cases stops
    exact run_stop (of_decide_eq_false continues) read stops
  | turn continues result _ ih =>
    have behind := moves ended continues result
    have rest := ih (ended.of_suffix behind.suffix)
    rcases round_ok_cases result with ⟨d, read, rfl⟩ | ⟨fault, r, read, recovers, rfl⟩
    · rw [run_cons (of_decide_eq_false continues) read behind.size_lt, rest]
      rfl
    · rw [run_recover (of_decide_eq_false continues) read recovers behind.size_lt, rest]
      rfl

/-- **Texts are read in rounds that move on.** -/
theorem textMovesOn (file : String) (limit : Nat) (kind : DeclarationKind) :
    TextMovesOn ⟨file, .reporting limit⟩ kind := by
  have forward : Forward (topLevel ⟨file, .reporting limit⟩ kind) :=
    ((forward_trails limit).topLevel kind).forward
  have last (c : Cursor) (continues : decide (c.token = .eof) = false) : c.token ≠ .eof :=
    of_decide_eq_false continues
  have moves : MovesOn (fun c => c.token = .eof)
      (round (.reporting limit) topKeywords 0 (topLevel ⟨file, .reporting limit⟩ kind)) :=
    movesOn_round forward (fun _ => passes_topLevel kind) last
      fun ended _ brace stops => behind_strayBrace ended brace stops
  exact ⟨moves, fun p => moves.exists_turns, fun ended turns =>
    ⟨turns.le_size moves last ended, run_of_turns moves turns ended⟩⟩

end Reader

end Compliance
