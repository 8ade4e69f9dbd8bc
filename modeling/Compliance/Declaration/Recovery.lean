import Compliance.Declaration.Parser

/-!
# Going on behind a fault

A source text is read in one of two modes.  The first stops at the first fault.
The second records faults up to a limit and goes on behind each at the next
member of the block it was found in: a keyword of that block, or the end of the
block that the fault left open.  Once the limit is reached, reading stops at all
levels.

## Main definitions

* `Mode` — the two modes.
* `Progress` — a cursor and the faults recorded on the way.
* `Recovering` — a parser that records.
* `Cursor.skip` — the next place to go on at.
* `Resuming` — the states that declarations with members are written for.
* `Recovering.members` — the members of a block.
* `Recovering.round_induction` — induction on the rounds in which members, or the declarations of a
  text, are read.
-/

namespace Compliance

/-- What happens at a fault. -/
inductive Mode where
  /-- Reading stops. -/
  | failFast
  /-- The fault is recorded, and reading goes on until there are as many as the limit. -/
  | reporting (limit : Nat)
deriving DecidableEq, Repr

/-- The mode that records as many faults as asked for, and at least one. -/
def Mode.upTo (limit : Nat) : Mode := .reporting (max limit 1)

/-- A cursor and the faults recorded before it, in order. -/
structure Progress where
  cursor : Cursor
  recorded : List SyntaxFault
deriving DecidableEq, Inhabited

namespace Progress

/-- How many tokens lie ahead. -/
def size (p : Progress) : Nat := p.cursor.size

def record (p : Progress) (fault : SyntaxFault) : Progress :=
  { p with recorded := p.recorded ++ [fault] }

end Progress

/-- What moves a cursor on and may record faults, and has a value or stops at a fault. -/
abbrev Recovering (α : Type) := Reading Progress α

/-- A parser that stops at its first fault, among recorded faults. -/
def Parser.plain {α : Type} (parser : Parser α) : Recovering α := fun p =>
  match parser p.cursor with
  | .ok a cursor => .ok a { p with cursor }
  | .error fault cursor => .error fault { p with cursor }

/-! ## Skipping -/

/-- The place to go on at behind a fault in a block with `base` open blocks around its members,
from a current token with `depth` open ones.  Going on stops in front of a keyword of the block,
unless it is where the faulty member began, with `checkpoint` tokens ahead; in front of the
brace that closes the block; and behind the one that closes the last block left open. -/
def skipFrom (keywords : List String) (base checkpoint depth : Nat) (current : Placed) :
    List Placed → Cursor
  | [] => ⟨current, [], base⟩
  | next :: more =>
    match current.token with
    | .eof => ⟨current, next :: more, base⟩
    | .braceOpen => skipFrom keywords base checkpoint (depth + 1) next more
    | .braceClose =>
      if depth ≤ base then ⟨current, next :: more, base⟩
      else if depth - 1 = base then ⟨next, more, base⟩
      else skipFrom keywords base checkpoint (depth - 1) next more
    | .word text =>
      if depth = base ∧ more.length + 1 < checkpoint ∧ keywords.contains text then
        ⟨current, next :: more, base⟩
      else skipFrom keywords base checkpoint depth next more
    | _ => skipFrom keywords base checkpoint depth next more

/-- The place to go on at behind a fault. -/
def Cursor.skip (c : Cursor) (keywords : List String) (base checkpoint : Nat) : Cursor :=
  skipFrom keywords base checkpoint (max c.depth base) c.current c.ahead

namespace Recovering

/-- Records a fault and goes on behind it.  Reading stops instead in the mode without recording,
and once the limit is reached; the fault that reaches it is still recorded. -/
def recover (mode : Mode) (keywords : List String) (base checkpoint : Nat) (fault : SyntaxFault) :
    Recovering Unit := fun p =>
  match mode with
  | .failFast => .error fault p
  | .reporting limit =>
    if limit ≤ p.recorded.length then .error fault p
    else
      let q := p.record fault
      if limit ≤ q.recorded.length then .error fault q
      else .ok () { q with cursor := q.cursor.skip keywords base checkpoint }

end Recovering

/-- A state of reading that declarations with members are written for. -/
class Resuming (σ : Type) extends Parsing σ where
  /-- The faults recorded so far. -/
  recorded : σ → List SyntaxFault
  /-- Records a fault and goes on behind it, or stops. -/
  recover : Mode → List String → Nat → Nat → SyntaxFault → Reading σ Unit
  /-- A rule, which is read whole or not at all. -/
  rule : String → Nat → Reading σ Declaration.Rule
  /-- How many levels of blocks a text is read with. -/
  levels : Nat

/-- Beside its cursor, what is known is the faults. -/
@[default_instance] instance : Resuming Progress where
  cursor := Progress.cursor
  take := Parser.plain
  enter _ act := act
  openBlock := Parser.openBlock.plain
  inside act := act
  recorded := Progress.recorded
  recover := Recovering.recover
  rule file levels := Parser.plain (Parser.rule file levels)
  levels := maxNesting

@[simp] theorem HasCursor.cursor_progress (p : Progress) : cursor p = p.cursor := rfl

/-! ## Members -/

namespace Recovering

section

open HasCursor

variable {σ : Type} [Resuming σ] {α : Type}

/-- The members of a block with `base` open blocks around them, up to its end.  A faulty member
is left out.  Each round moves on; one that did not would be the last. -/
def membersAt (mode : Mode) (keywords : List String) (base : Nat) (member : Reading σ α) :
    Reading σ (List α) := fun s =>
  if (cursor s).atBlockEnd then .ok [] s
  else
    match member s with
    | .ok a t =>
      if (cursor t).size < (cursor s).size then
        match membersAt mode keywords base member t with
        | .ok more u => .ok (a :: more) u
        | .error fault u => .error fault u
      else .ok [a] t
    | .error fault t =>
      match Resuming.recover mode keywords base (cursor s).size fault t with
      | .ok _ u =>
        if (cursor u).size < (cursor s).size then membersAt mode keywords base member u
        else .ok [] u
      | .error fault u => .error fault u
termination_by s => (cursor s).size

variable {mode : Mode} {keywords : List String} {base : Nat} {member : Reading σ α} {s t u : σ}
  {a : α} {fault stop : SyntaxFault}

theorem membersAt_end (ends : (cursor s).atBlockEnd = true) :
    membersAt mode keywords base member s = .ok [] s := by
  rw [membersAt, if_pos ends]

theorem membersAt_cons (continues : (cursor s).atBlockEnd = false) (read : member s = .ok a t)
    (less : (cursor t).size < (cursor s).size) : membersAt mode keywords base member s =
      EStateM.map (a :: ·) (membersAt mode keywords base member) t := by
  rw [membersAt, if_neg (by simp [continues]), read, EStateM.map]
  cases behind : membersAt mode keywords base member t <;> simp only [if_pos less, behind]

/-- A member that does not move on is the last. -/
theorem membersAt_last (continues : (cursor s).atBlockEnd = false) (read : member s = .ok a t)
    (last : ¬ (cursor t).size < (cursor s).size) :
    membersAt mode keywords base member s = .ok [a] t := by
  rw [membersAt, if_neg (by simp [continues]), read]
  simp only [if_neg last]

theorem membersAt_stop (continues : (cursor s).atBlockEnd = false)
    (read : member s = .error fault t)
    (stops : Resuming.recover mode keywords base (cursor s).size fault t = .error stop u) :
    membersAt mode keywords base member s = .error stop u := by
  rw [membersAt, if_neg (by simp [continues]), read]
  simp only [stops]

theorem membersAt_recover (continues : (cursor s).atBlockEnd = false)
    (read : member s = .error fault t)
    (recovers : Resuming.recover mode keywords base (cursor s).size fault t = .ok () u)
    (less : (cursor u).size < (cursor s).size) :
    membersAt mode keywords base member s = membersAt mode keywords base member u := by
  rw [membersAt, if_neg (by simp [continues]), read]
  simp only [recovers, if_pos less]

theorem membersAt_recover_last (continues : (cursor s).atBlockEnd = false)
    (read : member s = .error fault t)
    (recovers : Resuming.recover mode keywords base (cursor s).size fault t = .ok () u)
    (last : ¬ (cursor u).size < (cursor s).size) :
    membersAt mode keywords base member s = .ok [] u := by
  rw [membersAt, if_neg (by simp [continues]), read]
  simp only [recovers, if_neg last]

/-- Induction on rounds of a part up to where a test says that there are no more: the part is read,
with others behind it or as the last, or its fault is recovered from, with others behind it or as
the last, or is not. -/
theorem round_induction {ends continues : σ → Prop} (either : ∀ s, ends s ∨ continues s)
    (mode : Mode) (keywords : List String) (base : Nat) (part : Reading σ α) {motive : σ → Prop}
    (finish : ∀ s, ends s → motive s)
    (more : ∀ s a t, continues s → part s = .ok a t → (cursor t).size < (cursor s).size →
      motive t → motive s)
    (last : ∀ s a t, continues s → part s = .ok a t → ¬ (cursor t).size < (cursor s).size →
      motive s)
    (past : ∀ s fault t u, continues s → part s = .error fault t →
      Resuming.recover mode keywords base (cursor s).size fault t = .ok () u →
      (cursor u).size < (cursor s).size → motive u → motive s)
    (rest : ∀ s fault t u, continues s → part s = .error fault t →
      Resuming.recover mode keywords base (cursor s).size fault t = .ok () u →
      ¬ (cursor u).size < (cursor s).size → motive s)
    (stop : ∀ s fault t stop u, continues s → part s = .error fault t →
      Resuming.recover mode keywords base (cursor s).size fault t = .error stop u → motive s)
    (s : σ) : motive s := by
  induction size : (cursor s).size using Nat.strongRecOn generalizing s with
  | ind size ih =>
    subst size
    rcases either s with done | continues
    · exact finish s done
    cases read : part s with
    | ok a t =>
      by_cases less : (cursor t).size < (cursor s).size
      · exact more s a t continues read less (ih _ less t rfl)
      · exact last s a t continues read less
    | error fault t =>
      cases recovers : Resuming.recover mode keywords base (cursor s).size fault t with
      | error stops u => exact stop s fault t stops u continues read recovers
      | ok _ u =>
        by_cases less : (cursor u).size < (cursor s).size
        · exact past s fault t u continues read recovers less (ih _ less u rfl)
        · exact rest s fault t u continues read recovers less

/-- The test for members. -/
theorem atBlockEnd_or (s : σ) : (cursor s).atBlockEnd = true ∨ (cursor s).atBlockEnd = false :=
  Bool.eq_false_or_eq_true _

/-- The test for the declarations of a text. -/
theorem eof_or (s : σ) : (cursor s).token = .eof ∨ (cursor s).token ≠ .eof := Decidable.em _

/-- The members of the innermost open block. -/
def members (mode : Mode) (keywords : List String) (member : Reading σ α) : Reading σ (List α) :=
  fun s => membersAt mode keywords (cursor s).depth member s

end

end Recovering

end Compliance
