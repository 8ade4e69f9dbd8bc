import Compliance.Proofs.Declaration.Forward
import Compliance.Proofs.Declaration.Fragments
import Compliance.Proofs.Declaration.Onward
import Compliance.Proofs.Declaration.Recovered
import Compliance.Proofs.Token.Layout

/-!
# Faults in the order of the text

Faults are recorded at several depths of blocks, some are met again by the block around,
and operands are judged when they have been passed.  Yet reading only ever moves forward,
in parsers and in what is skipped behind a fault, and comes past the token of a fault
before it records it.  So faults are recorded in the order of the text.

With a limit for the faults reading stops as soon as there are so many, and stands where
the last one has been recorded.  A reading with a higher limit comes past that place, and
moves forward from there to where it stops itself.

## Main definitions

* `Recovering.Trails limit p s q` — from `p` reading has moved forward to `q`, past the tokens of
  all faults that have been recorded since.
* `Reader.stand` — where reading stands when it stops.
* `Declaration.errors_in_order` — the errors of a text stand in order, and so does reading.
-/

namespace Compliance

open Declaration

namespace Recovering

variable {α : Type} {m n limit : Nat} {p q : Progress}

/-! ## Trails of faults -/

/-- The fault that reading stops at, if it has still to be recorded. -/
def pending (limit : Nat) (s : Option SyntaxFault) (q : Progress) : List SyntaxFault :=
  if q.recorded.length < limit then s.toList else []

@[simp] theorem pending_none : pending limit none q = [] := by simp [pending]

theorem trail_pending {c d : Cursor} {fault : SyntaxFault} (h : c.Trail [fault] d) (q : Progress) :
    c.Trail (pending limit (some fault) q) d := by
  rw [pending]
  split
  · exact h
  · exact h.suffix

/-- Reading moves forward, past the tokens of the faults that it records and of the one it stops
at. -/
def Trails (limit : Nat) (p : Progress) (s : Option SyntaxFault) (q : Progress) : Prop :=
  ∃ new, q.recorded = p.recorded ++ new ∧ p.cursor.Trail (new ++ pending limit s q) q.cursor

theorem trail_skip (c : Cursor) (keywords : List String) (base checkpoint : Nat) :
    c.Trail [] (c.skip keywords base checkpoint) :=
  (skipFrom_even keywords base checkpoint _ _ _).1

/-- Behind a fault that has been recorded reading stays, if that was the last, or skips. -/
theorem onward_trails (n : Nat) : Onward n (Trails n) where
  refl p := by
    refine ⟨[], (List.append_nil _).symm, ?_⟩
    rw [pending_none]
    exact .refl _
  trans := by
    rintro p q r s ⟨new, recorded, trail⟩ ⟨more, recorded', trail'⟩
    rw [pending_none, List.append_nil] at trail
    refine ⟨new ++ more, ?_, ?_⟩
    · rw [recorded', recorded, List.append_assoc]
    · rw [List.append_assoc]
      exact trail.trans trail'
  record := by
    rintro p q fault room ⟨new, recorded, trail⟩
    rw [pending, if_pos room] at trail
    refine ⟨new ++ [fault], ?_, ?_⟩
    · rw [Progress.record, recorded, List.append_assoc]
    · rw [pending_none, List.append_nil]
      exact trail
  resume {q} keywords base checkpoint fault room := by
    refine ⟨[], ?_, ?_⟩
    · rw [List.append_nil]
      exact recorded_recover checkpoint fault room
    · rw [List.nil_append]
      by_cases full : n ≤ (q.record fault).recorded.length
      · simp only [recover, if_neg (Nat.not_le_of_lt room), if_pos full, stop, progress, pending,
          if_neg (Nat.not_lt_of_le full)]
        exact .refl _
      · simp only [recover, if_neg (Nat.not_le_of_lt room), if_neg full, stop, progress,
          pending_none]
        exact trail_skip ..

theorem cutsBy_plain {parser : Parser α} (h : parser.Forward) :
    CutsBy (Trails n) m parser.plain parser.plain where
  leads p := by
    refine ⟨[], ?_, ?_⟩
    · rw [Parser.plain, List.append_nil]
      cases parser p.cursor <;> rfl
    · rw [Parser.plain, List.nil_append]
      cases read : parser p.cursor with
      | ok a c =>
        rw [stop, pending_none]
        exact h.ok read
      | error fault c => exact trail_pending (h.error read) _
  cut room := CutBy.plain parser room

end Recovering

namespace Reader

open Recovering

variable {reader : Reader} {m n : Nat}

theorem congruence_trails (le : m ≤ n) :
    CongruenceOn Parser.Forward (.reporting m) (.reporting n) (CutsBy (Trails n) m) where
  toThroughout := Parser.forward_composed.throughout
  plain := cutsBy_plain
  bind h hk := h.bind (onward_trails n) hk
  members _ h := h.members (onward_trails n) le

/-! ## Texts -/

theorem cutsBy_reading (file : String) (kind : DeclarationKind) (le : m ≤ n) : CutsBy (Trails n) m
    (reading ⟨file, .reporting m⟩ kind) (reading ⟨file, .reporting n⟩ kind) :=
  (((congruence_trails le).topLevel kind).round (onward_trails n) le).rounds (onward_trails n)

/-! ## Where reading stands -/

/-- Where reading some tokens stands when it stops, with what it has recorded up to a limit. -/
def stand (file : String) (kind : DeclarationKind) (tokens : List Placed) (limit : Nat) :
    Progress :=
  progress (reading ⟨file, .reporting limit⟩ kind ⟨Cursor.ofTokens tokens, []⟩)

variable (file : String) (kind : DeclarationKind) (tokens : List Placed)

theorem recorded_stand (limit : Nat) : (stand file kind tokens limit).recorded =
    (readTokens ⟨file, .reporting limit⟩ kind tokens).recorded :=
  (run_of_reading kind _).recorded

/-- Reading comes past the tokens of all faults that it records. -/
theorem trail_stand (limit : Nat) : (Cursor.ofTokens tokens).Trail
    (stand file kind tokens limit).recorded (stand file kind tokens limit).cursor := by
  obtain ⟨new, recorded, trail⟩ :=
    (cutsBy_reading file kind (Nat.le_refl limit)).leads ⟨Cursor.ofTokens tokens, []⟩
  obtain rfl : (stand file kind tokens limit).recorded = new := recorded
  exact trail.of_append

/-- With a limit that is not above another, reading ends alike below it, or it stops at a place that
the other reading comes past. -/
theorem stand_cut (le : m ≤ n) (positive : 0 < m) :
    (stand file kind tokens n).recorded.length < m ∨
      (stand file kind tokens m).recorded.length = m ∧
        ∃ s, Trails n (stand file kind tokens m) s (stand file kind tokens n) := by
  have both : CutsBy (Trails n) m (reading ⟨file, .reporting m⟩ kind)
      (reading ⟨file, .reporting n⟩ kind) := cutsBy_reading file kind le
  let start : Progress := ⟨Cursor.ofTokens tokens, []⟩
  rcases both.cut (p := start) positive with ⟨-, below⟩ | ⟨fault, q, stops, full, leads⟩
  · exact .inl below
  · have here : stand file kind tokens m = q := by rw [stand, stops, progress]
    exact .inr (here ▸ ⟨full, _, leads⟩)

/-- No more faults are recorded than the limit allows. -/
theorem length_stand_le (positive : 0 < n) :
    (stand file kind tokens n).recorded.length ≤ n := by
  rcases stand_cut file kind tokens (Nat.le_refl n) positive with below | ⟨full, -⟩
  · exact Nat.le_of_lt below
  · exact Nat.le_of_eq full

/-- **With a higher limit reading comes past the place where it stands with the lower one**, and
moves forward from there, past the tokens of the faults behind. -/
theorem trail_stand_of_le (le : m ≤ n) (positive : 0 < m)
    (enough : m ≤ (stand file kind tokens n).recorded.length) :
    (stand file kind tokens m).recorded = (stand file kind tokens n).recorded.take m ∧
      (stand file kind tokens m).cursor.Trail ((stand file kind tokens n).recorded.drop m)
        (stand file kind tokens n).cursor := by
  rcases stand_cut file kind tokens le positive with below | ⟨full, s, new, recorded, trail⟩
  · exact absurd below (Nat.not_lt_of_le enough)
  · have front : (stand file kind tokens n).recorded.take m =
        (stand file kind tokens m).recorded := by
      rw [recorded, List.take_left' full]
    have behind : (stand file kind tokens n).recorded.drop m = new := by
      rw [recorded, List.drop_left' full]
    rw [front, behind]
    exact ⟨rfl, trail.of_append⟩

/-- Up to a lower limit the faults are the first of those with a higher one, and from where `m` are
recorded to where `n` are reading comes past the tokens of those between. -/
theorem stand_between {limit : Nat} (positive : 0 < m) (le : m ≤ n) (within : n ≤ limit)
    (enough : n ≤ (stand file kind tokens limit).recorded.length) :
    (stand file kind tokens m).recorded = (stand file kind tokens limit).recorded.take m ∧
      (stand file kind tokens m).cursor.Trail ((stand file kind tokens n).recorded.drop m)
        (stand file kind tokens n).cursor := by
  have lower := trail_stand_of_le file kind tokens (Nat.le_trans le within) positive
    (Nat.le_trans le enough)
  have upper := trail_stand_of_le file kind tokens within (Nat.lt_of_lt_of_le positive le) enough
  have full : m ≤ (stand file kind tokens n).recorded.length := by
    rw [upper.1, List.length_take]
    omega
  exact ⟨lower.1, (trail_stand_of_le file kind tokens le positive full).2⟩

end Reader

namespace Declaration

theorem parseReporting_eq_stand {source : String} {tokens : List Placed}
    (scanned : Token.scan source = .ok tokens) (file : String) (kind : DeclarationKind)
    (limit : Nat) : parseReporting source file kind limit =
      .ok ((readTokens ⟨file, .upTo limit⟩ kind tokens).declarations,
        (Reader.stand file kind tokens (max limit 1)).recorded.map (·.inFile file)) := by
  have same : (Reader.stand file kind tokens (max limit 1)).recorded =
      (readTokens ⟨file, .upTo limit⟩ kind tokens).recorded :=
    Reader.recorded_stand file kind tokens (max limit 1)
  rw [parseReporting, scanned, same]

/-- **Errors are in the order of the text.**  In a text that has tokens, read with any limit, each
error carries the name of the file and the place of a token, and their places do not decrease.  With
a limit of `m` reading stands, when it stops, where it has recorded the first `m` of them; and from
where the first `m` are recorded to where the first `n` are it does not go back, but comes past the
tokens of those between. -/
theorem errors_in_order {source : String} {tokens : List Placed}
    (scanned : Token.scan source = .ok tokens) (file : String) (kind : DeclarationKind)
    (limit : Nat) :
    ∃ ds errors, parseReporting source file kind limit = .ok (ds, errors) ∧
      (errors.Pairwise fun e e' => e.position.AtMost e'.position) ∧
      (∀ e ∈ errors, e.file = file ∧ ∃ t ∈ tokens, t.position = e.position) ∧
      ∀ m n, 1 ≤ m → m ≤ n → n ≤ errors.length →
        (Reader.stand file kind tokens m).recorded.map (·.inFile file) = errors.take m ∧
        (Reader.stand file kind tokens n).cursor.placed <:+
          (Reader.stand file kind tokens m).cursor.placed ∧
        (Reader.stand file kind tokens m).cursor.Trail
          ((Reader.stand file kind tokens n).recorded.drop m)
          (Reader.stand file kind tokens n).cursor := by
  have nonempty : tokens ≠ [] := by
    rintro rfl
    exact absurd (Token.genuine_of_scan scanned).1 nofun
  have start : (Cursor.ofTokens tokens).placed = tokens := Cursor.placed_ofTokens nonempty
  have positive : 0 < max limit 1 := by omega
  have trail := Reader.trail_stand file kind tokens (max limit 1)
  refine ⟨_, _, parseReporting_eq_stand scanned file kind limit, ?_, ?_, ?_⟩
  · rw [List.pairwise_map]
    refine trail.ordered ?_
    rw [start]
    exact Token.pairwise_before_of_scan scanned
  · intro e he
    obtain ⟨fault, hf, rfl⟩ := List.mem_map.mp he
    refine ⟨rfl, ?_⟩
    have met := trail.exists_token hf
    rwa [start] at met
  · intro m n first le enough
    rw [List.length_map] at enough
    have within : n ≤ max limit 1 :=
      Nat.le_trans enough (Reader.length_stand_le file kind tokens positive)
    obtain ⟨recorded, forward⟩ := Reader.stand_between file kind tokens first le within enough
    refine ⟨?_, forward.suffix, forward⟩
    rw [← List.map_take, ← recorded]

/-- The tokens of a group that ends within its second member. -/
def unclosedTokens : List Placed :=
  [(.word "group", 1), (.word "g", 7), (.braceOpen, 9), (.word "use", 11), (.word "rule", 15),
    (.int 1, 20), (.word "set", 22), (.eof, 25)].map fun (token, column) => ⟨token, ⟨1, column⟩⟩

/-- Of three errors the last two are at the end of the text: a setting without a key, and a group
without its closing brace. -/
theorem errors_in_order_unclosed :
    let source := "group g \x7b use rule 1 set"
    Token.scan source = .ok unclosedTokens ∧
    ((parseReporting source "g" .group 5).toOption.map fun (_, errors) =>
      errors.map (·.position.column)) = some [20, 25, 25] ∧
    ∃ ds errors, parseReporting source "g" .group 5 = .ok (ds, errors) ∧
      (errors.Pairwise fun e e' => e.position.AtMost e'.position) ∧
      (∀ e ∈ errors, e.file = "g" ∧ ∃ t ∈ unclosedTokens, t.position = e.position) ∧
      ∀ m n, 1 ≤ m → m ≤ n → n ≤ errors.length →
        (Reader.stand "g" .group unclosedTokens m).recorded.map (·.inFile "g") = errors.take m ∧
        (Reader.stand "g" .group unclosedTokens n).cursor.placed <:+
          (Reader.stand "g" .group unclosedTokens m).cursor.placed ∧
        (Reader.stand "g" .group unclosedTokens m).cursor.Trail
          ((Reader.stand "g" .group unclosedTokens n).recorded.drop m)
          (Reader.stand "g" .group unclosedTokens n).cursor := by
  intro source
  have scanned : Token.scan source = .ok unclosedTokens := by decide +kernel
  exact ⟨scanned, by decide +kernel, errors_in_order scanned "g" .group 5⟩

end Declaration

end Compliance
