import Compliance.Proofs.Declaration.Modes
import Mathlib.Data.List.TakeDrop

/-!
# Higher limits

Two limits for the faults of one text make a difference only from the fault on that reaches
the lower one.  There the one reading stops, at all levels at once: no block records the
fault again, and none of the declarations it stops in is there.  The other reading goes on,
and takes nothing back.  So with a higher limit there is more of everything, behind what
there is with the lower one.

## Main definitions

* `Recovering.CutShort m x y` — the result `x` is `y`, or it is stopped at `m` faults before.
* `Recovering.Cuts m f g` — `f` does what `g` does, until `m` faults are recorded.
* `Reader.Outcome.CutShort m o o'` — the same of the outcomes of reading a text.
* `Declaration.higher_limit_adds` — declarations and faults with two limits.
-/

namespace Compliance

namespace Recovering

variable {α β : Type} {m n : Nat} {f g : Recovering α} {keywords : List String} {base : Nat}

/-- The first of two results is the second, with fewer than `m` faults recorded, or it is stopped
with `m` faults that are recorded in the second as well. -/
def CutShort (m : Nat) (x y : EStateM.Result SyntaxFault Progress α) : Prop :=
  (x = y ∧ (progress y).recorded.length < m) ∨
    ∃ fault q, x = .error fault q ∧ q.recorded.length = m ∧ q.recorded <+: (progress y).recorded

/-- As long as fewer than `m` faults are recorded both parts of reading do the same, and the first
one stops with the last of them. -/
structure Cuts (m : Nat) (f g : Recovering α) : Prop where
  grows : Grows g
  cut : ∀ {p : Progress}, p.recorded.length < m → CutShort m (f p) (g p)

/-! ## What is recorded -/

/-- Cutting short is being stopped where the other reading comes past with what is recorded. -/
theorem cuts_iff : Cuts m f g ↔ CutsBy Records m f g :=
  ⟨fun h => ⟨h.grows, h.cut⟩, fun h => ⟨h.leads, h.cut⟩⟩

theorem cuts_plain (parser : Parser α) : Cuts m parser.plain parser.plain where
  grows := (agrees_plain parser).grows
  cut {p} room := (CutBy.plain parser room : CutBy Records m (parser.plain p) (parser.plain p))

/-- The fault that reaches the lower limit is the last, and any other is recovered from alike. -/
theorem recover_cuts (le : m ≤ n) {p : Progress} (room : p.recorded.length < m) (checkpoint : Nat)
    (fault : SyntaxFault) :
    CutShort m (recover (.reporting m) keywords base checkpoint fault p)
      (recover (.reporting n) keywords base checkpoint fault p) :=
  recover_cutBy (onward_records n) le room checkpoint fault

end Recovering

namespace Reader

open Recovering

variable {file : String} {m n : Nat}

theorem congruence_cuts (le : m ≤ n) : Congruence (.reporting m) (.reporting n) (Cuts m) where
  plain := cuts_plain
  bind h hk := cuts_iff.mpr ((cuts_iff.mp h).bind (onward_records n) fun a => cuts_iff.mp (hk a))
  members _ h := cuts_iff.mpr ((cuts_iff.mp h).members (onward_records n) le)

/-! ## Texts -/

/-- The first of two outcomes is the second, with fewer than `m` faults recorded, or it is stopped
with `m` faults and as many declarations as there are up to there. -/
def Outcome.CutShort (m : Nat) (o o' : Outcome) : Prop :=
  (o = o' ∧ o'.recorded.length < m) ∨
    (o.recorded.length = m ∧ o.recorded <+: o'.recorded ∧ o.declarations <+: o'.declarations)

/-- A first declaration in front of both. -/
theorem Outcome.CutShort.cons {o o' : Outcome} (h : o.CutShort m o') (d : Declaration) :
    Outcome.CutShort m { o with declarations := d :: o.declarations }
      { o' with declarations := d :: o'.declarations } := by
  rcases h with ⟨rfl, below⟩ | ⟨full, faults, declarations⟩
  · exact .inl ⟨rfl, below⟩
  · exact .inr ⟨full, faults, List.prefix_cons_inj d |>.mpr declarations⟩

/-- **With a lower limit the outcome is the same, or cut short.** -/
theorem run_cuts (le : m ≤ n) (kind : DeclarationKind) {p : Progress}
    (room : p.recorded.length < m) :
    Outcome.CutShort m (run ⟨file, .reporting m⟩ kind p) (run ⟨file, .reporting n⟩ kind p) := by
  induction size : p.size using Nat.strongRecOn generalizing p with
  | ind size ih =>
    subst size
    have stopped {q : Progress} {fault : SyntaxFault} (full : q.recorded.length = m)
        (kept : q.recorded <+: (run ⟨file, .reporting n⟩ kind p).recorded) :
        Outcome.CutShort m ⟨[], q.recorded, some fault⟩ (run ⟨file, .reporting n⟩ kind p) :=
      .inr ⟨full, kept, List.nil_prefix⟩
    by_cases continues : p.cursor.token = .eof
    · rw [run_eof continues, run_eof continues]
      exact .inl ⟨rfl, room⟩
    · have top : Cuts m (topLevel ⟨file, .reporting m⟩ kind) (topLevel ⟨file, .reporting n⟩ kind) :=
        (congruence_cuts le).topLevel kind
      rcases top.cut room with ⟨same, below⟩ | ⟨fault, q, stops, full, kept⟩
      · cases hg : topLevel ⟨file, .reporting n⟩ kind p with
        | ok d q =>
          rw [hg] at same below
          by_cases less : q.size < p.size
          · rw [run_cons continues same less, run_cons continues hg less]
            exact (ih q.size less below rfl).cons d
          · rw [run_last continues same less, run_last continues hg less]
            exact .inl ⟨rfl, below⟩
        | error fault q =>
          rw [hg] at same below
          have behind := recorded_run_error continues hg
          rcases @recover_cuts m n topKeywords 0 le q below p.size fault with
            ⟨recovers, below'⟩ | ⟨stop, r, stops, full, kept⟩
          · cases hr : recover (.reporting n) topKeywords 0 p.size fault q with
            | ok u r =>
              rw [hr] at recovers below'
              by_cases less : r.size < p.size
              · rw [run_recover continues same recovers less, run_recover continues hg hr less]
                exact ih r.size less below' rfl
              · rw [run_recover_last continues same recovers less,
                  run_recover_last continues hg hr less]
                exact .inl ⟨rfl, below'⟩
            | error stop r =>
              rw [hr] at recovers below'
              rw [run_stop continues same recovers, run_stop continues hg hr]
              exact .inl ⟨rfl, below'⟩
          · rw [run_stop continues same stops]
            exact stopped full (kept.trans behind)
      · rw [run_stop continues stops (recover_full full _ _)]
        exact stopped full (kept.trans (recorded_run_first continues))

/-- What is cut short has the first faults of the other, up to the limit, and the first
declarations. -/
theorem Outcome.CutShort.prefixes {o o' : Outcome} (h : o.CutShort m o') :
    o.recorded = o'.recorded.take m ∧ o.declarations <+: o'.declarations ∧
      o.recorded.length ≤ m := by
  rcases h with ⟨rfl, below⟩ | ⟨full, faults, declarations⟩
  · exact ⟨(List.take_of_length_le (Nat.le_of_lt below)).symm, List.prefix_rfl, Nat.le_of_lt below⟩
  · exact ⟨full ▸ List.prefix_iff_eq_take.mp faults, declarations, Nat.le_of_eq full⟩

end Reader

namespace Declaration

/-- **A higher limit only adds.**  A text that has tokens is read with any limit, where zero counts
as one.  With a higher limit there are at least the same declarations at the start, and the faults
with the lower limit are the first ones, as many as it allows.  There are never more than the limit
allows. -/
theorem higher_limit_adds {source file : String} {kind : DeclarationKind} {tokens : List Placed}
    (scanned : Token.scan source = .ok tokens) {m n : Nat} (le : m ≤ n) :
    ∃ fewer more errors,
      parseReporting source file kind n = .ok (more, errors) ∧
      parseReporting source file kind m = .ok (fewer, errors.take (max m 1)) ∧
      fewer <+: more ∧ errors.length ≤ max n 1 := by
  have start (limit : Nat) : ([] : List SyntaxFault).length < max limit 1 := by
    simp only [List.length_nil]
    omega
  have limits : max m 1 ≤ max n 1 := by omega
  have lower : Reader.Outcome.CutShort (max m 1) (readTokens ⟨file, .upTo m⟩ kind tokens)
      (readTokens ⟨file, .upTo n⟩ kind tokens) := Reader.run_cuts limits kind (start m)
  have same : Reader.Outcome.CutShort (max n 1) (readTokens ⟨file, .upTo n⟩ kind tokens)
      (readTokens ⟨file, .upTo n⟩ kind tokens) := Reader.run_cuts (Nat.le_refl _) kind (start n)
  obtain ⟨faults, declarations, -⟩ := lower.prefixes
  obtain ⟨-, -, length⟩ := same.prefixes
  refine ⟨(readTokens ⟨file, .upTo m⟩ kind tokens).declarations,
    (readTokens ⟨file, .upTo n⟩ kind tokens).declarations,
    (readTokens ⟨file, .upTo n⟩ kind tokens).recorded.map (·.inFile file), ?_, ?_, declarations, ?_⟩
  · rw [parseReporting, scanned]
  · rw [parseReporting, scanned]
    have same : (readTokens ⟨file, .upTo m⟩ kind tokens).recorded =
        (readTokens ⟨file, .upTo n⟩ kind tokens).recorded.take (max m 1) := faults
    simp only [same, List.map_take]
  · rw [List.length_map]
    exact length

/-- The tokens of two rules with a fault behind each. -/
def faultyTokens : List Placed :=
  [(.word "rule", 1), (.word "a", 6), (.word "on", 8), (.word "t", 11), (.braceOpen, 13),
    (.word "assert", 15), (.braceOpen, 22), (.braceClose, 24), (.braceClose, 26),
    (.braceClose, 28), (.word "rule", 30), (.word "b", 35), (.word "on", 37), (.word "t", 40),
    (.braceOpen, 42), (.word "assert", 44), (.braceOpen, 51), (.braceClose, 53),
    (.braceClose, 55), (.braceClose, 57), (.eof, 58)].map
      fun (token, column) => ⟨token, ⟨1, column⟩⟩

/-- With room for one fault the second rule is not read, with room for two it is. -/
theorem higher_limit_adds_rule :
    let source := "rule a on t \x7b assert \x7b \x7d \x7d \x7d " ++
      "rule b on t \x7b assert \x7b \x7d \x7d \x7d"
    let read (limit : Nat) := ((parseReporting source "r" .rule limit).toOption.map
      fun (ds, errors) => (ds.map name, errors.map (·.position.column)))
    Token.scan source = .ok faultyTokens ∧ 1 ≤ 2 ∧
    read 1 = some (["a"], [28]) ∧ read 2 = some (["a", "b"], [28, 57]) ∧
    ∃ fewer more errors,
      parseReporting source "r" .rule 2 = .ok (more, errors) ∧
      parseReporting source "r" .rule 1 = .ok (fewer, errors.take (max 1 1)) ∧
      fewer <+: more ∧ errors.length ≤ max 2 1 := by
  intro source read
  have scanned : Token.scan source = .ok faultyTokens := by decide +kernel
  have le : 1 ≤ 2 := by decide
  exact ⟨scanned, le, by decide +kernel, by decide +kernel, higher_limit_adds scanned le⟩

end Declaration

end Compliance
