import Compliance.Proofs.Declaration.Composed
import Compliance.Proofs.Declaration.Modes
import Compliance.Proofs.Predicate.Operands

/-!
# No text has operands in a wrong number

Operators are read with as many operands as they take, and only predicates refuse
operands.  So nothing that declarations are read with stops for the number of operands,
and no fault that is recorded on the way or that stops the reading is about it.

## Main definitions

* `SyntaxCause.IsCount` — the number of operands is wrong.
* `Parser.Counts` — a parser that does not stop for it.
* `Recovering.Counts` — neither is it recorded on the way from one place to another.
* `Declaration.no_count_reported` — it is no error of a text.
* `operators_supplied` — operators get the operands they need.
-/

namespace Compliance

open Declaration

/-- The number of operands is wrong. -/
def SyntaxCause.IsCount (cause : SyntaxCause) : Prop := ∃ op n, cause = .operand (.count op n)

theorem SyntaxCause.not_isCount {cause : SyntaxCause} (h : ∀ fault, cause ≠ .operand fault) :
    ¬ cause.IsCount := fun ⟨_, _, same⟩ => h _ same

/-! ## Parsers -/

namespace Parser

variable {α β : Type} {P : Parser α}

/-- A parser does not stop for the number of operands. -/
def Counts (P : Parser α) : Prop := ∀ c d fault, P c = .error fault d → ¬ fault.cause.IsCount

theorem Counts.of_ok {value : Cursor → α} {move : Cursor → Cursor} :
    Counts (fun c => .ok (value c) (move c) : Parser α) :=
  fun _ _ _ result => by cases result

theorem Counts.of_error {cause : Cursor → SyntaxCause} {move : Cursor → Cursor}
    (h : ∀ c, ¬ (cause c).IsCount) :
    Counts (fun c => .error ⟨c.current.position, cause c⟩ (move c) : Parser α) := by
  intro c d fault result
  cases result
  exact h c

theorem Counts.bind {k : α → Parser β} (h : Counts P) (hk : ∀ a, Counts (k a)) :
    Counts (P >>= k) := by
  intro c e fault result
  cases first : P c with
  | ok a d =>
    rw [bind_ok first] at result
    exact hk a d e fault result
  | error fault' d =>
    rw [bind_error first] at result
    cases result
    exact h c _ _ first

theorem counts_foldWhile {goOn : Cursor → Bool} {step : β → Parser β} (h : ∀ b, Counts (step b))
    (b : β) : Counts (foldWhile goOn step b) := by
  intro c d fault result
  induction b, c using foldWhile_induction goOn step with
  | finish b c ends =>
    rw [foldWhile_end ends] at result
    cases result
  | more b c next e continues first less ih =>
    rw [foldWhile_cons continues first less] at result
    exact ih result
  | last b c next e continues first less =>
    rw [foldWhile_last continues first less] at result
    cases result
  | stop b c fault' e continues first =>
    rw [foldWhile_stop continues first, ← first] at result
    exact h b c _ _ result

/-- Operands are judged behind an operator that has been read with as many as it takes. -/
theorem counts_predicate (h : Counts operation) : Counts predicate := by
  intro c d fault result
  rw [predicate_run] at result
  split at result
  · next op operands e read =>
    split at result
    · cases result
    · next fault' refused =>
      cases result
      rintro ⟨op', n, same⟩
      cases same
      obtain ⟨-, -, wrong⟩ := Predicate.build_eq_count_iff.mp refused
      rw [supplies_operation _ _ _ _ read] at wrong
      cases wrong
  · next read =>
    cases result
    exact h _ _ _ read

/-- **Nothing that declarations are read with stops for the number of operands.** -/
theorem counts_composed : Composed Counts where
  pure _ := .of_ok
  bind := .bind
  foldWhile := counts_foldWhile
  token := .of_ok
  position := .of_ok
  cursor := .of_ok
  advance := .of_ok
  deepen _ := .of_ok
  unexpected _ := .of_error fun _ => SyntaxCause.not_isCount nofun
  refuse _ other := .of_error fun _ => SyntaxCause.not_isCount other
  strayBrace := .of_error fun _ => SyntaxCause.not_isCount nofun
  predicate := counts_predicate

end Parser

/-! ## Texts -/

namespace Recovering

variable {α : Type} {n : Nat}

/-- If no fault that is recorded at one place is about the number of operands, none at the other
place is, and neither is the one at which reading stops there. -/
def Counts (p : Progress) (s : Option SyntaxFault) (q : Progress) : Prop :=
  (∀ fault ∈ p.recorded, ¬ fault.cause.IsCount) →
    ∀ fault ∈ q.recorded ++ s.toList, ¬ fault.cause.IsCount

theorem onward_counts (n : Nat) : Onward n Counts where
  refl p := by
    intro h
    rwa [Option.toList_none, List.append_nil]
  trans first second h := by
    have between := first h
    rw [Option.toList_none, List.append_nil] at between
    exact second between
  record := by
    intro p q fault _ met h
    rw [Option.toList_none, List.append_nil]
    exact met h
  resume {q} keywords base checkpoint fault room := by
    intro h other ho
    rw [recorded_recover checkpoint fault room, List.mem_append] at ho
    rcases ho with ho | ho
    · exact h other ho
    · have last : other = fault := by
        simp only [recover] at ho
        rw [if_neg (by omega)] at ho
        split at ho
        · simpa [stop] using ho
        · simp [stop] at ho
      exact h other (last ▸ List.mem_append_right _ List.mem_cons_self)

theorem leads_plain {parser : Parser α} (h : parser.Counts) (p : Progress) :
    Leads Counts p (parser.plain p) := by
  intro before
  rw [Parser.plain]
  cases read : parser p.cursor with
  | ok a c =>
    rw [stop, progress, Option.toList_none, List.append_nil]
    exact before
  | error fault c =>
    intro other ho
    rcases List.mem_append.mp ho with ho | ho
    · exact before other ho
    · obtain rfl : other = fault := by simpa [stop] using ho
      exact h _ _ _ read

/-- Where faults are recorded, it goes on through all that declarations are read with. -/
theorem congruence_counts (n : Nat) : CongruenceOn Parser.Counts (.reporting n) (.reporting n)
    (fun f _ => ∀ p, Leads Counts p (f p)) where
  toThroughout := Parser.counts_composed.throughout
  plain := leads_plain
  bind h hk p := (onward_counts n).bind hk (h p)
  members {_ f _} keywords h p := by
    have block : Leads Counts p (membersAt (.reporting n) keywords p.cursor.depth f p) := by
      rw [membersAt_eq_rounds]
      exact (onward_counts n).rounds (fun q => (onward_counts n).round (h q)) p
    exact block

end Recovering

namespace Declaration

variable {source file : String} {kind : DeclarationKind}

/-- No fault that is recorded while a text is read is about the number of operands. -/
theorem not_isCount_of_recorded (n : Nat) (tokens : List Placed) {fault : SyntaxFault}
    (h : fault ∈ (readTokens ⟨file, .reporting n⟩ kind tokens).recorded) :
    ¬ fault.cause.IsCount := by
  have onward := Recovering.onward_counts n
  have top : ∀ q, Recovering.Leads Recovering.Counts q
      (Reader.topLevel ⟨file, .reporting n⟩ kind q) :=
    (Recovering.congruence_counts n).topLevel kind
  have leads : Recovering.Leads Recovering.Counts ⟨Cursor.ofTokens tokens, []⟩
      (Reader.reading ⟨file, .reporting n⟩ kind ⟨Cursor.ofTokens tokens, []⟩) :=
    onward.rounds (fun q => onward.round (top q)) _
  refine leads nofun fault (List.mem_append_left _ ?_)
  rw [(Reader.run_of_reading kind _).recorded]
  exact h

/-- **No error of a text is about the number of operands**, where errors are reported. -/
theorem no_count_reported (limit : Nat) :
    (∀ e, parseReporting source file kind limit = .error e → ¬ e.cause.IsCount) ∧
    ∀ ds errors, parseReporting source file kind limit = .ok (ds, errors) →
      ∀ e ∈ errors, ¬ e.cause.IsCount := by
  rw [parseReporting]
  cases scanned : Token.scan source with
  | error error =>
    refine ⟨fun e found => ?_, fun ds errors absent => (by cases absent)⟩
    cases found
    exact SyntaxCause.not_isCount fun fault same => by cases same
  | ok tokens =>
    refine ⟨fun e absent => (by cases absent), fun ds errors found e he => ?_⟩
    cases found
    obtain ⟨fault, hf, rfl⟩ := List.mem_map.mp he
    exact not_isCount_of_recorded _ tokens hf

theorem no_count_stops {e : SyntaxError} (h : parse source file kind = .error e) :
    ¬ e.cause.IsCount := by
  obtain ⟨lexical, reported⟩ := @no_count_reported source file kind 1
  cases scanned : Token.scan source with
  | error error =>
    obtain ⟨first, same⟩ := @parse_of_scan_error source file kind 1 error scanned
    rw [first] at h
    cases h
    exact lexical _ same
  | ok tokens =>
    have agrees := @parseReporting_of_scan source file kind 1 tokens scanned
    rw [h] at agrees
    obtain ⟨ds, more, same⟩ := agrees
    exact reported _ _ same e List.mem_cons_self

end Declaration

/-- **Operators get the operands they need.**  Wherever an operator is read with operands, it takes
so many, and no text has an error about their number in either mode.  What an operator makes of
operands is an error about their number exactly if that is wrong, whatever they are; else it is a
predicate exactly if they have the kinds of the operator, and the predicate carries them in order.
Nothing that stands in for a missing operand makes a difference. -/
theorem operators_supplied :
    (∀ c d op operands, Parser.operation c = .ok (op, operands) d →
      op.arity.accepts operands.length = true) ∧
    (∀ source file kind,
      (∀ e, Declaration.parse source file kind = .error e → ¬ e.cause.IsCount) ∧
      ∀ limit, (∀ e, parseReporting source file kind limit = .error e → ¬ e.cause.IsCount) ∧
        ∀ ds errors, parseReporting source file kind limit = .ok (ds, errors) →
          ∀ e ∈ errors, ¬ e.cause.IsCount) ∧
    ∀ op operands,
      (∀ op' n, Predicate.build op operands = .error (.count op' n) ↔
        op' = op ∧ n = operands.length ∧ op.arity.accepts operands.length = false) ∧
      (op.arity.accepts operands.length = true →
        ((∃ p, Predicate.build op operands = .ok p) ↔ op.Fits operands)) ∧
      (∀ p, Predicate.build op operands = .ok p ↔ Predicate.Built op operands p) ∧
      (∀ p, Predicate.build op operands = .ok p →
        ∃ written, p.carried = written ++ op.implied ∧
          List.Forall₂ Operand.Of operands written) ∧
      ∀ standIn, Predicate.buildFrom standIn op operands = Predicate.build op operands := by
  refine ⟨Parser.supplies_operation, fun source file kind => ⟨fun e => no_count_stops,
    no_count_reported⟩, fun op operands => ?_⟩
  refine ⟨fun op' n => Predicate.build_eq_count_iff, Predicate.exists_build_iff,
    fun p => Predicate.build_eq_ok_iff, fun p built => ?_,
    fun standIn => Predicate.buildFrom_eq standIn op operands⟩
  exact (Predicate.build_eq_ok_iff.mp built).carried

end Compliance
