import Compliance.Proofs.Declaration.Composed
import Compliance.Proofs.Predicate.Operands
import Compliance.Proofs.Token.Forward

/-!
# Moving forward through declarations

Every part of a declaration is read by moving forward, down to its literals.  A fault is
one of the current token where it shows, but for two: operands that do not fit are a
fault of the place where their operator starts, which has been passed then, and a brace
that closes nothing is passed as it is refused.

## Main definitions

* `Parser.forward_predicate` — predicates, with the fault of their operands.
* `Parser.forward_composed` — all that parsers are composed of moves forward.
-/

namespace Compliance.Parser

/-- Operands that do not fit are a fault of the place where their operator starts.  The cursor is
behind them then, but has come past that place. -/
theorem forward_predicate (h : Forward operation) : Forward predicate where
  ok result := by
    rw [predicate_run] at result
    split at result
    · next read =>
      split at result <;> cases result
      exact h.ok read
    · cases result
  error result := by
    rw [predicate_run] at result
    split at result
    · next read =>
      split at result <;> cases result
      exact (h.ok read).here _
    · next read =>
      cases result
      exact h.error read

/-- Passing over a brace as it is refused is moving forward as well. -/
theorem forward_strayBrace {α : Type} : Forward (strayBrace : Parser α) :=
  .of_stops fun _ => Cursor.advance_placed_suffix

/-- **Declarations are read by moving forward.** -/
theorem forward_composed : Composed Forward where
  pure := .pure
  bind := .bind
  foldWhile := forward_foldWhile
  token := forward_token
  position := forward_position
  cursor := forward_get
  advance := forward_advance
  deepen _ := .of_moves fun _ => List.suffix_rfl
  unexpected := forward_unexpected
  refuse cause _ := forward_refuse cause
  strayBrace := forward_strayBrace
  predicate := forward_predicate

end Compliance.Parser
